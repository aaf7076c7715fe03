import Sol25.Text.GraphemeExtend
import Sol25.Text.Unassigned

/-!
A single character between quotes, written so that a reader sees which one it is: what would not
show, or would change its neighbours, appears as an escape.
-/

set_option autoImplicit false
set_option relaxedAutoImplicit false

namespace Sol25.Text

/-- The controls, the format characters, the separators other than the blank and the code points for
private use. -/
def concealedRanges : List CodeRange :=
  [(0x0, 0x1F), (0x7F, 0xA0), (0xAD, 0xAD), (0x600, 0x605), (0x61C, 0x61C), (0x6DD, 0x6DD),
   (0x70F, 0x70F), (0x890, 0x891), (0x8E2, 0x8E2), (0x1680, 0x1680), (0x180E, 0x180E),
   (0x2000, 0x200F), (0x2028, 0x202F), (0x205F, 0x2064), (0x2066, 0x206F), (0x3000, 0x3000),
   (0xE000, 0xF8FF), (0xFEFF, 0xFEFF), (0xFFF9, 0xFFFB), (0x110BD, 0x110BD), (0x110CD, 0x110CD),
   (0x13430, 0x1343F), (0x1BCA0, 0x1BCA3), (0x1D173, 0x1D17A), (0xE0001, 0xE0001),
   (0xE0020, 0xE007F), (0xF0000, 0xFFFFD), (0x100000, 0x10FFFD)]

/-- The Hangul fillers, which are letters but leave no trace on a display. -/
def fillerRanges : List CodeRange :=
  [(0x115F, 0x1160), (0x3164, 0x3164), (0xFFA0, 0xFFA0)]

/-- The halfwidth voiced and semi-voiced sound marks. They extend a grapheme, but are letters that
take up a cell of their own. -/
def soundMarkRanges : List CodeRange := [(0xFF9E, 0xFF9F)]

/-- Whether a display shows `c` at all. -/
def isPrintable (c : Char) : Bool :=
  !(CodeRange.covers concealedRanges c || CodeRange.covers fillerRanges c || isUnassigned c)

/-- Whether `c` is shown on the character in front of it instead of by itself. -/
def isAttached (c : Char) : Bool := extendsGrapheme c && !CodeRange.covers soundMarkRanges c

/-- The code point in lowercase hexadecimal digits, without leading zeros. -/
def hexDigits (c : Char) : String := String.ofList (Nat.toDigits 16 c.toNat)

/-- A character as it stands between single quotes. The double quote needs no escape there. -/
def escaped (c : Char) : String :=
  match c with
  | '\x00' => "\\0"
  | '\t' => "\\t"
  | '\r' => "\\r"
  | '\n' => "\\n"
  | '\'' => "\\'"
  | '\\' => "\\\\"
  | _ =>
    if isPrintable c && !isAttached c then c.toString
    else "\\u\x7b" ++ hexDigits c ++ "\x7d"

/-- A character in single quotes. -/
def quoted (c : Char) : String := "'" ++ escaped c ++ "'"

end Sol25.Text
