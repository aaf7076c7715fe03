/-!
Text as a JSON string: the quote, the backslash and the controls below the blank are escaped, and
every other character stands for itself.
-/

set_option autoImplicit false
set_option relaxedAutoImplicit false

namespace Sol25.Text

/-- A number below 256 as two hexadecimal digits. -/
def twoHexDigits (n : Nat) : String :=
  String.ofList [Nat.digitChar (n / 16), Nat.digitChar (n % 16)]

def jsonEscaped (c : Char) : String :=
  match c with
  | '"' => "\\\""
  | '\\' => "\\\\"
  | '\x08' => "\\b"
  | '\x0c' => "\\f"
  | '\n' => "\\n"
  | '\r' => "\\r"
  | '\t' => "\\t"
  | _ => if c.toNat < 0x20 then "\\u00" ++ twoHexDigits c.toNat else c.toString

/-- The text in double quotes. -/
def jsonString (text : String) : String :=
  "\"" ++ String.join (text.toList.map jsonEscaped) ++ "\""

end Sol25.Text
