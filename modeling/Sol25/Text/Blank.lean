import Sol25.Text.CodeRange

/-!
Blanks in the sense of Unicode, and a text without the blanks around it.
-/

set_option autoImplicit false
set_option relaxedAutoImplicit false

namespace Sol25.Text

/-- The ranges of the property `White_Space`. -/
def blankRanges : List CodeRange :=
  [(0x9, 0xD), (0x20, 0x20), (0x85, 0x85), (0xA0, 0xA0), (0x1680, 0x1680), (0x2000, 0x200A),
   (0x2028, 0x2029), (0x202F, 0x202F), (0x205F, 0x205F), (0x3000, 0x3000)]

def isBlank (c : Char) : Bool := CodeRange.covers blankRanges c

/-- The text from its first to its last character that is no blank. -/
def trimmed (text : List Char) : List Char :=
  ((text.dropWhile isBlank).reverse.dropWhile isBlank).reverse

end Sol25.Text
