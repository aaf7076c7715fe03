/-!
Documents as trees of elements, and the form in which an attribute is written. What ends a value,
opens a tag or a reference, or would not survive as it is when a line end is read, is written as a
reference.
-/

set_option autoImplicit false
set_option relaxedAutoImplicit false

namespace Sol25.Document

structure Attribute where
  name : String
  value : String
deriving DecidableEq

/-- An element has attributes, in order, and elements below it. There is no text between them. -/
structure Element where
  name : String
  attributes : List Attribute
  children : List Element

/-- A character of an attribute's value. -/
def escaped (c : Char) : String :=
  match c with
  | '&' => "&amp;"
  | '<' => "&lt;"
  | '>' => "&gt;"
  | '"' => "&quot;"
  | '\n' => "&#10;"
  | '\r' => "&#13;"
  | '\t' => "&#9;"
  | _ => c.toString

/-- An attribute with the blank in front of it. -/
def Attribute.text (self : Attribute) : String :=
  " " ++ self.name ++ "=\"" ++ String.join (self.value.toList.map escaped) ++ "\""

def attributesText (attributes : List Attribute) : String :=
  String.join (attributes.map Attribute.text)

end Sol25.Document
