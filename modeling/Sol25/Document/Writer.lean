import Sol25.Document.Element

/-!
A writer puts the tags of a document on lines of their own, two blanks deeper for every element that
is open. One writer may write one document after the other.
-/

set_option autoImplicit false
set_option relaxedAutoImplicit false

namespace Sol25.Document

structure Writer where
  /-- The lines so far. -/
  text : String
  /-- The number of elements that are open. -/
  depth : Nat

namespace Writer

/-- A writer that has written nothing. -/
def fresh : Writer := ⟨"", 0⟩

/-- The blanks in front of a tag. -/
def indentation (depth : Nat) : String := String.join (List.replicate depth "  ")

def line (tag : String) (writer : Writer) : Writer :=
  { writer with text := writer.text ++ indentation writer.depth ++ tag ++ "\n" }

/-- An element without children. -/
def leaf (name : String) (attributes : List Attribute) (writer : Writer) : Writer :=
  writer.line ("<" ++ name ++ attributesText attributes ++ "/>")

def opening (name : String) (attributes : List Attribute) (writer : Writer) : Writer :=
  let written := writer.line ("<" ++ name ++ attributesText attributes ++ ">")
  { written with depth := written.depth + 1 }

def closing (name : String) (writer : Writer) : Writer :=
  { writer with depth := writer.depth - 1 }.line ("</" ++ name ++ ">")

mutual

/-- An element closes itself exactly if there is nothing below it. -/
def element : Element → Writer → Writer
  | ⟨name, attributes, []⟩, writer => writer.leaf name attributes
  | ⟨name, attributes, child :: children⟩, writer =>
    (elements children (element child (writer.opening name attributes))).closing name

def elements : List Element → Writer → Writer
  | [], writer => writer
  | child :: children, writer => elements children (element child writer)

end

/-- The line with which every document begins. -/
def declaration : String := "<?xml version=\"1.0\" encoding=\"UTF-8\"?>"

/-- Writes a document with this root. What was written before is forgotten. -/
def document (root : Element) (writer : Writer) : Writer :=
  element root ({ writer with text := "", depth := 0 }.line declaration)

end Writer

end Sol25.Document
