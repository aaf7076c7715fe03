import Sol25.Document.Program
import Sol25.Proofs.Placeless

/-!
# Reading a document

A document is read back in four steps. Its line ends are made alike, it is split into tags, the tags
are put together to elements, and the elements are taken for the parts of a program. The reader
knows seven references and no other, and it treats the values of attributes as any reader of such
documents does: a tabulator or a line end that is not written as a reference becomes a blank.

What a document does not tell is where the program was written and how many arguments its methods
take. A program without them is `Program.bare`.
-/

set_option autoImplicit false
set_option relaxedAutoImplicit false

namespace Sol25.Document

/-! ### Text -/

/-- Every line end is a line feed. -/
def normalized : List Char → List Char
  | [] => []
  | '\r' :: '\n' :: rest => '\n' :: normalized rest
  | '\r' :: rest => '\n' :: normalized rest
  | c :: rest => c :: normalized rest

/-- A character of a value that is not part of a reference. -/
def plain (c : Char) : Char := if c = '\t' ∨ c = '\n' ∨ c = '\r' then ' ' else c

/-- The value that stands between the quotes of an attribute. -/
def resolved : List Char → Option (List Char)
  | [] => some []
  | '&' :: 'a' :: 'm' :: 'p' :: ';' :: rest => (resolved rest).map ('&' :: ·)
  | '&' :: 'l' :: 't' :: ';' :: rest => (resolved rest).map ('<' :: ·)
  | '&' :: 'g' :: 't' :: ';' :: rest => (resolved rest).map ('>' :: ·)
  | '&' :: 'q' :: 'u' :: 'o' :: 't' :: ';' :: rest => (resolved rest).map ('"' :: ·)
  | '&' :: '#' :: '1' :: '0' :: ';' :: rest => (resolved rest).map ('\n' :: ·)
  | '&' :: '#' :: '1' :: '3' :: ';' :: rest => (resolved rest).map ('\r' :: ·)
  | '&' :: '#' :: '9' :: ';' :: rest => (resolved rest).map ('\t' :: ·)
  | c :: rest => if c = '&' ∨ c = '<' then none else (resolved rest).map (plain c :: ·)

theorem resolved_cons_of_ne {c : Char} (h : c ≠ '&' ∧ c ≠ '<') (rest : List Char) :
    resolved (c :: rest) = (resolved rest).map (plain c :: ·) := by
  rw [resolved]
  · simp [h.1, h.2]
  all_goals simp [h.1]

/-- The texts between `<` and `>`. Inside a tag, `tag?` holds its text so far, the last character
first. -/
def tagTexts (tag? : Option (List Char)) : List Char → List (List Char)
  | [] => []
  | c :: rest =>
    match tag? with
    | none => if c = '<' then tagTexts (some []) rest else tagTexts none rest
    | some text =>
      if c = '>' then text.reverse :: tagTexts none rest else tagTexts (some (c :: text)) rest

/-! ### Tags -/

inductive Tag where
  | opening (name : String) (attributes : List Attribute)
  /-- The tag of an element that closes itself. -/
  | leaf (name : String) (attributes : List Attribute)
  | closing (name : String)

/-- The text cut at every double quote. -/
def pieces : List Char → List (List Char)
  | [] => [[]]
  | c :: rest =>
    if c = '"' then [] :: pieces rest
    else
      match pieces rest with
      | [] => [[c]]
      | piece :: others => (c :: piece) :: others

/-- The attributes of a tag that is cut at its quotes, and whether the tag closes itself. A name and
an equals sign stand in front of every value. -/
def attributes? : List (List Char) → Option (List Attribute × Bool)
  | [[]] => some ([], false)
  | [['/']] => some ([], true)
  | (' ' :: assigned) :: value :: rest =>
    if assigned.getLast? = some '=' then do
      let value ← resolved value
      let (others, closed) ← attributes? rest
      return (⟨String.ofList assigned.dropLast, String.ofList value⟩ :: others, closed)
    else none
  | _ => none

/-- The tag with this text between its brackets. -/
def Tag.ofText : List Char → Option Tag
  | '/' :: name => some (.closing (String.ofList name))
  | text => do
    let name := String.ofList (text.takeWhile Char.isAlpha)
    let (attributes, closed) ← attributes? (pieces (text.dropWhile Char.isAlpha))
    return if closed then .leaf name attributes else .opening name attributes

/-- An instruction to the reader, such as the declaration in front of a document, is no tag. -/
def isInstruction (text : List Char) : Bool := text.head? = some '?'

/-- All tags of a document. -/
def tags? (document : List Char) : Option (List Tag) :=
  ((tagTexts none (normalized document)).filter (!isInstruction ·)).mapM Tag.ofText

/-! ### Elements -/

/-- An element that is open, and what is complete in front of it, the latest first. -/
structure Open where
  name : String
  attributes : List Attribute
  before : List Element

/-- The elements into which the tags are put together, while some elements are open and others are
complete inside the innermost one. Every element has to be closed under its own name. -/
def assembled : List Tag → List Open → (complete : List Element) → Option (List Element)
  | [], [], complete => some complete.reverse
  | [], _ :: _, _ => none
  | .opening name attributes :: tags, stack, complete =>
    assembled tags (⟨name, attributes, complete⟩ :: stack) []
  | .leaf name attributes :: tags, stack, complete =>
    assembled tags stack (⟨name, attributes, []⟩ :: complete)
  | .closing _ :: _, [], _ => none
  | .closing name :: tags, parent :: stack, complete =>
    if parent.name = name then
      assembled tags stack (⟨name, parent.attributes, complete.reverse⟩ :: parent.before)
    else none

/-! ### Programs -/

def attribute? (name : String) (attributes : List Attribute) : Option String :=
  (attributes.find? (·.name = name)).map Attribute.value

/-- A name of a program, which stands nowhere. -/
def ident (name : String) : Ident := ⟨name, Span.nowhere⟩

/-- The kind of literal that documents call so. -/
def literalKind? (word : String) : Option LiteralKind :=
  [.integer, .string, .nilValue, .trueValue, .falseValue, .className].find? (literalClass · = word)

mutual

def expr? : Element → Option Expr
  | ⟨"expr", _, [⟨"literal", attributes, _⟩]⟩ => do
    let kind ← (attribute? "class" attributes).bind literalKind?
    let value ← attribute? "value" attributes
    return .literal kind value Span.nowhere
  | ⟨"expr", _, [⟨"var", attributes, _⟩]⟩ => do
    let name ← attribute? "name" attributes
    return .var name Span.nowhere
  | ⟨"expr", _, [⟨"send", attributes, receiver :: args⟩]⟩ => do
    let receiver ← expr? receiver
    let selector ← attribute? "selector" attributes
    let args ← args? args
    return .send receiver selector args Span.nowhere
  | ⟨"expr", _, [⟨"block", _, children⟩]⟩ => do
    let (params, body) ← blockParts? children
    return .block ⟨params, body, Span.nowhere⟩
  | _ => none

def args? : List Element → Option (List Expr)
  | [] => some []
  | ⟨"arg", _, [value]⟩ :: rest => do
    let value ← expr? value
    let others ← args? rest
    return value :: others
  | _ => none

/-- The parameters and the assignments of a block. -/
def blockParts? : List Element → Option (List Ident × List Assignment)
  | [] => some ([], [])
  | ⟨"parameter", attributes, _⟩ :: rest => do
    let name ← attribute? "name" attributes
    let (params, body) ← blockParts? rest
    return (ident name :: params, body)
  | ⟨"assign", _, [⟨"var", attributes, _⟩, value]⟩ :: rest => do
    let target ← attribute? "name" attributes
    let value ← expr? value
    let (params, body) ← blockParts? rest
    return (params, ⟨ident target, value⟩ :: body)
  | _ => none

end

/-- A method, but for the number of its arguments. -/
def method? : Element → Option Method
  | ⟨"method", attributes, [⟨"block", _, children⟩]⟩ => do
    let selector ← attribute? "selector" attributes
    let (params, body) ← blockParts? children
    return ⟨selector, 0, ⟨params, body, Span.nowhere⟩, Span.nowhere⟩
  | _ => none

def class? : Element → Option ClassDef
  | ⟨"class", attributes, children⟩ => do
    let name ← attribute? "name" attributes
    let parent ← attribute? "parent" attributes
    let methods ← children.mapM method?
    return ⟨ident name, ident parent, methods⟩
  | _ => none

def program? : Element → Option Program
  | ⟨"program", attributes, children⟩ => do
    let classes ← children.mapM class?
    return ⟨classes, attribute? "description" attributes⟩
  | _ => none

/-- The program of which this is the document. A document has a single root. -/
def read (document : String) : Option Program := do
  let tags ← tags? document.toList
  match ← assembled tags [] [] with
  | [root] => program? root
  | _ => none

end Sol25.Document

namespace Sol25

/-- The method without its place and the number of its arguments. -/
def Method.bare (method : Method) : Method := { method.placeless with arity := 0 }

def ClassDef.bare (declared : ClassDef) : ClassDef :=
  ⟨declared.name.placeless, declared.parent.placeless, declared.methods.map Method.bare⟩

/-- What a document tells of a program. -/
def Program.bare (program : Program) : Program :=
  ⟨program.classes.map ClassDef.bare, program.description?⟩

end Sol25
