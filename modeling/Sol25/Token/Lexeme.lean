import Sol25.Fault
import Sol25.Token.Basic

/-!
The head of a text that starts with neither a blank nor a comment: the longest word, literal or
mark that stands there, or the defect that keeps one from being read. In either case it is known
how many characters were used up, so reading can go on behind a defect.
-/

set_option autoImplicit false
set_option relaxedAutoImplicit false

namespace Sol25

/-- What was read at the head of a text: a kind of token or a defect. At least one character is used
up; `more` counts those behind it. -/
structure Lexeme where
  outcome : Except Defect Token.Kind
  more : Nat

namespace Lexeme

/-- The number of characters used up. -/
def length (lexeme : Lexeme) : Nat := lexeme.more + 1

def isWordChar (c : Char) : Bool := c.isAlphanum || c = '_'

/-- Words led by such a character name variables and selectors, others name classes. -/
def leadsLowercase (c : Char) : Bool := c.isLower || c = '_'

/-- The characters that can follow `first` in a word. Class names have no underscore. -/
def isWordCharAfter (first c : Char) : Bool :=
  if leadsLowercase first then isWordChar c else c.isAlphanum

/-- Whether a word in front of `text` is a part of a selector: a colon follows, and it is not the
beginning of an assignment. -/
def closesSelector : List Char → Bool
  | ':' :: '=' :: _ => false
  | ':' :: _ => true
  | _ => false

/-- A word is read whole before it is asked what it means, so a keyword is one only if no further
letter follows. -/
def word (first : Char) (rest : List Char) : Lexeme :=
  let tail := rest.takeWhile (isWordCharAfter first)
  let name := String.ofList (first :: tail)
  if leadsLowercase first then
    if closesSelector (rest.drop tail.length) then
      ⟨.ok (.selector (name.push ':')), tail.length + 1⟩
    else
      ⟨.ok ((Token.Kind.ofWord? name).getD (.ident name)), tail.length⟩
  else
    ⟨.ok ((Token.Kind.ofWord? name).getD (.classIdent name)), tail.length⟩

/-- An integer led by a digit, or by a sign that a digit follows. -/
def integer (first : Char) (rest : List Char) : Lexeme :=
  let tail := rest.takeWhile Char.isDigit
  ⟨.ok (.intLit (String.ofList (first :: tail))), tail.length⟩

/-- How the body of a string comes to its end. -/
inductive StringEnd where
  | quote
  /-- A line feed or the end of the text. -/
  | lineEnd
  | badEscape (c : Char)
deriving DecidableEq

/-- The characters that a backslash may precede. -/
def isEscapable (c : Char) : Bool := c = '\'' || c = 'n' || c = '\\'

/-- How the string ends whose opening quote has been read, and with how many characters. The closing
quote and a line feed are not counted, a bad escape is. -/
def stringBody (read : Nat) : List Char → StringEnd × Nat
  | [] => (.lineEnd, read)
  | ['\\'] => (.lineEnd, read + 1)
  | '\\' :: c :: rest =>
    if isEscapable c then stringBody (read + 2) rest else (.badEscape c, read + 2)
  | c :: rest =>
    if c = '\n' then (.lineEnd, read)
    else if c = '\'' then (.quote, read)
    else stringBody (read + 1) rest

/-- A string. Its escapes are checked but kept as they are written. -/
def string (rest : List Char) : Lexeme :=
  match stringBody 0 rest with
  | (.quote, length) => ⟨.ok (.stringLit (String.ofList (rest.take length))), length + 1⟩
  | (.lineEnd, length) => ⟨.error .unterminatedString, length⟩
  | (.badEscape c, length) => ⟨.error (.invalidEscape c), length⟩

/-- A mark, the longer one where there is a choice. -/
def mark (first : Char) (rest : List Char) : Lexeme :=
  match first, rest with
  | ':', '=' :: _ => ⟨.ok (.mark .assign), 1⟩
  | ':', _ => ⟨.ok (.mark .colon), 0⟩
  | '.', _ => ⟨.ok (.mark .dot), 0⟩
  | '\x7b', _ => ⟨.ok (.mark .leftBrace), 0⟩
  | '\x7d', _ => ⟨.ok (.mark .rightBrace), 0⟩
  | '[', _ => ⟨.ok (.mark .leftBracket), 0⟩
  | ']', _ => ⟨.ok (.mark .rightBracket), 0⟩
  | '(', _ => ⟨.ok (.mark .leftParen), 0⟩
  | ')', _ => ⟨.ok (.mark .rightParen), 0⟩
  | '|', _ => ⟨.ok (.mark .pipe), 0⟩
  | _, _ => ⟨.error (.unexpectedChar first), 0⟩

def isSign (c : Char) : Bool := c = '+' || c = '-'

/-- The lexeme at the head of `first :: rest`. The first character decides of which sort it is; only
a sign needs a look at the next one. -/
def read (first : Char) (rest : List Char) : Lexeme :=
  if first.isAlpha || first = '_' then word first rest
  else if first.isDigit || (isSign first && rest.head?.any Char.isDigit) then integer first rest
  else if first = '\'' then string rest
  else mark first rest

end Lexeme

end Sol25
