import Sol25.Class.Builtin
import Sol25.Span

/-!
Tokens: the words, literals and marks of which a program is made, each with the span it was read
from, and the names by which messages call them.
-/

set_option autoImplicit false
set_option relaxedAutoImplicit false

namespace Sol25

/-- The words that no variable may be called. -/
inductive Keyword where
  | classWord
  | selfWord
  | superWord
  | nilWord
  | trueWord
  | falseWord
deriving DecidableEq

namespace Keyword

def all : List Keyword := [classWord, selfWord, superWord, nilWord, trueWord, falseWord]

def text : Keyword → String
  | classWord => "class"
  | selfWord => "self"
  | superWord => "super"
  | nilWord => "nil"
  | trueWord => "true"
  | falseWord => "false"

/-- The keyword that is spelt like this. -/
def ofText? (word : String) : Option Keyword := all.find? (·.text = word)

end Keyword

/-- Punctuation. -/
inductive Mark where
  | assign
  | dot
  | colon
  | leftBrace
  | rightBrace
  | leftBracket
  | rightBracket
  | leftParen
  | rightParen
  | pipe
deriving DecidableEq

def Mark.text : Mark → String
  | .assign => ":="
  | .dot => "."
  | .colon => ":"
  | .leftBrace => "\x7b"
  | .rightBrace => "\x7d"
  | .leftBracket => "["
  | .rightBracket => "]"
  | .leftParen => "("
  | .rightParen => ")"
  | .pipe => "|"

namespace Token

/-- What a token is, without the place where it stands. -/
inductive Kind where
  | keyword (word : Keyword)
  | builtin (which : BuiltinClass)
  /-- A word led by a lowercase letter or an underscore: a variable or a selector without
  arguments. -/
  | ident (name : String)
  /-- A word led by an uppercase letter that names no built-in class. -/
  | classIdent (name : String)
  /-- One part of a selector with arguments, its colon included. -/
  | selector (part : String)
  /-- A string without its quotes; its escapes stand as they were written. -/
  | stringLit (body : String)
  /-- An integer as it was written, its sign included. -/
  | intLit (digits : String)
  | mark (sign : Mark)
  /-- The end of the input. -/
  | eof
deriving DecidableEq

namespace Kind

/-- What a whole word means beyond being a name. -/
def ofWord? (word : String) : Option Kind :=
  ((Keyword.ofText? word).map keyword).or ((BuiltinClass.ofName? word).map builtin)

/-- The class that a word names, be it built in or the program's own. -/
def className? : Kind → Option String
  | builtin which => some which.name
  | classIdent name => some name
  | _ => none

/-- How messages call a token. -/
def display : Kind → String
  | keyword word => "'" ++ word.text ++ "'"
  | builtin which => "class '" ++ which.name ++ "'"
  | ident name => "identifier '" ++ name ++ "'"
  | classIdent name => "class identifier '" ++ name ++ "'"
  | selector part => "selector '" ++ part ++ "'"
  | stringLit body => "string '" ++ body ++ "'"
  | intLit digits => "integer " ++ digits
  | mark sign => "'" ++ sign.text ++ "'"
  | eof => "end of input"

end Kind

end Token

structure Token where
  kind : Token.Kind
  span : Span
deriving DecidableEq

end Sol25
