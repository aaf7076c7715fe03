/-!
The seven classes that every program finds already defined, with the methods they understand. The
number of arguments of a method is the number of colons in its selector, as it is everywhere in the
language.
-/

set_option autoImplicit false
set_option relaxedAutoImplicit false

namespace Sol25

inductive BuiltinClass where
  | objectClass
  | nilClass
  | trueClass
  | falseClass
  | integerClass
  | stringClass
  | blockClass
deriving DecidableEq

namespace BuiltinClass

/-- All built-in classes. `Object` comes first, since it is the parent of the others. -/
def all : List BuiltinClass :=
  [objectClass, nilClass, trueClass, falseClass, integerClass, stringClass, blockClass]

def name : BuiltinClass → String
  | objectClass => "Object"
  | nilClass => "Nil"
  | trueClass => "True"
  | falseClass => "False"
  | integerClass => "Integer"
  | stringClass => "String"
  | blockClass => "Block"

/-- Every built-in class but `Object` inherits from `Object` directly. -/
def parent? : BuiltinClass → Option BuiltinClass
  | objectClass => none
  | _ => some objectClass

/-- The messages that both truth values understand. -/
def truthMethods : List (String × Nat) :=
  [("not", 0), ("and:", 1), ("or:", 1), ("ifTrue:ifFalse:", 2), ("isBoolean", 0)]

/-- The selectors a class defines itself, each with its number of arguments. -/
def methods : BuiltinClass → List (String × Nat)
  | objectClass =>
    [("new", 0), ("from:", 1), ("identicalTo:", 1), ("equalTo:", 1), ("asString", 0),
     ("isNumber", 0), ("isString", 0), ("isBlock", 0), ("isNil", 0), ("isBoolean", 0)]
  | nilClass => [("asString", 0), ("isNil", 0)]
  | trueClass => truthMethods
  | falseClass => truthMethods
  | integerClass =>
    [("equalTo:", 1), ("greaterThan:", 1), ("plus:", 1), ("minus:", 1), ("multiplyBy:", 1),
     ("divBy:", 1), ("asString", 0), ("asInteger", 0), ("timesRepeat:", 1), ("isNumber", 0)]
  | stringClass =>
    [("read", 0), ("print", 0), ("equalTo:", 1), ("asString", 0), ("asInteger", 0),
     ("concatenateWith:", 1), ("startsWith:endsBefore:", 2), ("isString", 0)]
  | blockClass =>
    [("value", 0), ("value:", 1), ("value:value:", 2), ("value:value:value:", 3),
     ("value:value:value:value:", 4), ("whileTrue:", 1), ("isBlock", 0)]

/-- The built-in class of this name. -/
def ofName? (word : String) : Option BuiltinClass := all.find? (·.name = word)

end BuiltinClass

end Sol25
