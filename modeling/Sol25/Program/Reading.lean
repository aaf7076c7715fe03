import Sol25.Program.Basic
import Sol25.Token.Basic

/-!
Reading a program from its tokens.

    program    := { "class" className ":" className "{" { method } "}" }
    method     := ( name | selector+ ) block
    block      := "[" { ":" name } "|" { assignment } "]"
    assignment := name ":=" expression "."
    expression := operand ( name | { selector operand }+ )?
    operand    := literal | variable | "(" expression ")" | block

One token always decides how to go on, so a reader that cannot go on stands at the first token that
fits nowhere. Every reader uses up at least one token, which is why the repetitions end.
-/

set_option autoImplicit false
set_option relaxedAutoImplicit false

namespace Sol25.Reading

/-- How many parentheses and blocks may be open inside the body of a method. -/
def maxNesting : Nat := 128

/-- Why a reader cannot go on. -/
inductive Reason where
  /-- Something else ought to stand here. -/
  | expected (what : String)
  /-- One more parenthesis or block would be too many. -/
  | tooDeep
deriving DecidableEq

/-- A reader that cannot go on, and the tokens it has not used up. -/
structure Stop where
  reason : Reason
  rest : List Token

/-- What was read at the head of `tokens`, and what is left of them. -/
structure Read (α : Type) (tokens : List Token) where
  value : α
  rest : List Token
  /-- The span of the first token that was used up. -/
  first : Span
  /-- The span of the last token that was used up. -/
  last : Span
  shorter : rest.length < tokens.length

/-- A reader takes the tokens ahead of it, up to the end of the input. -/
abbrev Reader (α : Type) := (tokens : List Token) → Except Stop (Read α tokens)

variable {α β : Type} {tokens : List Token}

/-- Both together, with the value of the second. -/
def Read.andThen (former : Read α tokens) (latter : Read β former.rest) : Read β tokens :=
  ⟨latter.value, latter.rest, former.first, latter.last,
    Nat.lt_trans latter.shorter former.shorter⟩

def Read.map (f : α → β) (read : Read α tokens) : Read β tokens :=
  ⟨f read.value, read.rest, read.first, read.last, read.shorter⟩

/-- The next token, if `value?` accepts it. -/
def next? (value? : Token → Option α) : (tokens : List Token) → Option (Read α tokens)
  | [] => none
  | token :: rest =>
    (value? token).map fun value ↦ ⟨value, rest, token.span, token.span, Nat.lt_succ_self _⟩

/-- The next token, which `value?` has to accept; `what` says which tokens it accepts. -/
def require (what : String) (value? : Token → Option α) : Reader α := fun tokens ↦
  match next? value? tokens with
  | some read => .ok read
  | none => .error ⟨.expected what, tokens⟩

/-- Accepts the tokens of one kind. -/
def isKind (kind : Token.Kind) (token : Token) : Option Unit :=
  if token.kind = kind then some () else none

/-- A keyword or a mark, which messages call by its own spelling. -/
def requireKind (kind : Token.Kind) : Reader Unit := require kind.display (isKind kind)

/-- Accepts a lowercase name that is no keyword. -/
def name? (token : Token) : Option Ident :=
  match token.kind with
  | .ident name => some ⟨name, token.span⟩
  | _ => none

/-- Accepts the name of a class that is not built in. -/
def ownClass? (token : Token) : Option Ident :=
  match token.kind with
  | .classIdent name => some ⟨name, token.span⟩
  | _ => none

/-- Accepts the name of any class. -/
def anyClass? (token : Token) : Option Ident :=
  token.kind.className?.map fun name ↦ ⟨name, token.span⟩

/-- Accepts a part of a selector with arguments. -/
def part? (token : Token) : Option String :=
  match token.kind with
  | .selector part => some part
  | _ => none

/-- Accepts a token that is an operand by itself. -/
def atom? (token : Token) : Option Expr :=
  match token.kind with
  | .intLit digits => some (.literal .integer digits token.span)
  | .stringLit body => some (.literal .string body token.span)
  | .keyword .nilWord => some (.literal .nilValue "nil" token.span)
  | .keyword .trueWord => some (.literal .trueValue "true" token.span)
  | .keyword .falseWord => some (.literal .falseValue "false" token.span)
  | .keyword .selfWord => some (.var "self" token.span)
  | .keyword .superWord => some (.var "super" token.span)
  | .ident name => some (.var name token.span)
  | .builtin which => some (.literal .className which.name token.span)
  | .classIdent name => some (.literal .className name token.span)
  | _ => none

/-- Items up to the mark that closes them. The mark is used up as well. -/
def manyThen (close : Mark) (item : Reader α) (tokens : List Token) :
    Except Stop (Read (List α) tokens) :=
  match next? (isKind (.mark close)) tokens with
  | some closing => .ok (closing.map fun _ ↦ [])
  | none => do
    let first ← item tokens
    let others ← manyThen close item first.rest
    return (first.andThen others).map (first.value :: ·)
termination_by tokens.length
decreasing_by exact first.shorter

/-- The parameters of a block, each behind a colon, up to the bar that ends them. -/
def params (tokens : List Token) : Except Stop (Read (List Ident) tokens) :=
  match next? (isKind (.mark .colon)) tokens with
  | some colon => do
    let param ← require "identifier" name? colon.rest
    let others ← params param.rest
    return (colon.andThen (param.andThen others)).map (param.value :: ·)
  | none => do
    let bar ← requireKind (.mark .pipe) tokens
    return bar.map fun _ ↦ []
termination_by tokens.length
decreasing_by exact Nat.lt_trans param.shorter colon.shorter

def assignmentWith (expression : Reader Expr) : Reader Assignment := fun tokens ↦ do
  let target ← require "identifier" name? tokens
  let sign ← requireKind (.mark .assign) target.rest
  let value ← expression sign.rest
  let dot ← requireKind (.mark .dot) value.rest
  return (target.andThen (sign.andThen (value.andThen dot))).map fun _ ↦
    ⟨target.value, value.value⟩

/-- The arguments of a message and the rest of its selector, which begins with `part`. An argument
is an operand, so a message in its place needs parentheses. -/
def argumentsWith (operand : Reader Expr) (part : String) (tokens : List Token) :
    Except Stop (Read (String × List Expr) tokens) := do
  let argument ← operand tokens
  match next? part? argument.rest with
  | none => return argument.map fun value ↦ (part, [value])
  | some next =>
    let others ← argumentsWith operand next.value next.rest
    return (argument.andThen (next.andThen others)).map fun (selector, values) ↦
      (part ++ selector, argument.value :: values)
termination_by tokens.length
decreasing_by exact Nat.lt_trans next.shorter argument.shorter

/-- An operand and the message that is sent to it. Without a message it is the operand itself. -/
def expressionWith (operand : Reader Expr) : Reader Expr := fun tokens ↦ do
  let receiver ← operand tokens
  match next? name? receiver.rest with
  | some selector =>
    return (receiver.andThen selector).map fun name ↦
      .send receiver.value name.name [] (receiver.value.span.merge selector.last)
  | none =>
    match next? part? receiver.rest with
    | some part =>
      let message ← argumentsWith operand part.value part.rest
      return (receiver.andThen (part.andThen message)).map fun (selector, values) ↦
        .send receiver.value selector values (receiver.value.span.merge message.last)
    | none => return receiver

def blockWith (operand : Reader Expr) : Reader Block := fun tokens ↦ do
  let left ← requireKind (.mark .leftBracket) tokens
  let params ← params left.rest
  let body ← manyThen .rightBracket (assignmentWith (expressionWith operand)) params.rest
  return (left.andThen (params.andThen body)).map fun assignments ↦
    ⟨params.value, assignments, left.first.merge body.last⟩

def parenthesizedWith (operand : Reader Expr) : Reader Expr := fun tokens ↦ do
  let left ← requireKind (.mark .leftParen) tokens
  let value ← expressionWith operand left.rest
  let right ← requireKind (.mark .rightParen) value.rest
  return (left.andThen (value.andThen right)).map fun _ ↦ value.value

/-- An operand. Inside parentheses and blocks, `inner?` reads the operands; where it is missing,
none may be opened. -/
def operandWith (inner? : Option (Reader Expr)) : Reader Expr := fun tokens ↦
  match tokens.head?.map Token.kind with
  | some (.mark .leftParen) =>
    match inner? with
    | some inner => parenthesizedWith inner tokens
    | none => .error ⟨.tooDeep, tokens⟩
  | some (.mark .leftBracket) =>
    match inner? with
    | some inner => (blockWith inner tokens).map (·.map .block)
    | none => .error ⟨.tooDeep, tokens⟩
  | _ => require "expression" atom? tokens

/-- An operand in which `depth` more parentheses and blocks may be opened inside each other. -/
def operand : (depth : Nat) → Reader Expr
  | 0 => operandWith none
  | depth + 1 => operandWith (some (operand depth))

/-- The parts of a selector, one or more. -/
def parts? : (tokens : List Token) → Option (Read (List String) tokens)
  | [] => none
  | token :: rest =>
    match part? token with
    | none => none
    | some part =>
      match parts? rest with
      | none => some ⟨[part], rest, token.span, token.span, Nat.lt_succ_self _⟩
      | some others =>
        some ⟨part :: others.value, others.rest, token.span, others.last,
          Nat.lt_succ_of_lt others.shorter⟩

/-- The selector of a method and the number of its arguments. -/
def heading : Reader (String × Nat) := fun tokens ↦
  match next? name? tokens with
  | some name => .ok (name.map fun name ↦ (name.name, 0))
  | none =>
    match parts? tokens with
    | some parts => .ok (parts.map fun parts ↦ (String.join parts, parts.length))
    | none => .error ⟨.expected "method selector", tokens⟩

def method : Reader Method := fun tokens ↦ do
  let selector ← heading tokens
  let body ← blockWith (operand maxNesting) selector.rest
  return (selector.andThen body).map fun block ↦
    ⟨selector.value.1, selector.value.2, block, selector.first.merge body.last⟩

def classDef : Reader ClassDef := fun tokens ↦ do
  let word ← requireKind (.keyword .classWord) tokens
  let name ← require "class identifier" ownClass? word.rest
  let colon ← requireKind (.mark .colon) name.rest
  let parent ← require "parent class name" anyClass? colon.rest
  let left ← requireKind (.mark .leftBrace) parent.rest
  let methods ← manyThen .rightBrace method left.rest
  return (word.andThen (name.andThen (colon.andThen (parent.andThen (left.andThen methods))))).map
    fun methods ↦ ⟨name.value, parent.value, methods⟩

/-- All classes up to the end of the input. -/
def classes : (tokens : List Token) → Except Stop (List ClassDef)
  | [] => .ok []
  | token :: rest => do
    let first ← classDef (token :: rest)
    let others ← classes first.rest
    return first.value :: others
termination_by tokens => tokens.length
decreasing_by exact first.shorter

end Sol25.Reading
