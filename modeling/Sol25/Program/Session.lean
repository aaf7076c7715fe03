import Sol25.Program.Reading
import Sol25.Token.Scanner

/-!
A session reads programs from one sequence of tokens. It ends at the first token that marks the end
of the input, which is never used up: after a program has been read, every further one is empty.
After a fault the session stands in front of the token at fault.
-/

set_option autoImplicit false
set_option relaxedAutoImplicit false

namespace Sol25

structure Session where
  /-- The tokens in front of the end of the input. -/
  ahead : List Token
  /-- Where the end of the input stands. -/
  finish : Span
  /-- The description that awaits its program. -/
  description? : Option String

namespace Session

def isEnd (token : Token) : Bool := token.kind = .eof

/-- Where the input ends: at the first token that says so, else right behind the last token. -/
def finishOf (tokens : List Token) : Span :=
  match tokens.find? isEnd with
  | some token => token.span
  | none =>
    match tokens.getLast? with
    | some token => ⟨token.span.stop, token.span.stop⟩
    | none => Span.nowhere

/-- A session in front of tokens that come with no description. -/
def ofTokens (tokens : List Token) : Session :=
  ⟨tokens.takeWhile (!isEnd ·), finishOf tokens, none⟩

/-- A session in front of a text, all of which is divided into tokens first. -/
def ofText (text : List Char) : Except Fault Session :=
  match (Scanner.ofText text).tokens with
  | (.error fault, _) => .error fault
  | (.ok tokens, scanner) => .ok { ofTokens tokens with description? := scanner.description? }

/-- The token that comes next. -/
def nextToken (session : Session) : Token :=
  session.ahead.head?.getD ⟨.eof, session.finish⟩

/-- The fault of standing in front of the next token for this reason. -/
def fault (session : Session) (reason : Reading.Reason) : Fault :=
  match reason with
  | .expected what =>
    .located (.unexpectedToken what session.nextToken.kind.display) session.nextToken.span
  | .tooDeep => .located (.nestingTooDeep Reading.maxNesting) session.nextToken.span

/-- Reads all that is ahead as one program. The description goes to the first program that is read
without a fault. -/
def next (session : Session) : Except Fault Program × Session :=
  match Reading.classes session.ahead with
  | .ok classes =>
    (.ok ⟨classes, session.description?⟩, { session with ahead := [], description? := none })
  | .error stop =>
    (.error ({ session with ahead := stop.rest }.fault stop.reason),
      { session with ahead := stop.rest })

end Session

/-- The program that a text holds. -/
def Program.ofText (text : List Char) : Except Fault Program :=
  match Session.ofText text with
  | .error fault => .error fault
  | .ok session => session.next.1

end Sol25
