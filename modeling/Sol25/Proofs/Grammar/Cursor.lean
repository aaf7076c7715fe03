import Sol25.Program.Session
import Sol25.Proofs.Grammar.Lookahead

/-!
# Reading in place

A program can be read in place: a cursor stands somewhere in a sequence of tokens that ends with the
end of the input, moves on over one token at a time, looks back at the last one where a span has to
be closed, and counts the parentheses and blocks that are open (`Cursor.nested`). Nothing in a
cursor keeps the place within the sequence or the count in step with the parentheses, and the number
of times that a loop is gone through is bounded only by what is handed down as `fuel`.

`agrees_classes` says that in this way the same is read as by the readers, which hand on what is
left of the tokens and how many levels are still allowed. Where a reader stops, the cursor stops at
the same token with the same fault. It has never moved over the end of the input, has come back to
the depth at which it began, on the way out of a fault too, and has not run out of fuel.

The argument follows the readers. `Agrees` says of one step that it does what a reader does, and
there is one rule for each way in which steps are put together.
-/

set_option autoImplicit false
set_option relaxedAutoImplicit false

namespace Sol25

open Reading
open Token (Kind)

/-- A place in a sequence of tokens. -/
structure Cursor where
  /-- All tokens, those behind the place too. -/
  tokens : List Token
  position : Nat
  /-- How many parentheses and blocks are open. -/
  depth : Nat
  /-- The description that awaits its program. -/
  description? : Option String

namespace Cursor

/-! ### Steps -/

/-- The token at the place. -/
def current (cursor : Cursor) : Token :=
  cursor.tokens[cursor.position]?.getD ⟨.eof, Span.nowhere⟩

/-- The span of the token right behind, or at the very beginning of the first one. -/
def previous (cursor : Cursor) : Span :=
  (cursor.tokens[cursor.position - 1]?.map Token.span).getD Span.nowhere

/-- One token further on, though never over the last one. -/
def advance (cursor : Cursor) : Cursor :=
  if cursor.position < cursor.tokens.length - 1 then
    { cursor with position := cursor.position + 1 }
  else cursor

/-- The fault of standing here. -/
def fault (cursor : Cursor) : Reason → Fault
  | .expected what =>
    .located (.unexpectedToken what cursor.current.kind.display) cursor.current.span
  | .tooDeep => .located (.nestingTooDeep maxNesting) cursor.current.span

/-- What is done with a cursor. It is left somewhere also if there is a fault. -/
def Step (α : Type) : Type := Cursor → Except Fault α × Cursor

instance : Monad Step where
  pure value := fun cursor ↦ (.ok value, cursor)
  bind step next := fun cursor ↦
    match step cursor with
    | (.ok value, cursor) => next value cursor
    | (.error fault, cursor) => (.error fault, cursor)

variable {α β ρ σ : Type}

theorem bind_apply (step : Step α) (next : α → Step β) (cursor : Cursor) :
    (step >>= next) cursor = match step cursor with
      | (.ok value, moved) => next value moved
      | (.error fault, moved) => (.error fault, moved) := rfl

/-- Looks at the cursor and leaves it. -/
def look (view : Cursor → α) : Step α := fun cursor ↦ (.ok (view cursor), cursor)

def refuse (reason : Reason) : Step α := fun cursor ↦ (.error (cursor.fault reason), cursor)

/-- What would happen if the fuel did not suffice. -/
def outOfFuel : Fault := .unlocated (.internal "out of fuel")

def stuck : Step α := fun cursor ↦ (.error outOfFuel, cursor)

/-- Moves over the current token if `value?` accepts it. -/
def accept (value? : Token → Option α) : Step (Option α) := fun cursor ↦
  match value? cursor.current with
  | some value => (.ok (some value), cursor.advance)
  | none => (.ok none, cursor)

/-- Moves over the current token, which `value?` has to accept. -/
def expect (what : String) (value? : Token → Option α) : Step α := do
  match ← accept value? with
  | some value => return value
  | none => refuse (.expected what)

def expectKind (kind : Kind) : Step Unit := expect kind.display (isKind kind)

/-- Does this one level further inside, and comes back out in any case. -/
def nested (step : Step α) : Step α := fun cursor ↦
  if maxNesting ≤ cursor.depth then refuse .tooDeep cursor
  else
    let (answer, inside) := step { cursor with depth := cursor.depth + 1 }
    (answer, { inside with depth := inside.depth - 1 })

/-! ### Reading a program -/

/-- Items up to the mark that closes them. -/
def upTo (close : Mark) (item : Step α) : (fuel : Nat) → Step (List α)
  | 0 => stuck
  | fuel + 1 => do
    match ← accept (isKind (.mark close)) with
    | some _ => return []
    | none =>
      let first ← item
      let others ← upTo close item fuel
      return first :: others

def params : (fuel : Nat) → Step (List Ident)
  | 0 => stuck
  | fuel + 1 => do
    match ← accept (isKind (.mark .colon)) with
    | some _ =>
      let param ← expect "identifier" name?
      let others ← params fuel
      return param :: others
    | none =>
      expectKind (.mark .pipe)
      return []

def assignment (expression : Step Expr) : Step Assignment := do
  let target ← expect "identifier" name?
  expectKind (.mark .assign)
  let value ← expression
  expectKind (.mark .dot)
  return ⟨target, value⟩

/-- The arguments of a message behind the first part of its selector. -/
def arguments (operand : Step Expr) (part : String) : (fuel : Nat) → Step (String × List Expr)
  | 0 => stuck
  | fuel + 1 => do
    let argument ← operand
    match ← accept part? with
    | none => return (part, [argument])
    | some next =>
      let others ← arguments operand next fuel
      return (part ++ others.1, argument :: others.2)

def expression (operand : Step Expr) (fuel : Nat) : Step Expr := do
  let receiver ← operand
  match ← accept name? with
  | some selector =>
    let last ← look previous
    return .send receiver selector.name [] (receiver.span.merge last)
  | none =>
    match ← accept part? with
    | some part =>
      let message ← arguments operand part fuel
      let last ← look previous
      return .send receiver message.1 message.2 (receiver.span.merge last)
    | none => return receiver

def block (operand : Step Expr) (fuel : Nat) : Step Block := do
  let first ← look (·.current.span)
  expectKind (.mark .leftBracket)
  let params ← params fuel
  let body ← upTo .rightBracket (assignment (expression operand fuel)) fuel
  let last ← look previous
  return ⟨params, body, first.merge last⟩

def parenthesized (operand : Step Expr) (fuel : Nat) : Step Expr := do
  expectKind (.mark .leftParen)
  let value ← expression operand fuel
  expectKind (.mark .rightParen)
  return value

def operand : (fuel : Nat) → Step Expr
  | 0 => stuck
  | fuel + 1 => do
    match ← look (·.current.kind) with
    | .mark .leftParen => nested (parenthesized (operand fuel) fuel)
    | .mark .leftBracket => nested do
      let content ← block (operand fuel) fuel
      return .block content
    | _ => expect "expression" atom?

def parts : (fuel : Nat) → Step (List String)
  | 0 => stuck
  | fuel + 1 => do
    match ← accept part? with
    | none => return []
    | some part =>
      let others ← parts fuel
      return part :: others

def heading (fuel : Nat) : Step (String × Nat) := do
  match ← accept name? with
  | some name => return (name.name, 0)
  | none =>
    match ← parts fuel with
    | [] => refuse (.expected "method selector")
    | parts => return (String.join parts, parts.length)

def method (fuel : Nat) : Step Method := do
  let first ← look (·.current.span)
  let selector ← heading fuel
  let body ← block (operand fuel) fuel
  let last ← look previous
  return ⟨selector.1, selector.2, body, first.merge last⟩

def classDef (fuel : Nat) : Step ClassDef := do
  expectKind (.keyword .classWord)
  let name ← expect "class identifier" ownClass?
  expectKind (.mark .colon)
  let parent ← expect "parent class name" anyClass?
  expectKind (.mark .leftBrace)
  let methods ← upTo .rightBrace (method fuel) fuel
  return ⟨name, parent, methods⟩

/-- All classes up to the end of the input. -/
def classes : (fuel : Nat) → Step (List ClassDef)
  | 0 => stuck
  | fuel + 1 => do
    match ← look (·.current.kind) with
    | .eof => return []
    | _ =>
      let first ← classDef fuel
      let others ← classes fuel
      return first :: others

/-- Reads all classes from here on as one program. -/
def next (cursor : Cursor) : Except Fault Program × Cursor :=
  match classes (cursor.tokens.length + 1) cursor with
  | (.ok classes, cursor) =>
    (.ok ⟨classes, cursor.description?⟩, { cursor with description? := none })
  | (.error fault, cursor) => (.error fault, cursor)

/-! ### Where a cursor stands -/

variable {finish : Span} {cursor moved : Cursor} {ahead : List Token} {fuel depth : Nat}

/-- The cursor stands in front of these tokens, and behind them is the first end of the input. -/
structure Stands (finish : Span) (cursor : Cursor) (ahead : List Token) : Prop where
  drop_eq : ∃ back, cursor.tokens.drop cursor.position = ahead ++ ⟨.eof, finish⟩ :: back
  behind : ∀ token ∈ cursor.tokens.take cursor.position, token.kind ≠ .eof
  noEnd : ∀ token ∈ ahead, token.kind ≠ .eof

/-- Only the tokens and the place matter. -/
theorem Stands.of_eq (h : cursor.Stands finish ahead) (htokens : moved.tokens = cursor.tokens)
    (hposition : moved.position = cursor.position) : moved.Stands finish ahead := by
  refine ⟨?_, ?_, h.noEnd⟩
  · rw [htokens, hposition]
    exact h.drop_eq
  · rw [htokens, hposition]
    exact h.behind

theorem Stands.current_eq (h : cursor.Stands finish ahead) :
    cursor.current = ahead.head?.getD ⟨.eof, finish⟩ := by
  obtain ⟨back, hdrop⟩ := h.drop_eq
  rw [current, ← List.head?_drop, hdrop]
  cases ahead <;> rfl

theorem Stands.nextKind?_eq_some_iff (h : cursor.Stands finish ahead) {kind : Kind}
    (hkind : kind ≠ .eof) : nextKind? ahead = some kind ↔ cursor.current.kind = kind := by
  rw [h.current_eq, nextKind?]
  cases ahead with
  | nil => simp [hkind.symm]
  | cons token rest => simp

/-- In front of a token there is room to advance, and the token is what one looks back at then. -/
theorem Stands.advance {token : Token} {rest : List Token}
    (h : cursor.Stands finish (token :: rest)) :
    cursor.advance = { cursor with position := cursor.position + 1 } ∧
      cursor.advance.Stands finish rest ∧ cursor.advance.previous = token.span := by
  obtain ⟨back, hdrop⟩ := h.drop_eq
  obtain ⟨htoken, hrest⟩ := List.forall_mem_cons.mp h.noEnd
  have hlength := congrArg List.length hdrop
  simp only [List.length_drop, List.length_append, List.length_cons] at hlength
  have hmoves : cursor.advance = { cursor with position := cursor.position + 1 } := by
    rw [Cursor.advance, if_pos (by omega)]
  have hhere : cursor.tokens[cursor.position]? = some token := by
    rw [← List.head?_drop, hdrop]
    rfl
  rw [hmoves]
  refine ⟨rfl, ⟨⟨back, ?_⟩, ?_, hrest⟩, ?_⟩
  · show cursor.tokens.drop (cursor.position + 1) = _
    rw [← List.tail_drop, hdrop]
    rfl
  · show ∀ other ∈ cursor.tokens.take (cursor.position + 1), _
    rw [List.take_add_one, hhere]
    exact List.forall_mem_append.mpr ⟨h.behind, List.forall_mem_singleton.mpr htoken⟩
  · show (cursor.tokens[cursor.position + 1 - 1]?.map Token.span).getD Span.nowhere = _
    rw [Nat.add_sub_cancel, hhere]
    rfl

/-- The cursor has moved on, and nothing else about it has changed. -/
structure Moves (cursor moved : Cursor) : Prop where
  tokens : moved.tokens = cursor.tokens
  position : cursor.position ≤ moved.position
  depth : moved.depth = cursor.depth
  description : moved.description? = cursor.description?

theorem Moves.refl (cursor : Cursor) : cursor.Moves cursor := ⟨rfl, Nat.le_refl _, rfl, rfl⟩

theorem Moves.trans {last : Cursor} (h : cursor.Moves moved) (hlast : moved.Moves last) :
    cursor.Moves last :=
  ⟨hlast.tokens.trans h.tokens, Nat.le_trans h.position hlast.position,
    hlast.depth.trans h.depth, hlast.description.trans h.description⟩

/-! ### Steps that do what readers do -/

/-- The cursor has come as far as the reader, with a value that is so related to that of the reader,
or else it has stopped at the same token for the same reason. -/
structure Agrees (finish : Span) (cursor : Cursor) (outcome : Except Fault α × Cursor)
    (plain : Except Stop ρ) (related : ρ → α → Cursor → Prop) : Prop where
  moves : cursor.Moves outcome.2
  read : ∀ read, plain = .ok read → ∃ value, outcome.1 = .ok value ∧ related read value outcome.2
  stopped : ∀ stop, plain = .error stop →
    outcome.1 = .error (outcome.2.fault stop.reason) ∧ outcome.2.Stands finish stop.rest

variable {related : ρ → α → Cursor → Prop} {further : σ → β → Cursor → Prop}

theorem agrees_pure {value : α} {read : ρ} (h : related read value cursor) :
    Agrees finish cursor ((pure value : Step α) cursor) (.ok read) related :=
  ⟨.refl cursor, fun _ heq ↦ ⟨value, rfl, Except.ok.inj heq ▸ h⟩, nofun⟩

theorem agrees_refuse (h : cursor.Stands finish ahead) (reason : Reason) :
    Agrees finish cursor ((refuse reason : Step α) cursor) (.error ⟨reason, ahead⟩) related :=
  ⟨.refl cursor, nofun, fun _ heq ↦ Except.error.inj heq ▸ ⟨rfl, h⟩⟩

theorem Agrees.of_moves {outcome : Except Fault α × Cursor} {plain : Except Stop ρ}
    (h : Agrees finish moved outcome plain related) (hmoves : cursor.Moves moved) :
    Agrees finish cursor outcome plain related :=
  ⟨hmoves.trans h.moves, h.read, h.stopped⟩

theorem Agrees.mono {outcome : Except Fault α × Cursor} {plain : Except Stop ρ}
    {looser : ρ → α → Cursor → Prop} (h : Agrees finish cursor outcome plain related)
    (hlooser : ∀ read value moved, plain = .ok read → related read value moved →
      looser read value moved) :
    Agrees finish cursor outcome plain looser := by
  refine ⟨h.moves, fun read hread ↦ ?_, h.stopped⟩
  obtain ⟨value, hvalue, hrelated⟩ := h.read read hread
  exact ⟨value, hvalue, hlooser _ _ _ hread hrelated⟩

/-- One step after the other does what one reader after the other does. -/
theorem Agrees.bind {step : Step α} {next : α → Step β} {plain : Except Stop ρ}
    {plainNext : ρ → Except Stop σ} (h : Agrees finish cursor (step cursor) plain related)
    (hnext : ∀ read value moved, cursor.Moves moved → related read value moved →
      Agrees finish moved (next value moved) (plainNext read) further) :
    Agrees finish cursor ((step >>= next) cursor) (plain >>= plainNext) further := by
  rw [bind_apply]
  cases plain with
  | ok read =>
    obtain ⟨value, hvalue, hrelated⟩ := h.read read rfl
    have hmoves := h.moves
    generalize step cursor = outcome at hvalue hrelated hmoves ⊢
    obtain ⟨answer, moved⟩ := outcome
    obtain rfl : answer = .ok value := hvalue
    exact (hnext read value moved hmoves hrelated).of_moves hmoves
  | error stop =>
    obtain ⟨hfault, hstands⟩ := h.stopped stop rfl
    have hmoves := h.moves
    generalize step cursor = outcome at hfault hstands hmoves ⊢
    obtain ⟨answer, moved⟩ := outcome
    obtain rfl : answer = .error (moved.fault stop.reason) := hfault
    exact ⟨hmoves, nofun, fun _ heq ↦ Except.error.inj heq ▸ ⟨rfl, hstands⟩⟩

/-- What was read at the head of the tokens in front of the cursor has this value, and the cursor
has moved to the place behind it. -/
structure Has (finish : Span) (cursor : Cursor) (read : Read α ahead) (value : α)
    (moved : Cursor) : Prop where
  value : value = read.value
  stands : moved.Stands finish read.rest
  first : cursor.current.span = read.first
  last : moved.previous = read.last

/-- What is made of the value is made of what was read. -/
theorem Agrees.map {step : Step α} {plain : Except Stop (Read α ahead)} (f : α → β)
    (h : Agrees finish cursor (step cursor) plain (Has finish cursor)) :
    Agrees finish cursor ((do let value ← step; return f value : Step β) cursor)
      (plain.map (·.map f)) (Has finish cursor) := by
  have hplain : plain.map (·.map f) = plain >>= fun read ↦ .ok (read.map f) := by
    cases plain <;> rfl
  rw [hplain]
  refine h.bind fun read _ moved _ hread ↦ ?_
  exact agrees_pure ⟨congrArg f hread.value, hread.stands, hread.first, hread.last⟩

/-- The step does what the reader does, at this depth and in front of fewer tokens than these. -/
def Follows (finish : Span) (depth fuel : Nat) (step : Step α) (reader : Reader α) : Prop :=
  ∀ cursor ahead, cursor.Stands finish ahead → cursor.depth = depth → ahead.length < fuel →
    Agrees finish cursor (step cursor) (reader ahead) (Has finish cursor)

/-! ### Single tokens -/

theorem mark_ne_eof (sign : Mark) : Kind.mark sign ≠ .eof := fun heq ↦ Kind.noConfusion heq

theorem ne_eof_of_isOpening {kind : Kind} (h : IsOpening kind) : kind ≠ .eof := by
  rcases h with rfl | rfl
  · exact mark_ne_eof _
  · exact mark_ne_eof _

/-- The end of the input is not accepted. -/
def PassesOver (value? : Token → Option α) : Prop :=
  ∀ token, token.kind = .eof → value? token = none

theorem passesOver_isKind {kind : Kind} (h : kind ≠ .eof) : PassesOver (isKind kind) :=
  fun token htoken ↦ by rw [isKind, htoken, if_neg h.symm]

theorem passesOver_name? : PassesOver name? := fun token htoken ↦ by rw [name?, htoken]

theorem passesOver_ownClass? : PassesOver ownClass? := fun token htoken ↦ by
  rw [ownClass?, htoken]

theorem passesOver_anyClass? : PassesOver anyClass? := fun token htoken ↦ by
  rw [anyClass?, htoken]
  rfl

theorem passesOver_part? : PassesOver part? := fun token htoken ↦ by rw [part?, htoken]

theorem passesOver_atom? : PassesOver atom? := fun token htoken ↦ by rw [atom?, htoken]

theorem accept_of_next?_eq_none {value? : Token → Option α} (hpasses : PassesOver value?)
    (h : cursor.Stands finish ahead) (hnone : next? value? ahead = none) :
    accept value? cursor = (.ok none, cursor) := by
  have hcurrent : value? cursor.current = none := by
    rw [h.current_eq]
    cases ahead with
    | nil => exact hpasses _ rfl
    | cons token rest => exact Option.map_eq_none_iff.mp hnone
  rw [accept, hcurrent]

theorem accept_of_next?_eq_some {value? : Token → Option α} (h : cursor.Stands finish ahead)
    {read : Read α ahead} (hsome : next? value? ahead = some read) :
    accept value? cursor = (.ok (some read.value), cursor.advance) ∧
      cursor.Moves cursor.advance ∧ Has finish cursor read read.value cursor.advance := by
  cases ahead with
  | nil => cases hsome
  | cons token rest =>
    obtain ⟨value, hvalue, rfl⟩ := Option.map_eq_some_iff.mp hsome
    obtain ⟨hadvance, hstands, hprevious⟩ := h.advance
    have hcurrent : cursor.current = token := h.current_eq
    refine ⟨?_, ?_, rfl, hstands, congrArg Token.span hcurrent, hprevious⟩
    · rw [accept, hcurrent, hvalue]
    · rw [hadvance]
      exact ⟨rfl, Nat.le_succ _, rfl, rfl⟩

/-- A step that begins with a look at the next token does what a reader does if it does so whether
or not the token is accepted. -/
theorem agrees_accept {value? : Token → Option α} (hpasses : PassesOver value?)
    (h : cursor.Stands finish ahead) {next : Option α → Step β} {plain : Except Stop σ}
    (hsome : ∀ read : Read α ahead, next? value? ahead = some read → ∀ moved,
      cursor.Moves moved → Has finish cursor read read.value moved →
        Agrees finish moved (next (some read.value) moved) plain further)
    (hnone : next? value? ahead = none → Agrees finish cursor (next none cursor) plain further) :
    Agrees finish cursor ((accept value? >>= next) cursor) plain further := by
  rw [bind_apply]
  cases hread : next? value? ahead with
  | none =>
    rw [accept_of_next?_eq_none hpasses h hread]
    exact hnone hread
  | some read =>
    obtain ⟨haccept, hmoves, hhas⟩ := accept_of_next?_eq_some h hread
    rw [haccept]
    exact (hsome read hread _ hmoves hhas).of_moves hmoves

theorem agrees_expect {value? : Token → Option α} (hpasses : PassesOver value?)
    (h : cursor.Stands finish ahead) (what : String) :
    Agrees finish cursor (expect what value? cursor) (require what value? ahead)
      (Has finish cursor) := by
  refine agrees_accept hpasses h (fun read hread moved hmoves hhas ↦ ?_) fun hnone ↦ ?_
  · rw [require, hread]
    exact agrees_pure hhas
  · rw [require, hnone]
    exact agrees_refuse h _

theorem agrees_expectKind {kind : Kind} (hkind : kind ≠ .eof) (h : cursor.Stands finish ahead) :
    Agrees finish cursor (expectKind kind cursor) (requireKind kind ahead) (Has finish cursor) :=
  agrees_expect (passesOver_isKind hkind) h _

/-! ### Every reader -/

theorem Follows.mono {step : Step α} {reader : Reader α} {more : Nat}
    (h : Follows finish depth more step reader) (hle : fuel ≤ more) :
    Follows finish depth fuel step reader :=
  fun cursor ahead hstands hdepth hlt ↦ h cursor ahead hstands hdepth (Nat.lt_of_lt_of_le hlt hle)

theorem follows_upTo {item : Step α} {reader : Reader α} {bound : Nat} (close : Mark)
    (hitem : Follows finish depth bound item reader) (hle : fuel ≤ bound) :
    Follows finish depth fuel (upTo close item fuel) (manyThen close reader) := by
  induction fuel with
  | zero => exact fun _ _ _ _ hlt ↦ absurd hlt (Nat.not_lt_zero _)
  | succ fuel ih =>
    intro cursor ahead hstands hdepth hlt
    rw [upTo, manyThen]
    refine agrees_accept (passesOver_isKind (mark_ne_eof _)) hstands
      (fun closing hclosing moved _ hhas ↦ ?_) fun hnone ↦ ?_
    · rw [hclosing]
      exact agrees_pure ⟨rfl, hhas.stands, hhas.first, hhas.last⟩
    · rw [hnone]
      refine (hitem.mono hle cursor ahead hstands hdepth hlt).bind
        fun first _ moved hmoves hfirst ↦ ?_
      obtain ⟨rfl, hrest, hspan, -⟩ := hfirst
      have hshorter := first.shorter
      refine (ih (Nat.le_of_succ_le hle) moved first.rest hrest (hmoves.depth.trans hdepth)
        (by omega)).bind fun others _ last _ hothers ↦ ?_
      obtain ⟨rfl, hend, -, hprevious⟩ := hothers
      exact agrees_pure ⟨rfl, hend, hspan, hprevious⟩

theorem follows_params : Follows finish depth fuel (params fuel) Reading.params := by
  induction fuel with
  | zero => exact fun _ _ _ _ hlt ↦ absurd hlt (Nat.not_lt_zero _)
  | succ fuel ih =>
    intro cursor ahead hstands hdepth hlt
    rw [params, Reading.params]
    refine agrees_accept (passesOver_isKind (mark_ne_eof _)) hstands
      (fun colon hcolon moved hmoves hhas ↦ ?_) fun hnone ↦ ?_
    · rw [hcolon]
      refine (agrees_expect passesOver_name? hhas.stands _).bind
        fun param _ behind hbehind hparam ↦ ?_
      obtain ⟨rfl, hrest, -, -⟩ := hparam
      have hshorter := param.shorter
      have hcolonShorter := colon.shorter
      refine (ih behind param.rest hrest ((hmoves.trans hbehind).depth.trans hdepth)
        (by omega)).bind fun others _ last _ hothers ↦ ?_
      obtain ⟨rfl, hend, -, hprevious⟩ := hothers
      exact agrees_pure ⟨rfl, hend, hhas.first, hprevious⟩
    · rw [hnone]
      refine (agrees_expectKind (mark_ne_eof _) hstands).bind fun bar _ moved _ hbar ↦ ?_
      exact agrees_pure ⟨rfl, hbar.stands, hbar.first, hbar.last⟩

theorem follows_assignment {step : Step Expr} {reader : Reader Expr}
    (h : Follows finish depth fuel step reader) :
    Follows finish depth fuel (assignment step) (assignmentWith reader) := by
  intro cursor ahead hstands hdepth hlt
  refine (agrees_expect passesOver_name? hstands _).bind fun target _ first hfirst htarget ↦ ?_
  obtain ⟨rfl, htargetRest, hspan, -⟩ := htarget
  refine (agrees_expectKind (mark_ne_eof _) htargetRest).bind fun sign _ second hsecond hsign ↦ ?_
  have htargetShorter := target.shorter
  have hsignShorter := sign.shorter
  refine (h second sign.rest hsign.stands ((hfirst.trans hsecond).depth.trans hdepth)
    (by omega)).bind fun value _ third _ hvalue ↦ ?_
  obtain ⟨rfl, hvalueRest, -, -⟩ := hvalue
  refine (agrees_expectKind (mark_ne_eof _) hvalueRest).bind fun dot _ last _ hdot ↦ ?_
  exact agrees_pure ⟨rfl, hdot.stands, hspan, hdot.last⟩

theorem follows_arguments {operand : Step Expr} {reader : Reader Expr} {bound : Nat}
    (h : Follows finish depth bound operand reader) (hle : fuel ≤ bound) (part : String) :
    Follows finish depth fuel (arguments operand part fuel) (argumentsWith reader part) := by
  induction fuel generalizing part with
  | zero => exact fun _ _ _ _ hlt ↦ absurd hlt (Nat.not_lt_zero _)
  | succ fuel ih =>
    intro cursor ahead hstands hdepth hlt
    rw [arguments, argumentsWith]
    refine (h.mono hle cursor ahead hstands hdepth hlt).bind
      fun argument _ moved hmoves hargument ↦ ?_
    obtain ⟨rfl, hrest, hspan, hprevious⟩ := hargument
    refine agrees_accept passesOver_part? hrest (fun next hnext further hfurther hhas ↦ ?_)
      fun hnone ↦ ?_
    · rw [hnext]
      have hargumentShorter := argument.shorter
      have hnextShorter := next.shorter
      refine (ih (Nat.le_of_succ_le hle) next.value further next.rest hhas.stands
        ((hmoves.trans hfurther).depth.trans hdepth) (by omega)).bind
          fun others _ last _ hothers ↦ ?_
      obtain ⟨rfl, hend, -, hlast⟩ := hothers
      exact agrees_pure ⟨rfl, hend, hspan, hlast⟩
    · rw [hnone]
      exact agrees_pure ⟨rfl, hrest, hspan, hprevious⟩

theorem follows_expression {operand : Step Expr} {reader : Reader Expr}
    (h : Follows finish depth fuel operand reader) :
    Follows finish depth fuel (expression operand fuel) (expressionWith reader) := by
  intro cursor ahead hstands hdepth hlt
  refine (h cursor ahead hstands hdepth hlt).bind fun receiver _ moved hmoves hreceiver ↦ ?_
  obtain ⟨rfl, hrest, hspan, hprevious⟩ := hreceiver
  refine agrees_accept passesOver_name? hrest (fun selector hselector last _ hhas ↦ ?_)
    fun hnoName ↦ ?_
  · rw [hselector]
    refine agrees_pure ⟨?_, hhas.stands, hspan, hhas.last⟩
    rw [hhas.last]
    rfl
  · rw [hnoName]
    refine agrees_accept passesOver_part? hrest (fun part hpart further hfurther hhas ↦ ?_)
      fun hnone ↦ ?_
    · rw [hpart]
      have hreceiverShorter := receiver.shorter
      have hpartShorter := part.shorter
      refine (follows_arguments h (Nat.le_refl _) part.value further part.rest hhas.stands
        ((hmoves.trans hfurther).depth.trans hdepth) (by omega)).bind
          fun message _ last _ hmessage ↦ ?_
      obtain ⟨rfl, hend, -, hlast⟩ := hmessage
      refine agrees_pure ⟨?_, hend, hspan, hlast⟩
      rw [hlast]
      rfl
    · rw [hnone]
      exact agrees_pure ⟨rfl, hrest, hspan, hprevious⟩

/-- The bracket in front leaves one token less to what follows. -/
theorem follows_block {operand : Step Expr} {reader : Reader Expr}
    (h : Follows finish depth fuel operand reader) :
    Follows finish depth (fuel + 1) (block operand fuel) (blockWith reader) := by
  intro cursor ahead hstands hdepth hlt
  refine (agrees_expectKind (mark_ne_eof _) hstands).bind fun left _ first hfirst hleft ↦ ?_
  have hleftShorter := left.shorter
  refine (follows_params first left.rest hleft.stands (hfirst.depth.trans hdepth)
    (by omega)).bind fun params _ second hsecond hparams ↦ ?_
  obtain ⟨rfl, hparamsRest, -, -⟩ := hparams
  have hparamsShorter := params.shorter
  refine (follows_upTo .rightBracket (follows_assignment (follows_expression h)) (Nat.le_refl _)
    second params.rest hparamsRest ((hfirst.trans hsecond).depth.trans hdepth) (by omega)).bind
      fun body _ last _ hbody ↦ ?_
  obtain ⟨rfl, hend, -, hprevious⟩ := hbody
  refine agrees_pure ⟨?_, hend, hleft.first, hprevious⟩
  show (⟨_, _, cursor.current.span.merge last.previous⟩ : Block) = _
  rw [hprevious, hleft.first]
  rfl

theorem follows_parenthesized {operand : Step Expr} {reader : Reader Expr}
    (h : Follows finish depth fuel operand reader) :
    Follows finish depth (fuel + 1) (parenthesized operand fuel) (parenthesizedWith reader) := by
  intro cursor ahead hstands hdepth hlt
  refine (agrees_expectKind (mark_ne_eof _) hstands).bind fun left _ first hfirst hleft ↦ ?_
  have hleftShorter := left.shorter
  refine (follows_expression h first left.rest hleft.stands (hfirst.depth.trans hdepth)
    (by omega)).bind fun value _ second _ hvalue ↦ ?_
  obtain ⟨rfl, hvalueRest, -, -⟩ := hvalue
  refine (agrees_expectKind (mark_ne_eof _) hvalueRest).bind fun right _ last _ hright ↦ ?_
  exact agrees_pure ⟨rfl, hright.stands, hleft.first, hright.last⟩

/-- One level further inside. -/
def deeper (cursor : Cursor) : Cursor := { cursor with depth := cursor.depth + 1 }

/-- Where a level may be opened, it has been closed again on the way out. -/
theorem agrees_nested {step : Step α} {plain : Except Stop (Read α ahead)}
    (hdepth : cursor.depth < maxNesting)
    (h : Agrees finish cursor.deeper (step cursor.deeper) plain (Has finish cursor.deeper)) :
    Agrees finish cursor (nested step cursor) plain (Has finish cursor) := by
  have hnested : nested step cursor = ((step cursor.deeper).1,
      { (step cursor.deeper).2 with depth := (step cursor.deeper).2.depth - 1 }) := by
    rw [nested, if_neg (Nat.not_le.mpr hdepth)]
    rfl
  obtain ⟨⟨htokens, hposition, hinside, hdescription⟩, hread, hstopped⟩ := h
  rw [hnested]
  refine ⟨⟨htokens, hposition, ?_, hdescription⟩, fun read heq ↦ ?_, fun stop heq ↦ ?_⟩
  · rw [hinside]
    exact Nat.add_sub_cancel ..
  · obtain ⟨value, hvalue, heqValue, hstands, hfirst, hlast⟩ := hread read heq
    exact ⟨value, hvalue, heqValue, hstands.of_eq rfl rfl, hfirst, hlast⟩
  · obtain ⟨hfault, hstands⟩ := hstopped stop heq
    refine ⟨hfault.trans ?_, hstands.of_eq rfl rfl⟩
    cases stop.reason <;> rfl

/-- Where no level may be opened, that is the fault. -/
theorem agrees_nested_of_le {step : Step α} (hdepth : maxNesting ≤ cursor.depth)
    (h : cursor.Stands finish ahead) :
    Agrees finish cursor (nested step cursor) (.error ⟨.tooDeep, ahead⟩) related := by
  rw [nested, if_pos hdepth]
  exact agrees_refuse h _

theorem operand_apply_of_leftParen (h : cursor.current.kind = .mark .leftParen) (fuel : Nat) :
    operand (fuel + 1) cursor = nested (parenthesized (operand fuel) fuel) cursor := by
  rw [operand, bind_apply, look, h]

theorem operand_apply_of_leftBracket (h : cursor.current.kind = .mark .leftBracket) (fuel : Nat) :
    operand (fuel + 1) cursor = nested (do
      let content ← block (operand fuel) fuel
      return .block content) cursor := by
  rw [operand, bind_apply, look, h]

theorem operand_apply_of_not_isOpening (h : ¬ IsOpening cursor.current.kind) (fuel : Nat) :
    operand (fuel + 1) cursor = expect "expression" atom? cursor := by
  rw [operand, bind_apply, look]
  generalize cursor.current.kind = kind at h ⊢
  dsimp only
  split
  · exact absurd (.inl rfl) h
  · exact absurd (.inr rfl) h
  · rfl

/-- By induction on the fuel: a level is opened by a token, so one unit less will do inside. -/
theorem follows_operand (hdepth : depth ≤ maxNesting) :
    Follows finish depth fuel (operand fuel) (Reading.operand (maxNesting - depth)) := by
  induction fuel generalizing depth with
  | zero => exact fun _ _ _ _ hlt ↦ absurd hlt (Nat.not_lt_zero _)
  | succ fuel ih =>
    intro cursor ahead hstands hcursor hlt
    by_cases hopening : IsOpening cursor.current.kind
    · have hkind : nextKind? ahead = some cursor.current.kind :=
        (hstands.nextKind?_eq_some_iff (ne_eof_of_isOpening hopening)).mpr rfl
      rcases Nat.lt_or_eq_of_le hdepth with hroom | hfull
      · have hlevels : maxNesting - depth = maxNesting - (depth + 1) + 1 := by omega
        have hinside : cursor.deeper.Stands finish ahead := hstands.of_eq rfl rfl
        have hdeeper : cursor.deeper.depth = depth + 1 := congrArg (· + 1) hcursor
        rw [hlevels, Reading.operand]
        rcases hopening with hparen | hbracket
        · rw [operand_apply_of_leftParen hparen, operandWith_of_leftParen (hparen ▸ hkind)]
          exact agrees_nested (hcursor ▸ hroom)
            (follows_parenthesized (ih hroom) _ _ hinside hdeeper hlt)
        · rw [operand_apply_of_leftBracket hbracket, operandWith_of_leftBracket (hbracket ▸ hkind)]
          exact agrees_nested (hcursor ▸ hroom)
            (((follows_block (ih hroom)) _ _ hinside hdeeper hlt).map Expr.block)
      · rw [hfull, Nat.sub_self, Reading.operand, operandWith_none_of_isOpening hkind hopening]
        have hclosed : maxNesting ≤ cursor.depth := Nat.le_of_eq (hcursor.trans hfull).symm
        rcases hopening with hparen | hbracket
        · rw [operand_apply_of_leftParen hparen]
          exact agrees_nested_of_le hclosed hstands
        · rw [operand_apply_of_leftBracket hbracket]
          exact agrees_nested_of_le hclosed hstands
    · have hnone : ∀ kind ∈ nextKind? ahead, ¬ IsOpening kind := by
        intro kind hkind hopens
        have hcurrent :=
          (hstands.nextKind?_eq_some_iff (ne_eof_of_isOpening hopens)).mp hkind
        exact hopening (hcurrent ▸ hopens)
      have hreader : Reading.operand (maxNesting - depth) ahead =
          require "expression" atom? ahead := by
        cases maxNesting - depth <;> exact operandWith_of_not_isOpening hnone
      rw [operand_apply_of_not_isOpening hopening, hreader]
      exact agrees_expect passesOver_atom? hstands _

theorem parts_of_parts?_eq_none (h : cursor.Stands finish ahead) (hlt : ahead.length < fuel)
    (hnone : parts? ahead = none) : parts fuel cursor = (.ok [], cursor) := by
  obtain ⟨fuel, rfl⟩ := Nat.exists_eq_succ_of_ne_zero (Nat.ne_zero_of_lt hlt)
  rw [parts, bind_apply,
    accept_of_next?_eq_none passesOver_part? h (parts?_eq_none_iff.mp hnone)]
  rfl

theorem agrees_parts {read : Read (List String) ahead} (h : cursor.Stands finish ahead)
    (hlt : ahead.length < fuel) (hread : parts? ahead = some read) :
    Agrees finish cursor (parts fuel cursor) (.ok read) (Has finish cursor) := by
  induction fuel generalizing cursor ahead with
  | zero => exact absurd hlt (Nat.not_lt_zero _)
  | succ fuel ih =>
    rw [parts]
    refine agrees_accept passesOver_part? h (fun next hnext moved hmoves hhas ↦ ?_) fun hnone ↦ ?_
    · cases ahead with
      | nil => cases hnext
      | cons token rest =>
        obtain ⟨part, hpart, rfl⟩ := Option.map_eq_some_iff.mp hnext
        have hshorter : rest.length < fuel := Nat.lt_of_succ_lt_succ hlt
        rw [parts?, hpart] at hread
        cases hothers : parts? rest with
        | none =>
          rw [hothers] at hread
          cases hread
          show Agrees finish moved ((parts fuel >>= _) moved) _ _
          rw [bind_apply, parts_of_parts?_eq_none hhas.stands hshorter hothers]
          exact agrees_pure ⟨rfl, hhas.stands, hhas.first, hhas.last⟩
        | some others =>
          rw [hothers] at hread
          cases hread
          show Agrees finish moved _ (Except.ok others >>= fun others ↦ .ok (α := Read _ _)
            ⟨part :: others.value, others.rest, _, others.last, _⟩) _
          refine (ih hhas.stands hshorter hothers).bind fun read value last _ hlast ↦ ?_
          obtain ⟨rfl, hend, -, hprevious⟩ := hlast
          exact agrees_pure ⟨rfl, hend, hhas.first, hprevious⟩
    · rw [parts?_eq_none_iff.mpr hnone] at hread
      cases hread

/-- A selector has at least one part. -/
theorem value_ne_nil_of_parts?_eq_some {read : Read (List String) ahead}
    (h : parts? ahead = some read) : read.value ≠ [] := by
  unfold parts? at h
  split at h
  · cases h
  · split at h
    · cases h
    · split at h <;> cases h <;> exact List.cons_ne_nil _ _

theorem follows_heading : Follows finish depth fuel (heading fuel) Reading.heading := by
  intro cursor ahead hstands _ hlt
  refine agrees_accept passesOver_name? hstands (fun name hname moved _ hhas ↦ ?_) fun hnoName ↦ ?_
  · rw [Reading.heading, hname]
    exact agrees_pure ⟨rfl, hhas.stands, hhas.first, hhas.last⟩
  · rw [Reading.heading, hnoName]
    cases hparts : parts? ahead with
    | none =>
      show Agrees finish cursor ((parts fuel >>= _) cursor) _ _
      rw [bind_apply, parts_of_parts?_eq_none hstands hlt hparts]
      exact agrees_refuse hstands _
    | some read =>
      show Agrees finish cursor ((parts fuel >>= _) cursor) (Except.ok read >>= fun parts ↦ .ok
        (parts.map fun parts ↦ (String.join parts, parts.length))) _
      have hnonempty : Agrees finish cursor (parts fuel cursor) (.ok read)
          fun read value moved ↦ read.value ≠ [] ∧ Has finish cursor read value moved :=
        (agrees_parts hstands hlt hparts).mono fun _ _ _ heq hhas ↦
          ⟨value_ne_nil_of_parts?_eq_some (Except.ok.inj heq ▸ hparts), hhas⟩
      refine hnonempty.bind fun read _ moved _ hboth ↦ ?_
      obtain ⟨hne, rfl, hrest, hspan, hprevious⟩ := hboth
      obtain ⟨part, others, hvalue⟩ := List.exists_cons_of_ne_nil hne
      rw [hvalue]
      refine agrees_pure ⟨?_, hrest, hspan, hprevious⟩
      rw [← hvalue]
      rfl

theorem follows_method : Follows finish 0 fuel (method fuel) Reading.method := by
  intro cursor ahead hstands hdepth hlt
  refine (follows_heading cursor ahead hstands hdepth hlt).bind
    fun selector _ moved hmoves hselector ↦ ?_
  obtain ⟨rfl, hrest, hspan, -⟩ := hselector
  have hshorter := selector.shorter
  refine (follows_block (follows_operand (Nat.zero_le _)) moved selector.rest hrest
    (hmoves.depth.trans hdepth) (by omega)).bind fun body _ last _ hbody ↦ ?_
  obtain ⟨rfl, hend, -, hprevious⟩ := hbody
  refine agrees_pure ⟨?_, hend, hspan, hprevious⟩
  show (⟨_, _, _, cursor.current.span.merge last.previous⟩ : Method) = _
  rw [hprevious, hspan]
  rfl

/-- What is in front of the methods is read without fuel. -/
theorem follows_classDef : Follows finish 0 (fuel + 1) (classDef fuel) Reading.classDef := by
  intro cursor ahead hstands hdepth hlt
  refine (agrees_expectKind (fun heq ↦ Kind.noConfusion heq) hstands).bind
    fun word _ first hfirst hword ↦ ?_
  refine (agrees_expect passesOver_ownClass? hword.stands _).bind
    fun name _ second hsecond hname ↦ ?_
  obtain ⟨rfl, hnameRest, -, -⟩ := hname
  refine (agrees_expectKind (mark_ne_eof _) hnameRest).bind fun colon _ third hthird hcolon ↦ ?_
  refine (agrees_expect passesOver_anyClass? hcolon.stands _).bind
    fun parent _ fourth hfourth hparent ↦ ?_
  obtain ⟨rfl, hparentRest, -, -⟩ := hparent
  refine (agrees_expectKind (mark_ne_eof _) hparentRest).bind fun left _ fifth hfifth hleft ↦ ?_
  have hmoves := (((hfirst.trans hsecond).trans hthird).trans hfourth).trans hfifth
  have hshorter : left.rest.length < ahead.length :=
    Nat.lt_trans (Nat.lt_trans left.shorter parent.shorter)
      (Nat.lt_trans (Nat.lt_trans colon.shorter name.shorter) word.shorter)
  refine (follows_upTo .rightBrace follows_method (Nat.le_refl _) fifth left.rest hleft.stands
    (hmoves.depth.trans hdepth) (Nat.lt_of_lt_of_le hshorter (Nat.le_of_lt_succ hlt))).bind
      fun methods _ last _ hmethods ↦ ?_
  obtain ⟨rfl, hend, -, hprevious⟩ := hmethods
  exact agrees_pure ⟨rfl, hend, hword.first, hprevious⟩

theorem classes_apply_of_kind_ne_eof (h : cursor.current.kind ≠ .eof) (fuel : Nat) :
    classes (fuel + 1) cursor = (do
      let first ← classDef fuel
      let others ← classes fuel
      return first :: others) cursor := by
  rw [classes, bind_apply, look]
  generalize cursor.current.kind = kind at h ⊢
  dsimp only
  split
  · exact absurd rfl h
  · rfl

/-- From depth zero the cursor reads all that is in front of the end of the input. -/
theorem agrees_classes (h : cursor.Stands finish ahead) (hdepth : cursor.depth = 0)
    (hlt : ahead.length < fuel) :
    Agrees finish cursor (classes fuel cursor) (Reading.classes ahead)
      fun read value moved ↦ value = read ∧ moved.Stands finish [] := by
  induction fuel generalizing cursor ahead with
  | zero => exact absurd hlt (Nat.not_lt_zero _)
  | succ fuel ih =>
    cases ahead with
    | nil =>
      rw [classes, bind_apply, look, h.current_eq, Reading.classes]
      exact agrees_pure ⟨rfl, h⟩
    | cons token rest =>
      have hkind : cursor.current.kind ≠ .eof := by
        rw [h.current_eq]
        exact h.noEnd token List.mem_cons_self
      rw [classes_apply_of_kind_ne_eof hkind, Reading.classes]
      refine (follows_classDef cursor _ h hdepth hlt).bind fun first _ moved hmoves hfirst ↦ ?_
      obtain ⟨rfl, hrest, -, -⟩ := hfirst
      have hshorter := first.shorter
      refine (ih hrest (hmoves.depth.trans hdepth) (by omega)).bind
        fun others _ last _ hothers ↦ ?_
      obtain ⟨rfl, hend⟩ := hothers
      exact agrees_pure ⟨rfl, hend⟩

end Cursor

end Sol25
