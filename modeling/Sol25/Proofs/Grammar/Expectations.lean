import Sol25.Proofs.Grammar.Stopping

/-!
# What readers ask for

A reader that cannot go on says what ought to stand in its place, unless it has got too deep. It has
a few answers only, whatever the tokens are (`Reading.expectations`): the five sorts of token that
can be missing, and keywords and marks by their spelling. A chain of readers stops where one of them
does (`Asks.bind`), so the answers of `Reading.classes` are those of the readers for single tokens
(`Reading.asks_classes`).
-/

set_option autoImplicit false
set_option relaxedAutoImplicit false

namespace Sol25.Reading

open Token (Kind)

variable {α β : Type} {tokens : List Token} {what : String}

/-- All that readers can ask for. -/
def expectations : List String :=
  ["identifier", "class identifier", "parent class name", "method selector", "expression"] ++
    [Kind.keyword .classWord, .mark .colon, .mark .leftBrace, .mark .leftBracket, .mark .pipe,
      .mark .assign, .mark .dot, .mark .leftParen, .mark .rightParen].map Kind.display

/-- If this is a stop for want of something, the readers can ask for it. -/
def Asks (result : Except Stop α) : Prop :=
  ∀ what rest, result = .error ⟨.expected what, rest⟩ → what ∈ expectations

theorem asks_ok (value : α) : Asks (.ok value) := nofun

theorem asks_tooDeep (rest : List Token) : Asks (.error ⟨.tooDeep, rest⟩ : Except Stop α) := by
  rintro _ _ ⟨⟩

theorem Asks.bind {first : Except Stop α} {next : α → Except Stop β} (hfirst : Asks first)
    (hnext : ∀ value, Asks (next value)) : Asks (first >>= next) := by
  intro what rest h
  rcases exists_of_bind_eq_error h with h | ⟨value, -, h⟩
  · exact hfirst _ _ h
  · exact hnext _ _ _ h

theorem Asks.map {result : Except Stop α} (h : Asks result) (f : α → β) :
    Asks (result.map f) := by
  cases result with
  | ok value => exact asks_ok _
  | error stop =>
    rintro what rest ⟨⟩
    exact h _ _ rfl

/-! ### Single tokens -/

theorem asks_require (value? : Token → Option α) (h : what ∈ expectations) (tokens : List Token) :
    Asks (require what value? tokens) := by
  intro other rest hstop
  cases stop_of_require_eq_error hstop
  exact h

theorem asks_requireKind {kind : Kind} (h : kind.display ∈ expectations) (tokens : List Token) :
    Asks (requireKind kind tokens) :=
  asks_require (isKind kind) h tokens

theorem asks_heading (tokens : List Token) : Asks (heading tokens) := by
  intro other rest hstop
  cases stop_of_heading_eq_error hstop
  decide

/-! ### Repetitions -/

theorem asks_manyThen {close : Mark} {item : Reader α} (h : ∀ tokens, Asks (item tokens))
    (tokens : List Token) : Asks (manyThen close item tokens) := by
  induction hlength : tokens.length using Nat.strongRecOn generalizing tokens with
  | _ length ih =>
    rw [manyThen]
    split
    · exact asks_ok _
    · exact (h tokens).bind fun first ↦
        (ih _ (hlength ▸ first.shorter) _ rfl).bind fun _ ↦ asks_ok _

theorem asks_params (tokens : List Token) : Asks (params tokens) := by
  induction hlength : tokens.length using Nat.strongRecOn generalizing tokens with
  | _ length ih =>
    rw [params]
    split
    · next colon _ =>
      exact (asks_require name? (by decide) _).bind fun param ↦
        (ih _ (hlength ▸ Nat.lt_trans param.shorter colon.shorter) _ rfl).bind fun _ ↦
          asks_ok _
    · exact (asks_requireKind (by decide) _).bind fun _ ↦ asks_ok _

/-! ### Operands and what is made of them -/

section

variable {expression operand : Reader Expr}

theorem asks_assignmentWith (h : ∀ tokens, Asks (expression tokens)) (tokens : List Token) :
    Asks (assignmentWith expression tokens) :=
  (asks_require name? (by decide) _).bind fun target ↦
    (asks_requireKind (by decide) _).bind fun sign ↦
      (h sign.rest).bind fun value ↦
        (asks_requireKind (by decide) _).bind fun _ ↦ asks_ok _

theorem asks_argumentsWith (h : ∀ tokens, Asks (operand tokens)) (part : String)
    (tokens : List Token) : Asks (argumentsWith operand part tokens) := by
  induction hlength : tokens.length using Nat.strongRecOn generalizing tokens part with
  | _ length ih =>
    rw [argumentsWith]
    refine (h tokens).bind fun argument ↦ ?_
    split
    · exact asks_ok _
    · next next _ =>
      exact (ih _ (hlength ▸ Nat.lt_trans next.shorter argument.shorter) _ _ rfl).bind
        fun _ ↦ asks_ok _

theorem asks_expressionWith (h : ∀ tokens, Asks (operand tokens)) (tokens : List Token) :
    Asks (expressionWith operand tokens) := by
  refine (h tokens).bind fun receiver ↦ ?_
  split
  · exact asks_ok _
  · split
    · exact (asks_argumentsWith h _ _).bind fun _ ↦ asks_ok _
    · exact asks_ok _

theorem asks_blockWith (h : ∀ tokens, Asks (operand tokens)) (tokens : List Token) :
    Asks (blockWith operand tokens) :=
  (asks_requireKind (by decide) _).bind fun left ↦
    (asks_params left.rest).bind fun params ↦
      (asks_manyThen (asks_assignmentWith (asks_expressionWith h)) params.rest).bind fun _ ↦
        asks_ok _

theorem asks_parenthesizedWith (h : ∀ tokens, Asks (operand tokens)) (tokens : List Token) :
    Asks (parenthesizedWith operand tokens) :=
  (asks_requireKind (by decide) _).bind fun left ↦
    (asks_expressionWith h left.rest).bind fun value ↦
      (asks_requireKind (by decide) _).bind fun _ ↦ asks_ok _

theorem asks_operandWith {inner? : Option (Reader Expr)}
    (h : ∀ inner ∈ inner?, ∀ tokens, Asks (inner tokens)) (tokens : List Token) :
    Asks (operandWith inner? tokens) := by
  unfold operandWith
  split
  · split
    · exact asks_parenthesizedWith (h _ rfl) tokens
    · exact asks_tooDeep tokens
  · split
    · exact (asks_blockWith (h _ rfl) tokens).map _
    · exact asks_tooDeep tokens
  · exact asks_require atom? (by decide) tokens

end

theorem asks_operand (depth : Nat) (tokens : List Token) : Asks (operand depth tokens) := by
  induction depth generalizing tokens with
  | zero => exact asks_operandWith (fun inner h ↦ absurd h (Option.not_mem_none inner)) tokens
  | succ depth ih =>
    refine asks_operandWith ?_ tokens
    rintro _ ⟨⟩
    exact ih

/-! ### Methods, classes and programs -/

theorem asks_method (tokens : List Token) : Asks (method tokens) :=
  (asks_heading tokens).bind fun selector ↦
    (asks_blockWith (asks_operand maxNesting) selector.rest).bind fun _ ↦ asks_ok _

theorem asks_classDef (tokens : List Token) : Asks (classDef tokens) :=
  (asks_requireKind (by decide) _).bind fun word ↦
    (asks_require ownClass? (by decide) _).bind fun name ↦
      (asks_requireKind (by decide) _).bind fun colon ↦
        (asks_require anyClass? (by decide) _).bind fun parent ↦
          (asks_requireKind (by decide) _).bind fun left ↦
            (asks_manyThen asks_method left.rest).bind fun _ ↦ asks_ok _

/-- Whatever stands where a program cannot be read on, what is asked for is one of a few things. -/
theorem asks_classes (tokens : List Token) : Asks (classes tokens) := by
  intro what rest h
  induction hlength : tokens.length using Nat.strongRecOn generalizing tokens with
  | _ length ih =>
    obtain ⟨-, hfirst | ⟨first, -, hothers⟩⟩ := exists_of_classes_eq_error h
    · exact asks_classDef tokens _ _ hfirst
    · exact ih _ (hlength ▸ first.shorter) _ hothers rfl

end Sol25.Reading
