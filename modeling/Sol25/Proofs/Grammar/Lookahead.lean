import Sol25.Proofs.Grammar.Complete

/-!
# One token ahead

What a reader comes to is decided by the kinds of the tokens it uses up and by the kind of the next
one. Two sequences of tokens that agree so far are read alike: the reader ends at the same place,
and if it cannot go on there, it is for the same reason (`LooksAhead`). Spans, and whatever stands
further behind, play no part.

A little more is true. Where a reader has not just been kept from opening one level too many, the
next token may be exchanged for `nil` if it is an opening parenthesis or bracket: none of the tests
a reader makes accepts either of them, except that an operand may begin with all three
(`Unnoticed`). So a reader that stops at an opening without complaining about its depth stands where
no operand can stand.

The readers are built from tests of the next token by doing one thing after the other and by
choosing between two continuations. For each of the ways to build there is one rule, and the rules
are put together as the readers are. A rule speaks of a step that is taken in any of several
situations, each of which determines what is left of the tokens; in this way the rule for doing one
thing after the other need not know what has been read before.
-/

set_option autoImplicit false
set_option relaxedAutoImplicit false

namespace Sol25.Reading

open Token (Kind)

variable {α β γ ι κ : Type} {tokens rest rest' used used' : List Token} {reason? : Option Reason}

/-! ### Where readers end -/

/-- The result leaves these tokens: it is a value if there is no reason, and otherwise the reader
could not go on for that reason. -/
def Ends (result : Except Stop (Read α tokens)) (reason? : Option Reason) (rest : List Token) :
    Prop :=
  match result with
  | .ok read => reason? = none ∧ read.rest = rest
  | .error stop => reason? = some stop.reason ∧ stop.rest = rest

/-- Both parentheses and blocks open a level. -/
def IsOpening (kind : Kind) : Prop := kind = .mark .leftParen ∨ kind = .mark .leftBracket

instance (kind : Kind) : Decidable (IsOpening kind) := inferInstanceAs (Decidable (_ ∨ _))

/-- The kind of the token that comes next. -/
def nextKind? (tokens : List Token) : Option Kind := tokens.head?.map Token.kind

theorem nextKind?_append_eq {front front' : List Token} (hne : front ≠ [])
    (hkinds : front.map Token.kind = front'.map Token.kind) :
    nextKind? (front ++ rest) = nextKind? (front' ++ rest') := by
  obtain ⟨token, front, rfl⟩ := List.exists_cons_of_ne_nil hne
  obtain ⟨token', front', rfl, hkind, -⟩ := List.map_eq_cons_iff.mp hkinds.symm
  exact congrArg some hkind.symm

/-- A reader that ends in front of `rest` does not notice if `rest'` comes instead. -/
def Unnoticed (reason? : Option Reason) (rest rest' : List Token) : Prop :=
  nextKind? rest = nextKind? rest' ∨
    reason? ≠ some .tooDeep ∧ (∃ kind ∈ nextKind? rest, IsOpening kind) ∧
      nextKind? rest' = some (.keyword .nilWord)

theorem Unnoticed.ahead {reason? : Option Reason} {front front' : List Token}
    (h : Unnoticed reason? rest rest') (hkinds : front.map Token.kind = front'.map Token.kind) :
    Unnoticed none (front ++ rest) (front' ++ rest') := by
  by_cases hfront : front = []
  · subst hfront
    obtain rfl := List.map_eq_nil_iff.mp hkinds.symm
    exact h.imp id fun ⟨_, hopening, hnil⟩ ↦ ⟨nofun, hopening, hnil⟩
  · exact .inl (nextKind?_append_eq hfront hkinds)

/-- What `step` comes to in a situation with `ahead i` left depends on nothing but the kinds of the
tokens that are used up and the kind of the next one. -/
structure LooksAhead {whole : ι → List Token} (ahead : ι → List Token)
    (step : (i : ι) → Except Stop (Read α (whole i))) : Prop where
  suffix : ∀ {i reason? rest}, Ends (step i) reason? rest → ∃ used, ahead i = used ++ rest
  follows : ∀ {i j reason? used used' rest rest'}, ahead i = used ++ rest →
    ahead j = used' ++ rest' → used.map Token.kind = used'.map Token.kind →
    Unnoticed reason? rest rest' → Ends (step i) reason? rest → Ends (step j) reason? rest'

/-! ### The rules -/

/-- A reader takes its tokens for its situation. -/
abbrev Local (reader : Reader α) : Prop := LooksAhead id reader

theorem LooksAhead.comap {whole ahead : ι → List Token}
    {step : (i : ι) → Except Stop (Read α (whole i))} (h : LooksAhead ahead step) (f : κ → ι) :
    LooksAhead (fun k ↦ ahead (f k)) fun k ↦ step (f k) :=
  ⟨h.suffix, h.follows⟩

theorem LooksAhead.of_eq {whole ahead : ι → List Token}
    {step other : (i : ι) → Except Stop (Read α (whole i))} (heq : ∀ i, step i = other i)
    (h : LooksAhead ahead other) : LooksAhead ahead step := by
  rwa [funext heq]

theorem ends_ok {read : Read α tokens} : Ends (.ok read) none read.rest := ⟨rfl, rfl⟩

/-- Nothing is used up by coming to a result. -/
theorem LooksAhead.done {whole ahead : ι → List Token} (value : (i : ι) → Read α (whole i))
    (h : ∀ i, (value i).rest = ahead i) : LooksAhead ahead fun i ↦ .ok (value i) := by
  constructor
  · rintro i reason? rest ⟨-, rfl⟩
    exact ⟨[], (h i).symm⟩
  · rintro i j reason? used used' rest rest' hi hj hkinds - ⟨rfl, rfl⟩
    rw [h, List.self_eq_append_left] at hi
    subst hi
    obtain rfl := List.map_eq_nil_iff.mp hkinds.symm
    exact ⟨rfl, (h j).trans hj⟩

theorem exists_of_ends_bind {whole : List Token} {first : Except Stop (Read α tokens)}
    {next : Read α tokens → Except Stop (Read β whole)} (h : Ends (first >>= next) reason? rest) :
    (Ends first reason? rest ∧ reason?.isSome) ∨
      ∃ read, first = .ok read ∧ Ends (next read) reason? rest := by
  cases first with
  | error stop => exact .inl ⟨h, by rw [h.1]; rfl⟩
  | ok read => exact .inr ⟨read, rfl, h⟩

theorem ends_bind_of_isSome {whole : List Token} {first : Except Stop (Read α tokens)}
    {next : Read α tokens → Except Stop (Read β whole)} (h : Ends first reason? rest)
    (hreason : reason?.isSome) : Ends (first >>= next) reason? rest := by
  cases first with
  | error stop => exact h
  | ok read =>
    rw [h.1] at hreason
    cases hreason

theorem exists_of_ends_none {result : Except Stop (Read α tokens)} (h : Ends result none rest) :
    ∃ read, result = .ok read ∧ read.rest = rest := by
  cases result with
  | error stop => cases h.1
  | ok read => exact ⟨read, rfl, h.2⟩

/-- One thing after the other: what comes second starts from what the first one left. -/
theorem LooksAhead.bind {whole ahead : ι → List Token}
    {first : (i : ι) → Except Stop (Read α (ahead i))}
    {next : (i : ι) → Read α (ahead i) → Except Stop (Read β (whole i))}
    (hfirst : LooksAhead ahead first)
    (hnext : LooksAhead (fun p : (i : ι) × Read α (ahead i) ↦ p.2.rest) fun p ↦ next p.1 p.2) :
    LooksAhead ahead fun i ↦ first i >>= next i := by
  constructor
  · intro i reason? rest h
    rcases exists_of_ends_bind h with ⟨hstop, -⟩ | ⟨read, hread, hmore⟩
    · exact hfirst.suffix hstop
    · obtain ⟨front, hfront⟩ := hfirst.suffix (hread ▸ ends_ok : Ends (first i) none read.rest)
      obtain ⟨back, hback⟩ := hnext.suffix (i := ⟨i, read⟩) hmore
      exact ⟨front ++ back, eq_append_trans hfront hback⟩
  · intro i j reason? used used' rest rest' hi hj hkinds hunnoticed h
    rcases exists_of_ends_bind h with ⟨hstop, hreason⟩ | ⟨read, hread, hmore⟩
    · exact ends_bind_of_isSome (hfirst.follows hi hj hkinds hunnoticed hstop) hreason
    · have hends : Ends (first i) none read.rest := hread ▸ ends_ok
      obtain ⟨front, hfront⟩ := hfirst.suffix hends
      obtain ⟨back, hback⟩ := hnext.suffix (i := ⟨i, read⟩) hmore
      change read.rest = back ++ rest at hback
      have hused : used = front ++ back :=
        List.append_cancel_right (hi.symm.trans (eq_append_trans hfront hback))
      rw [hused, List.map_append] at hkinds
      obtain ⟨front', back', rfl, hfrontKinds, hbackKinds⟩ := List.map_eq_append_iff.mp hkinds.symm
      rw [hback] at hfront hends
      rw [List.append_assoc] at hj
      obtain ⟨read', hread', hrest'⟩ := exists_of_ends_none <|
        hfirst.follows hfront hj hfrontKinds.symm (hunnoticed.ahead hbackKinds.symm) hends
      change Ends (first j >>= next j) reason? rest'
      rw [hread']
      exact hnext.follows (i := ⟨i, read⟩) (j := ⟨j, read'⟩) hback hrest' hbackKinds.symm
        hunnoticed hmore

/-! ### Tests of the next token -/

/-- A test goes by the kind of a token, and it does not accept `nil`. -/
structure IsTest (value? : Token → Option α) : Prop where
  byKind : ∀ {token token'}, token.kind = token'.kind →
    (value? token).isSome = (value? token').isSome
  not_nil : ∀ {token}, token.kind = .keyword .nilWord → value? token = none

theorem isTest_isKind (kind : Kind) (h : kind ≠ .keyword .nilWord) : IsTest (isKind kind) := by
  refine ⟨fun heq ↦ by rw [isKind, isKind, heq], fun hnil ↦ ?_⟩
  rw [isKind, hnil, if_neg h.symm]

theorem isTest_name? : IsTest name? :=
  ⟨fun heq ↦ by rw [name?, name?, heq]; split <;> rfl, fun hnil ↦ by rw [name?, hnil]⟩

theorem isTest_ownClass? : IsTest ownClass? :=
  ⟨fun heq ↦ by rw [ownClass?, ownClass?, heq]; split <;> rfl,
    fun hnil ↦ by rw [ownClass?, hnil]⟩

theorem isTest_anyClass? : IsTest anyClass? :=
  ⟨fun heq ↦ by rw [anyClass?, anyClass?, heq, Option.isSome_map, Option.isSome_map],
    fun hnil ↦ by rw [anyClass?, hnil]; rfl⟩

theorem isTest_part? : IsTest part? :=
  ⟨fun heq ↦ by rw [part?, part?, heq], fun hnil ↦ by rw [part?, hnil]⟩

/-- What a test rejects it rejects as well if it is exchanged unnoticed. -/
theorem IsTest.next?_eq_none {value? : Token → Option α} (h : IsTest value?)
    (hunnoticed : Unnoticed reason? rest rest') (hrest : next? value? rest = none) :
    next? value? rest' = none := by
  cases rest' with
  | nil => rfl
  | cons token' after' =>
    apply Option.map_eq_none_iff.mpr
    rcases hunnoticed with hkind | ⟨-, -, hnil⟩
    · cases rest with
      | nil => cases hkind
      | cons token after =>
        have hrejected : value? token = none := Option.map_eq_none_iff.mp hrest
        have hsame := h.byKind (Option.some.inj hkind)
        rw [hrejected] at hsame
        exact Option.isSome_eq_false_iff.mp hsame.symm |> Option.isNone_iff_eq_none.mp
    · exact h.not_nil (Option.some.inj hnil)

/-- What a test accepts it accepts as well if the kind is the same. -/
theorem IsTest.exists_eq_some {value? : Token → Option α} (h : IsTest value?)
    {token token' : Token} {value : α} (hkind : token.kind = token'.kind)
    (hvalue : value? token = some value) : ∃ value', value? token' = some value' := by
  have hsame := h.byKind hkind
  rw [hvalue] at hsame
  exact Option.isSome_iff_exists.mp hsame.symm

/-- A choice by the next token, which one of the two ways uses up. -/
theorem LooksAhead.choose {whole ahead : ι → List Token} {value? : Token → Option α}
    {step : (i : ι) → Except Stop (Read β (whole i))} (htest : IsTest value?)
    (yes : (i : ι) → Read α (ahead i) → Except Stop (Read β (whole i)))
    (no : (i : ι) → Except Stop (Read β (whole i)))
    (hyes : LooksAhead (fun p : (i : ι) × Read α (ahead i) ↦ p.2.rest) fun p ↦ yes p.1 p.2)
    (hno : LooksAhead ahead no)
    (hsome : ∀ {i read}, next? value? (ahead i) = some read → step i = yes i read)
    (hnone : ∀ {i}, next? value? (ahead i) = none → step i = no i) : LooksAhead ahead step := by
  constructor
  · intro i reason? rest h
    cases hnext : next? value? (ahead i) with
    | none => exact hno.suffix (hnone hnext ▸ h)
    | some read =>
      obtain ⟨token, htoken, -⟩ := eq_append_of_next?_eq_some hnext
      obtain ⟨back, hback⟩ := hyes.suffix (i := ⟨i, read⟩) (hsome hnext ▸ h)
      exact ⟨[token] ++ back, eq_append_trans htoken hback⟩
  · intro i j reason? used used' rest rest' hi hj hkinds hunnoticed h
    cases hnext : next? value? (ahead i) with
    | none =>
      rw [hnone hnext] at h
      rw [hi] at hnext
      have hnext' := htest.next?_eq_none (hunnoticed.ahead hkinds) hnext
      rw [← hj] at hnext'
      rw [hnone hnext']
      exact hno.follows hi hj hkinds hunnoticed h
    | some read =>
      rw [hsome hnext] at h
      obtain ⟨token, htoken, hvalue⟩ := eq_append_of_next?_eq_some hnext
      obtain ⟨back, hback⟩ := hyes.suffix (i := ⟨i, read⟩) h
      have hused : used = [token] ++ back :=
        List.append_cancel_right (hi.symm.trans (eq_append_trans htoken hback))
      rw [hused] at hkinds
      obtain ⟨token', back', rfl, hkind, hbackKinds⟩ := List.map_eq_cons_iff.mp hkinds.symm
      obtain ⟨value', hvalue'⟩ := htest.exists_eq_some hkind.symm hvalue
      obtain ⟨read', hread', hrest', -⟩ := next?_cons hj hvalue'
      rw [hsome hread']
      exact hyes.follows (i := ⟨i, read⟩) (j := ⟨j, read'⟩) hback hrest' hbackKinds.symm
        hunnoticed h

/-! ### The readers -/

/-- To stop in front of everything for one and the same reason looks at nothing. -/
theorem looksAhead_stop {whole ahead : ι → List Token} (reason : Reason) :
    LooksAhead ahead fun i ↦ (.error ⟨reason, ahead i⟩ : Except Stop (Read α (whole i))) := by
  constructor
  · rintro i reason? rest ⟨-, rfl⟩
    exact ⟨[], rfl⟩
  · rintro i j reason? used used' rest rest' hi hj hkinds - ⟨rfl, hrest⟩
    rw [← hrest, List.self_eq_append_left] at hi
    subst hi
    obtain rfl := List.map_eq_nil_iff.mp hkinds.symm
    exact ⟨rfl, hj⟩

theorem local_require {value? : Token → Option α} (what : String) (h : IsTest value?) :
    Local (require what value?) := by
  refine .choose h (fun _ read ↦ .ok read) (fun tokens ↦ .error ⟨.expected what, tokens⟩)
    (.done _ fun _ ↦ rfl) (looksAhead_stop (.expected what)) ?_ ?_
  · intro tokens read hread
    change next? value? tokens = some read at hread
    rw [require, hread]
  · intro tokens hnone
    change next? value? tokens = none at hnone
    rw [require, hnone]

theorem local_requireKind (kind : Kind) (h : kind ≠ .keyword .nilWord) :
    Local (requireKind kind) :=
  local_require kind.display (isTest_isKind kind h)

theorem local_assignmentWith {expression : Reader Expr} (h : Local expression) :
    Local (assignmentWith expression) := by
  refine .bind (local_require "identifier" isTest_name?) ?_
  refine .bind ((local_requireKind (.mark .assign) Kind.noConfusion).comap _) ?_
  refine .bind (h.comap _) ?_
  refine .bind ((local_requireKind (.mark .dot) Kind.noConfusion).comap _) ?_
  exact .done _ fun _ ↦ rfl

/-- The situations in which fewer tokens are left than `length`. -/
abbrev Shorter (ahead : ι → List Token) (length : Nat) := { i : ι // (ahead i).length < length }

theorem LooksAhead.again {whole ahead : ι → List Token} {length : Nat}
    {step : (i : ι) → Except Stop (Read α (whole i))}
    (h : LooksAhead (fun i : Shorter ahead length ↦ ahead i.1) fun i ↦ step i.1) (f : κ → ι)
    (hlt : ∀ k, (ahead (f k)).length < length) :
    LooksAhead (fun k ↦ ahead (f k)) fun k ↦ step (f k) :=
  h.comap fun k ↦ ⟨f k, hlt k⟩

/-- Repetitions are followed by induction on the number of tokens that are left. -/
theorem looksAhead_of_forall_shorter {whole ahead : ι → List Token}
    {step : (i : ι) → Except Stop (Read α (whole i))}
    (h : ∀ length, LooksAhead (fun i : Shorter ahead length ↦ ahead i.1) (fun i ↦ step i.1) →
      LooksAhead (fun i : Shorter ahead (length + 1) ↦ ahead i.1) fun i ↦ step i.1) :
    LooksAhead ahead step := by
  have hall : ∀ length, LooksAhead (fun i : Shorter ahead length ↦ ahead i.1) fun i ↦ step i.1 := by
    intro length
    induction length with
    | zero =>
      exact ⟨fun {i} ↦ absurd i.2 (Nat.not_lt_zero _), fun {i} ↦ absurd i.2 (Nat.not_lt_zero _)⟩
    | succ length ih => exact h length ih
  constructor
  · intro i reason? rest hends
    exact (hall ((ahead i).length + 1)).suffix (i := ⟨i, Nat.lt_succ_self _⟩) hends
  · intro i j reason? used used' rest rest' hi hj hkinds hunnoticed hends
    have hlt : (ahead i).length < max (ahead i).length (ahead j).length + 1 := by omega
    have hlt' : (ahead j).length < max (ahead i).length (ahead j).length + 1 := by omega
    exact (hall _).follows (i := ⟨i, hlt⟩) (j := ⟨j, hlt'⟩) hi hj hkinds hunnoticed hends

theorem local_manyThen {close : Mark} {item : Reader α} (h : Local item) :
    Local (manyThen close item) := by
  apply looksAhead_of_forall_shorter
  intro length ih
  refine .choose (isTest_isKind (.mark close) Kind.noConfusion)
    (fun _ closing ↦ .ok (closing.map fun _ ↦ []))
    (fun i ↦ do
      let first ← item i.1
      let others ← manyThen close item first.rest
      return (first.andThen others).map (first.value :: ·))
    (.done _ fun _ ↦ rfl) ?_ ?_ ?_
  · refine .bind (h.comap _) ?_
    refine .bind (ih.again _ fun p ↦ ?_) (.done _ fun _ ↦ rfl)
    exact Nat.lt_of_lt_of_le p.2.shorter (Nat.le_of_lt_succ p.1.2)
  · intro i read hread
    change next? (isKind (.mark close)) i.1 = some read at hread
    rw [manyThen, hread]
  · intro i hnone
    change next? (isKind (.mark close)) i.1 = none at hnone
    rw [manyThen, hnone]

theorem local_params : Local params := by
  apply looksAhead_of_forall_shorter
  intro length ih
  refine .choose (isTest_isKind (.mark .colon) Kind.noConfusion)
    (fun _ colon ↦ do
      let param ← require "identifier" name? colon.rest
      let others ← params param.rest
      return (colon.andThen (param.andThen others)).map (param.value :: ·))
    (fun i ↦ do
      let bar ← requireKind (.mark .pipe) i.1
      return bar.map fun _ ↦ []) ?_ ?_ ?_ ?_
  · refine .bind ((local_require "identifier" isTest_name?).comap _) ?_
    refine .bind (ih.again _ fun p ↦ ?_) (.done _ fun _ ↦ rfl)
    have hbehind := Nat.lt_trans p.2.shorter p.1.2.shorter
    exact Nat.lt_of_lt_of_le hbehind (Nat.le_of_lt_succ p.1.1.2)
  · exact .bind ((local_requireKind (.mark .pipe) Kind.noConfusion).comap _) (.done _ fun _ ↦ rfl)
  · intro i read hread
    change next? (isKind (.mark .colon)) i.1 = some read at hread
    rw [params, hread]
  · intro i hnone
    change next? (isKind (.mark .colon)) i.1 = none at hnone
    rw [params, hnone]

/-- The part of the selector in front of the arguments plays no part in where they end. -/
theorem looksAhead_argumentsWith {operand : Reader Expr} (h : Local operand) (part : κ → String)
    (ahead : κ → List Token) :
    LooksAhead ahead fun k ↦ argumentsWith operand (part k) (ahead k) := by
  have hall : LooksAhead (fun i : String × List Token ↦ i.2)
      fun i ↦ argumentsWith operand i.1 i.2 := by
    apply looksAhead_of_forall_shorter
    intro length ih
    have hmore {μ : Type} (part : μ → String) (ahead : μ → List Token)
        (hlt : ∀ m, (ahead m).length < length) :
        LooksAhead ahead fun m ↦ argumentsWith operand (part m) (ahead m) :=
      ih.comap fun m ↦ ⟨(part m, ahead m), hlt m⟩
    refine .of_eq (fun i ↦ argumentsWith.eq_def operand i.1.1 i.1.2) ?_
    refine .bind (h.comap _) ?_
    refine .choose isTest_part?
      (fun i next ↦ do
        let others ← argumentsWith operand next.value next.rest
        return (i.2.andThen (next.andThen others)).map fun message ↦
          (i.1.1.1 ++ message.1, i.2.value :: message.2))
      (fun i ↦ return i.2.map fun value ↦ (i.1.1.1, [value])) ?_ (.done _ fun _ ↦ rfl) ?_ ?_
    · refine .bind (hmore _ _ fun p ↦ ?_) (.done _ fun _ ↦ rfl)
      have hbehind := Nat.lt_trans p.2.shorter p.1.2.shorter
      exact Nat.lt_of_lt_of_le hbehind (Nat.le_of_lt_succ p.1.1.2)
    · intro i read hread
      rw [hread]
    · intro i hnone
      rw [hnone]
  exact hall.comap fun k ↦ (part k, ahead k)

theorem local_expressionWith {operand : Reader Expr} (h : Local operand) :
    Local (expressionWith operand) := by
  refine .bind h ?_
  refine .choose isTest_name?
    (fun (i : (tokens : List Token) × Read Expr tokens) selector ↦
      return (i.2.andThen selector).map fun name ↦
        .send i.2.value name.name [] (i.2.value.span.merge selector.last))
    (fun i ↦ (next? part? i.2.rest).elim (return i.2) fun part ↦ do
      let message ← argumentsWith operand part.value part.rest
      return (i.2.andThen (part.andThen message)).map fun said ↦
        .send i.2.value said.1 said.2 (i.2.value.span.merge message.last))
    (.done _ fun _ ↦ rfl) ?_ ?_ ?_
  · refine .choose isTest_part?
      (fun i part ↦ do
        let message ← argumentsWith operand part.value part.rest
        return (i.2.andThen (part.andThen message)).map fun said ↦
          .send i.2.value said.1 said.2 (i.2.value.span.merge message.last))
      (fun i ↦ return i.2) ?_ (.done _ fun _ ↦ rfl) ?_ ?_
    · exact .bind (looksAhead_argumentsWith h _ _) (.done _ fun _ ↦ rfl)
    · intro i read hread
      rw [hread, Option.elim_some]
    · intro i hnone
      rw [hnone, Option.elim_none]
  · intro i read hread
    rw [hread]
  · intro i hnone
    rw [hnone]
    cases next? part? i.2.rest <;> rfl

/-- What was used up in front of the tokens that are left. -/
abbrev Behind (α : Type) := (tokens : List Token) × Read α tokens

theorem looksAhead_inBrackets {operand : Reader Expr} (h : Local operand) :
    LooksAhead (fun p : Behind Unit ↦ p.2.rest) fun p ↦ (do
      let params ← params p.2.rest
      let body ← manyThen .rightBracket (assignmentWith (expressionWith operand)) params.rest
      return (p.2.andThen (params.andThen body)).map fun assignments ↦
        ⟨params.value, assignments, p.2.first.merge body.last⟩ :
          Except Stop (Read Block p.1)) := by
  refine .bind (local_params.comap _) ?_
  refine .bind ((local_manyThen (local_assignmentWith (local_expressionWith h))).comap _) ?_
  exact .done _ fun _ ↦ rfl

theorem local_blockWith {operand : Reader Expr} (h : Local operand) : Local (blockWith operand) :=
  .bind (local_requireKind (.mark .leftBracket) Kind.noConfusion) (looksAhead_inBrackets h)

theorem looksAhead_inParentheses {operand : Reader Expr} (h : Local operand) :
    LooksAhead (fun p : Behind Unit ↦ p.2.rest) fun p ↦ (do
      let value ← expressionWith operand p.2.rest
      let right ← requireKind (.mark .rightParen) value.rest
      return (p.2.andThen (value.andThen right)).map fun _ ↦ value.value :
        Except Stop (Read Expr p.1)) := by
  refine .bind ((local_expressionWith h).comap _) ?_
  refine .bind ((local_requireKind (.mark .rightParen) Kind.noConfusion).comap _) ?_
  exact .done _ fun _ ↦ rfl

theorem local_parenthesizedWith {operand : Reader Expr} (h : Local operand) :
    Local (parenthesizedWith operand) :=
  .bind (local_requireKind (.mark .leftParen) Kind.noConfusion) (looksAhead_inParentheses h)

/-- A reader does not end in front of a token that it has asked for and found. -/
theorem length_lt_of_ends_bind {kind : Kind}
    {next : (p : Behind Unit) → Except Stop (Read α p.1)}
    (hnext : LooksAhead (fun p : Behind Unit ↦ p.2.rest) next)
    (hkind : nextKind? tokens = some kind)
    (h : Ends (requireKind kind tokens >>= fun read ↦ next ⟨tokens, read⟩) reason? rest) :
    rest.length < tokens.length := by
  obtain ⟨token, hhead, htoken⟩ := Option.map_eq_some_iff.mp hkind
  obtain ⟨more, rfl⟩ := List.head?_eq_some_iff.mp hhead
  obtain ⟨read, hread, hrest⟩ := requireKind_cons rfl htoken
  rcases exists_of_ends_bind h with ⟨hstop, hreason⟩ | ⟨other, hother, hmore⟩
  · rw [hread] at hstop
    rw [hstop.1] at hreason
    cases hreason
  · obtain ⟨back, hback⟩ := hnext.suffix (i := ⟨_, other⟩) hmore
    have hshorter := other.shorter
    change other.rest = back ++ rest at hback
    rw [hback, List.length_append] at hshorter
    omega

theorem operandWith_of_leftParen {inner : Reader Expr}
    (h : nextKind? tokens = some (.mark .leftParen)) :
    operandWith (some inner) tokens = parenthesizedWith inner tokens := by
  change tokens.head?.map Token.kind = _ at h
  rw [operandWith, h]

theorem operandWith_of_leftBracket {inner : Reader Expr}
    (h : nextKind? tokens = some (.mark .leftBracket)) :
    operandWith (some inner) tokens = (blockWith inner tokens).map (·.map .block) := by
  change tokens.head?.map Token.kind = _ at h
  rw [operandWith, h]

theorem operandWith_none_of_isOpening {kind : Kind} (h : nextKind? tokens = some kind)
    (hopening : IsOpening kind) : operandWith none tokens = .error ⟨.tooDeep, tokens⟩ := by
  change tokens.head?.map Token.kind = _ at h
  rcases hopening with rfl | rfl
  · rw [operandWith, h]
  · rw [operandWith, h]

theorem operandWith_of_not_isOpening {inner? : Option (Reader Expr)}
    (h : ∀ kind ∈ nextKind? tokens, ¬ IsOpening kind) :
    operandWith inner? tokens = require "expression" atom? tokens := by
  unfold operandWith
  split
  · next hkind => exact absurd (.inl rfl) (h _ hkind)
  · next hkind => exact absurd (.inr rfl) (h _ hkind)
  · rfl

theorem isSome_atom?_of_kind_eq {token token' : Token} (h : token.kind = token'.kind) :
    (atom? token).isSome = (atom? token').isSome := by
  rw [atom?, atom?, h]
  split <;> rfl

/-- In front of tokens that begin alike, an atom is found in front of both or of neither. -/
theorem ends_requireAtom {tokens tokens' : List Token} (hi : tokens = used ++ rest)
    (hj : tokens' = used' ++ rest') (hkinds : used.map Token.kind = used'.map Token.kind)
    (hkind : nextKind? tokens = nextKind? tokens')
    (h : Ends (require "expression" atom? tokens) reason? rest) :
    Ends (require "expression" atom? tokens') reason? rest' := by
  cases hnext : next? atom? tokens with
  | none =>
    have hnext' : next? atom? tokens' = none := by
      apply next?_eq_none
      intro token' htoken'
      have hkind' : nextKind? tokens = some token'.kind := by rw [hkind, nextKind?, htoken']; rfl
      obtain ⟨token, htoken, hsame⟩ := Option.map_eq_some_iff.mp hkind'
      obtain ⟨more, rfl⟩ := List.head?_eq_some_iff.mp htoken
      have hrejected : atom? token = none := Option.map_eq_none_iff.mp hnext
      have hisSome := isSome_atom?_of_kind_eq hsame
      rw [hrejected] at hisSome
      exact Option.isNone_iff_eq_none.mp (Option.isSome_eq_false_iff.mp hisSome.symm)
    rw [require, hnext] at h
    obtain ⟨hreason, hrest⟩ := h
    rw [← hrest, List.self_eq_append_left] at hi
    subst hi
    obtain rfl := List.map_eq_nil_iff.mp hkinds.symm
    rw [require, hnext']
    exact ⟨hreason, hj⟩
  | some read =>
    obtain ⟨token, htoken, hvalue⟩ := eq_append_of_next?_eq_some hnext
    rw [require, hnext] at h
    obtain ⟨rfl, hrest⟩ := h
    change read.rest = rest at hrest
    rw [hrest] at htoken
    obtain rfl : used = [token] := List.append_cancel_right (hi.symm.trans htoken)
    obtain ⟨token', rfl, hsame⟩ := List.map_eq_singleton_iff.mp hkinds.symm
    have hisSome := isSome_atom?_of_kind_eq hsame
    rw [hvalue] at hisSome
    obtain ⟨value', hvalue'⟩ := Option.isSome_iff_exists.mp hisSome
    obtain ⟨read', hread', hrest', -⟩ := require_cons "expression" hj hvalue'
    rw [hread']
    exact ⟨rfl, hrest'⟩

theorem ends_map_iff {f : α → β} {result : Except Stop (Read α tokens)} :
    Ends (result.map (·.map f)) reason? rest ↔ Ends result reason? rest := by
  cases result <;> exact Iff.rfl

theorem suffix_operandWith {inner? : Option (Reader Expr)} (h : ∀ inner ∈ inner?, Local inner)
    (hends : Ends (operandWith inner? tokens) reason? rest) : ∃ used, tokens = used ++ rest := by
  unfold operandWith at hends
  split at hends
  · cases inner? with
    | none => exact ⟨[], hends.2⟩
    | some inner => exact (local_parenthesizedWith (h inner rfl)).suffix hends
  · cases inner? with
    | none => exact ⟨[], hends.2⟩
    | some inner => exact (local_blockWith (h inner rfl)).suffix (ends_map_iff.mp hends)
  · unfold require at hends
    split at hends
    · next read hread =>
      obtain ⟨token, htoken, -⟩ := eq_append_of_next?_eq_some hread
      exact ⟨[token], hends.2 ▸ htoken⟩
    · exact ⟨[], hends.2⟩

/-- An opening that is one too many is left where it is, so the next token is an opening as well. -/
theorem ends_operandWith_none {tokens' : List Token} {kind : Kind}
    (hi : tokens = used ++ rest) (hj : tokens' = used' ++ rest')
    (hkinds : used.map Token.kind = used'.map Token.kind)
    (hunnoticed : Unnoticed reason? rest rest') (hkind : nextKind? tokens = some kind)
    (hopening : IsOpening kind)
    (hends : Ends (operandWith none tokens) reason? rest) :
    Ends (operandWith none tokens') reason? rest' := by
  rw [operandWith_none_of_isOpening hkind hopening] at hends
  obtain ⟨rfl, hrest⟩ := hends
  change tokens = rest at hrest
  rw [hrest, List.self_eq_append_left] at hi
  subst hi
  obtain rfl := List.map_eq_nil_iff.mp hkinds.symm
  have hsame : nextKind? rest = nextKind? rest' :=
    hunnoticed.resolve_right fun hother ↦ hother.1 rfl
  change tokens' = rest' at hj
  rw [hj, operandWith_none_of_isOpening (hsame ▸ hrest ▸ hkind) hopening]
  exact ⟨rfl, rfl⟩

/-- If the next token is no opening, the other sequence begins with a token of the same kind. -/
theorem nextKind?_eq_of_not_isOpening {tokens' : List Token}
    (hi : tokens = used ++ rest) (hj : tokens' = used' ++ rest')
    (hkinds : used.map Token.kind = used'.map Token.kind)
    (hunnoticed : Unnoticed reason? rest rest')
    (hopening : ¬ ∃ kind ∈ nextKind? tokens, IsOpening kind) :
    nextKind? tokens = nextKind? tokens' := by
  subst hi hj
  by_cases hused : used = []
  · subst hused
    obtain rfl := List.map_eq_nil_iff.mp hkinds.symm
    exact hunnoticed.resolve_right fun hother ↦ hopening hother.2.1
  · exact nextKind?_append_eq hused hkinds

/-- The kind of the first token decides in which way an operand is read. If nothing is used up, an
opening has been found to be one too many, or there is no operand. -/
theorem local_operandWith {inner? : Option (Reader Expr)} (h : ∀ inner ∈ inner?, Local inner) :
    Local (operandWith inner?) := by
  refine ⟨suffix_operandWith h, ?_⟩
  intro tokens tokens' reason? used used' rest rest' hi hj hkinds hunnoticed hends
  change tokens = used ++ rest at hi
  change tokens' = used' ++ rest' at hj
  by_cases hopening : ∃ kind ∈ nextKind? tokens, IsOpening kind
  · obtain ⟨kind, hkind, hopening⟩ := hopening
    cases inner? with
    | none => exact ends_operandWith_none hi hj hkinds hunnoticed hkind hopening hends
    | some inner =>
      have hinner := h inner rfl
      -- Where the opening has been used up, both begin with it.
      have hboth (hlt : rest.length < tokens.length) : nextKind? tokens' = some kind := by
        have hused : used ≠ [] := by
          rintro rfl
          exact absurd (congrArg List.length hi) (Nat.ne_of_gt hlt)
        rw [← hkind, hi, hj, nextKind?_append_eq hused hkinds]
      rcases hopening with rfl | rfl
      · rw [operandWith_of_leftParen hkind] at hends
        have hkind' := hboth (length_lt_of_ends_bind (looksAhead_inParentheses hinner) hkind hends)
        rw [operandWith_of_leftParen hkind']
        exact (local_parenthesizedWith hinner).follows hi hj hkinds hunnoticed hends
      · rw [operandWith_of_leftBracket hkind, ends_map_iff] at hends
        have hkind' := hboth (length_lt_of_ends_bind (looksAhead_inBrackets hinner) hkind hends)
        rw [operandWith_of_leftBracket hkind', ends_map_iff]
        exact (local_blockWith hinner).follows hi hj hkinds hunnoticed hends
  · have hsame := nextKind?_eq_of_not_isOpening hi hj hkinds hunnoticed hopening
    have hnone : ∀ kind ∈ nextKind? tokens, ¬ IsOpening kind :=
      fun kind hkind hopens ↦ hopening ⟨kind, hkind, hopens⟩
    rw [operandWith_of_not_isOpening hnone] at hends
    rw [operandWith_of_not_isOpening (hsame ▸ hnone)]
    exact ends_requireAtom hi hj hkinds hsame hends

/-- However deep it may go, an operand is read with one token ahead. -/
theorem local_operand (depth : Nat) : Local (operand depth) := by
  induction depth with
  | zero => exact local_operandWith fun inner hinner ↦ nomatch hinner
  | succ depth ih =>
    refine local_operandWith fun inner hinner ↦ ?_
    rwa [← Option.some.inj hinner]

/-! ### Methods, classes and programs -/

theorem parts?_eq_none_iff : parts? tokens = none ↔ next? part? tokens = none := by
  cases tokens with
  | nil => exact ⟨fun _ ↦ rfl, fun _ ↦ rfl⟩
  | cons token rest =>
    rw [next?, Option.map_eq_none_iff, parts?]
    cases part? token with
    | none => exact ⟨fun _ ↦ rfl, fun _ ↦ rfl⟩
    | some part => cases parts? rest <;> simp

/-- Parts of a selector are taken as long as they come. -/
theorem next?_part?_of_parts?_eq_some {read : Read (List String) tokens}
    (h : parts? tokens = some read) : next? part? read.rest = none := by
  induction tokens with
  | nil => cases h
  | cons token rest ih =>
    unfold parts? at h
    split at h
    · cases h
    · split at h
      · next hnone =>
        cases h
        exact parts?_eq_none_iff.mp hnone
      · next others hothers =>
        cases h
        exact ih hothers

theorem head?_of_next?_eq_none {value? : Token → Option α} (h : next? value? tokens = none) :
    ∀ token ∈ tokens.head?, value? token = none := by
  intro token htoken
  obtain ⟨more, rfl⟩ := List.head?_eq_some_iff.mp htoken
  exact Option.map_eq_none_iff.mp h

/-- Reads a selector that has arguments. -/
def headingOfParts : Reader (String × Nat) := fun tokens ↦
  match parts? tokens with
  | some parts => .ok (parts.map fun parts ↦ (String.join parts, parts.length))
  | none => .error ⟨.expected "method selector", tokens⟩

theorem suffix_headingOfParts (hends : Ends (headingOfParts tokens) reason? rest) :
    ∃ used, tokens = used ++ rest := by
  unfold headingOfParts at hends
  split at hends
  · next parts hparts =>
    obtain ⟨used, hused, -⟩ := sound_parts? hparts
    exact ⟨used, hends.2 ▸ hused⟩
  · exact ⟨[], hends.2⟩

theorem local_headingOfParts : Local headingOfParts := by
  refine ⟨suffix_headingOfParts, ?_⟩
  intro tokens tokens' reason? used used' rest rest' hi hj hkinds hunnoticed hends
  change tokens = used ++ rest at hi
  change tokens' = used' ++ rest' at hj
  unfold headingOfParts at hends ⊢
  cases hparts : parts? tokens with
  | none =>
    rw [hparts] at hends
    obtain ⟨hreason, hrest⟩ := hends
    rw [← hrest, List.self_eq_append_left] at hi
    subst hi
    obtain rfl := List.map_eq_nil_iff.mp hkinds.symm
    change tokens = rest at hrest
    change tokens' = rest' at hj
    have hnone := isTest_part?.next?_eq_none hunnoticed (hrest ▸ parts?_eq_none_iff.mp hparts)
    rw [hj, parts?_eq_none_iff.mpr hnone]
    exact ⟨hreason, rfl⟩
  | some parts =>
    rw [hparts] at hends
    obtain ⟨rfl, hrest⟩ := hends
    change parts.rest = rest at hrest
    obtain ⟨taken, htaken, htakenKinds, hne⟩ := sound_parts? hparts
    rw [hrest] at htaken
    obtain rfl : used = taken := List.append_cancel_right (hi.symm.trans htaken)
    obtain ⟨first, others, hvalue⟩ := List.exists_cons_of_ne_nil hne
    have hnone := isTest_part?.next?_eq_none hunnoticed
      (hrest ▸ next?_part?_of_parts?_eq_some hparts)
    obtain ⟨read', hread', hrest', -⟩ := reads_parts? first others
      (head?_of_next?_eq_none hnone) hj (by rw [← hkinds, htakenKinds, hvalue])
    rw [hread']
    exact ⟨rfl, hrest'⟩

theorem local_heading : Local heading := by
  refine .choose isTest_name? (fun _ name ↦ .ok (name.map fun name ↦ (name.name, 0)))
    headingOfParts (.done _ fun _ ↦ rfl) local_headingOfParts ?_ ?_
  · intro tokens read hread
    change next? name? tokens = some read at hread
    rw [heading, hread]
  · intro tokens hnone
    change next? name? tokens = none at hnone
    rw [heading, hnone]
    rfl

theorem local_method : Local method := by
  refine .bind local_heading ?_
  exact .bind ((local_blockWith (local_operand maxNesting)).comap _) (.done _ fun _ ↦ rfl)

theorem local_classDef : Local classDef := by
  refine .bind (local_requireKind (.keyword .classWord) (by decide)) ?_
  refine .bind ((local_require "class identifier" isTest_ownClass?).comap _) ?_
  refine .bind ((local_requireKind (.mark .colon) Kind.noConfusion).comap _) ?_
  refine .bind ((local_require "parent class name" isTest_anyClass?).comap _) ?_
  refine .bind ((local_requireKind (.mark .leftBrace) Kind.noConfusion).comap _) ?_
  exact .bind ((local_manyThen local_method).comap _) (.done _ fun _ ↦ rfl)

theorem exists_of_ends_some {reason : Reason} {result : Except Stop (Read α tokens)}
    (h : Ends result (some reason) rest) : result = .error ⟨reason, rest⟩ := by
  cases result with
  | error stop =>
    obtain ⟨hreason, rfl⟩ := h
    rw [Option.some.inj hreason]
  | ok read => cases h.1

/-- Steps that stop do so at the first step or at a later one. -/
theorem exists_of_bind_eq_error {δ ε : Type} {first : Except Stop δ} {next : δ → Except Stop ε}
    {stop : Stop} (h : (first >>= next) = .error stop) :
    first = .error stop ∨ ∃ value, first = .ok value ∧ next value = .error stop := by
  cases first with
  | error other => exact .inl (by rw [← Except.error.inj h])
  | ok value => exact .inr ⟨value, rfl, h⟩

/-- A program cannot be read because one of its classes cannot, or those behind its first one. -/
theorem exists_of_classes_eq_error {stop : Stop} (h : classes tokens = .error stop) :
    tokens ≠ [] ∧ (classDef tokens = .error stop ∨
      ∃ first, classDef tokens = .ok first ∧ classes first.rest = .error stop) := by
  cases tokens with
  | nil => rw [classes] at h; cases h
  | cons token more =>
    rw [classes] at h
    refine ⟨List.cons_ne_nil _ _, (exists_of_bind_eq_error h).imp id ?_⟩
    rintro ⟨first, hfirst, hmore⟩
    rcases exists_of_bind_eq_error hmore with hothers | ⟨others, -, hdone⟩
    · exact ⟨first, hfirst, hothers⟩
    · cases hdone

theorem classes_eq_error_of_classDef {stop : Stop} (hne : tokens ≠ [])
    (h : classDef tokens = .error stop) : classes tokens = .error stop := by
  obtain ⟨token, more, rfl⟩ := List.exists_cons_of_ne_nil hne
  rw [classes, h]
  rfl

theorem Read.ne_nil (read : Read α tokens) : tokens ≠ [] := by
  rintro rfl
  exact absurd read.shorter (Nat.not_lt_zero _)

/-- A class is read, and then those that come behind it. -/
theorem classes_of_classDef_eq_ok {first : Read ClassDef tokens} (h : classDef tokens = .ok first) :
    classes tokens = (classes first.rest).map (first.value :: ·) := by
  obtain ⟨token, rest, rfl⟩ := List.exists_cons_of_ne_nil first.ne_nil
  rw [classes, h]
  change (classes first.rest >>= fun others ↦ pure (first.value :: others)) = _
  cases classes first.rest <;> rfl

theorem classes_eq_error_of_rest {stop : Stop} {first : Read ClassDef tokens}
    (hfirst : classDef tokens = .ok first) (h : classes first.rest = .error stop) :
    classes tokens = .error stop := by
  rw [classes_of_classDef_eq_ok hfirst, h]
  rfl

theorem ends_of_eq_error {result : Except Stop (Read α tokens)} {stop : Stop}
    (h : result = .error stop) : Ends result (some stop.reason) stop.rest := by
  rw [h]
  exact ⟨rfl, rfl⟩

theorem ends_of_eq_ok {result : Except Stop (Read α tokens)} {read : Read α tokens}
    (h : result = .ok read) : Ends result none read.rest := by
  rw [h]
  exact ⟨rfl, rfl⟩

/-- What is left when a program cannot be read is the last part of its tokens. -/
theorem suffix_of_classes_eq_error {stop : Stop} (h : classes tokens = .error stop) :
    ∃ used, tokens = used ++ stop.rest := by
  induction hlength : tokens.length using Nat.strongRecOn generalizing tokens with
  | _ length ih =>
    obtain ⟨-, hfirst | ⟨first, hfirst, hothers⟩⟩ := exists_of_classes_eq_error h
    · exact local_classDef.suffix (ends_of_eq_error hfirst)
    · obtain ⟨front, hfront⟩ := local_classDef.suffix (ends_of_eq_ok hfirst)
      obtain ⟨back, hback⟩ := ih _ (hlength ▸ first.shorter) hothers rfl
      exact ⟨front ++ back, eq_append_trans hfront hback⟩

theorem Unnoticed.ne_nil (h : Unnoticed reason? rest rest') (hne : rest ≠ []) : rest' ≠ [] := by
  rintro rfl
  rcases h with hkind | ⟨-, -, hnil⟩
  · exact hne (List.head?_eq_none_iff.mp (Option.map_eq_none_iff.mp hkind))
  · cases hnil

/-- If a program cannot be read, neither can one that agrees with it up to the place at which the
reading stops, and it stops at the same place. -/
theorem classes_eq_error_of_unnoticed {reason : Reason}
    (hkinds : used.map Token.kind = used'.map Token.kind)
    (hunnoticed : Unnoticed (some reason) rest rest')
    (h : classes (used ++ rest) = .error ⟨reason, rest⟩) :
    classes (used' ++ rest') = .error ⟨reason, rest'⟩ := by
  induction hlength : used.length using Nat.strongRecOn generalizing used used' with
  | _ length ih =>
    obtain ⟨hne, hfirst | ⟨first, hfirst, hothers⟩⟩ := exists_of_classes_eq_error h
    · have hends := local_classDef.follows (i := used ++ rest) (j := used' ++ rest') rfl rfl hkinds
        hunnoticed (ends_of_eq_error hfirst)
      exact classes_eq_error_of_classDef ((hunnoticed.ahead hkinds).ne_nil hne)
        (exists_of_ends_some hends)
    · obtain ⟨front, hfront⟩ := local_classDef.suffix (ends_of_eq_ok hfirst)
      obtain ⟨back, hback⟩ := suffix_of_classes_eq_error hothers
      change first.rest = back ++ rest at hback
      obtain rfl : used = front ++ back :=
        List.append_cancel_right (eq_append_trans hfront hback)
      rw [List.map_append] at hkinds
      obtain ⟨front', back', rfl, hfrontKinds, hbackKinds⟩ := List.map_eq_append_iff.mp hkinds.symm
      have hends := local_classDef.follows (i := front ++ back ++ rest)
        (j := front' ++ back' ++ rest') (List.append_assoc ..) (List.append_assoc ..)
        hfrontKinds.symm (hunnoticed.ahead hbackKinds.symm) (hback ▸ ends_of_eq_ok hfirst)
      obtain ⟨first', hfirst', hrest'⟩ := exists_of_ends_none hends
      refine classes_eq_error_of_rest hfirst' ?_
      rw [hrest']
      refine ih _ ?_ hbackKinds.symm (hback ▸ hothers) rfl
      have hshorter := first.shorter
      rw [hback] at hshorter
      simp only [List.length_append] at hshorter hlength
      omega

end Sol25.Reading
