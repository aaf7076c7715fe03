import Mathlib.Data.List.TakeWhile
import Sol25.Proofs.Grammar.Exact
import Sol25.Proofs.Grammar.Stopping

/-!
# The token at fault is the first that cannot continue

`exists_stopsAt_of_next_eq_error` is the whole contract of a syntax fault. The session has used up
the tokens in front of one of them (`withEnd` puts the end of the input behind them, if need be) and
the fault carries the span of that token. The kinds in front of it begin something that can be read
(`Viable`); with its own kind behind them they do not, and at the end of the input they are nothing
that can be read (`Accepts`) by themselves. The fault is that of nesting too deep exactly if the
token is an opening that stands where an operand may begin and as many levels are open as may be
(`TooDeep`).

The completion comes from `Reading.completable_classes`: what has been used up begins something that
the grammar derives. That nothing that begins with the token at fault can be read is
`Reading.classes_eq_error_of_unnoticed`: the reading would stop at the same place.
-/

set_option autoImplicit false
set_option relaxedAutoImplicit false

namespace Sol25.Session

open Grammar Reading
open Token (Kind)

variable {tokens front : List Token} {kinds more : List Kind}

/-! ### What a session can read -/

/-- A session in front of tokens of these kinds reads a program. -/
def Accepts (kinds : List Kind) : Prop :=
  ∃ tokens program, tokens.map Token.kind = kinds ∧ (ofTokens tokens).next.1 = .ok program

/-- Something that begins with these kinds can be read. -/
def Viable (kinds : List Kind) : Prop := ∃ more, Accepts (kinds ++ more)

/-- What stands behind these kinds opens a level where an operand may begin, as `nil` may stand
there as well, and besides the body of a method as many levels are open as may be. -/
structure TooDeep (front : List Kind) (kind : Kind) : Prop where
  opening : IsOpening kind
  operand : Viable (front ++ [.keyword .nilWord])
  full : level front = 1 + 128

/-- The tokens with the end of the input behind them, unless they end with it as they are. -/
def withEnd (tokens : List Token) : List Token :=
  match tokens.getLast? with
  | none => [⟨.eof, Span.nowhere⟩]
  | some last =>
    if last.kind = .eof then tokens else tokens ++ [⟨.eof, ⟨last.span.stop, last.span.stop⟩⟩]

theorem prefix_withEnd (tokens : List Token) : tokens <+: withEnd tokens := by
  unfold withEnd
  split
  · next hlast => simp [List.getLast?_eq_none_iff.mp hlast]
  · split
    · exact List.prefix_rfl
    · exact List.prefix_append ..

theorem kind_ne_eof_of_mem_ahead {token : Token} (h : token ∈ (ofTokens tokens).ahead) :
    token.kind ≠ .eof := by
  have hall := List.all_eq_true.mp (List.all_takeWhile (l := tokens) (p := (!isEnd ·))) token h
  simpa [isEnd] using hall

theorem ahead_ofTokens_eq_self (h : ∀ token ∈ tokens, token.kind ≠ .eof) :
    (ofTokens tokens).ahead = tokens := by
  show tokens.takeWhile (!isEnd ·) = tokens
  rw [List.takeWhile_eq_self_iff]
  simpa [isEnd] using h

/-- The end of the input stands right behind the tokens that are ahead. -/
theorem ahead_append_finish (tokens : List Token) :
    (ofTokens tokens).ahead ++ [⟨.eof, (ofTokens tokens).finish⟩] <+: withEnd tokens := by
  change (ofTokens tokens).ahead ++ [⟨.eof, finishOf tokens⟩] <+: withEnd tokens
  rw [finishOf]
  split
  · next token htoken =>
    obtain ⟨hend, front, back, rfl, hfront⟩ := List.find?_eq_some_iff_append.mp htoken
    have hahead : (ofTokens (front ++ token :: back)).ahead = front := by
      show List.takeWhile _ _ = _
      rw [List.takeWhile_append_of_pos hfront, List.takeWhile_cons_of_neg (by simp [hend]),
        List.append_nil]
    have hkind : token.kind = .eof := of_decide_eq_true hend
    rw [hahead, ← hkind]
    refine List.IsPrefix.trans ⟨back, ?_⟩ (prefix_withEnd _)
    rw [List.append_assoc]
    rfl
  · next hnone =>
    have hahead : (ofTokens tokens).ahead = tokens :=
      ahead_ofTokens_eq_self fun token htoken ↦ by
        simpa [isEnd] using List.find?_eq_none.mp hnone token htoken
    rw [hahead, withEnd]
    cases hlast : tokens.getLast? with
    | none => simp [List.getLast?_eq_none_iff.mp hlast]
    | some last =>
      have hkind : last.kind ≠ .eof := by
        simpa [isEnd] using List.find?_eq_none.mp hnone last (List.mem_of_getLast? hlast)
      simp [hkind]

/-- What is derived from kinds of token can be read from them. -/
theorem accepts_of_derives {program : Program} (h : Derives maxNesting kinds program) :
    Accepts kinds := by
  have hmap : (kinds.map (Token.mk · Span.nowhere)).map Token.kind = kinds := by
    rw [List.map_map]
    exact List.map_id kinds
  obtain ⟨tree, rfl, -, -⟩ := id h
  have hahead : (ofTokens (tree.kinds.map (Token.mk · Span.nowhere))).ahead =
      tree.kinds.map (Token.mk · Span.nowhere) := by
    refine ahead_ofTokens_eq_self fun token htoken ↦ ?_
    obtain ⟨kind, hkind, rfl⟩ := List.mem_map.mp htoken
    exact fun heq ↦ (balanced_program tree).noEnd (heq ▸ hkind)
  rw [← hmap] at h
  obtain ⟨declared, hclasses, -⟩ := exists_classes_eq_ok_of_derives h
  exact ⟨_, ⟨declared, none⟩, hmap, next_eq_ok_iff.mpr ⟨hahead.symm ▸ hclasses, rfl⟩⟩

/-! ### Where a session stops -/

/-- The next kind that a session in front of these kinds will see: it takes the end of the input for
no token. -/
def seen? (kinds : List Kind) : Option Kind := kinds.head?.filter (· ≠ .eof)

/-- A session that has used up kinds among which is no end goes on with what is behind them. -/
theorem exists_ahead_eq_append (hfront : ∀ token ∈ front, token.kind ≠ .eof)
    (hkinds : tokens.map Token.kind = front.map Token.kind ++ kinds) :
    ∃ used rest, (ofTokens tokens).ahead = used ++ rest ∧
      front.map Token.kind = used.map Token.kind ∧ nextKind? rest = seen? kinds := by
  obtain ⟨used, back, rfl, hused, rfl⟩ := List.map_eq_append_iff.mp hkinds
  have hpass : ∀ token ∈ used, (!isEnd token) = true := by
    intro token htoken
    obtain ⟨twin, htwin, hkind⟩ := List.mem_map.mp (hused ▸ List.mem_map_of_mem htoken)
    simpa [isEnd, ← hkind] using hfront twin htwin
  refine ⟨used, back.takeWhile (!isEnd ·), List.takeWhile_append_of_pos hpass, hused.symm, ?_⟩
  cases back with
  | nil => rfl
  | cons token back =>
    by_cases hend : token.kind = .eof <;> simp [nextKind?, seen?, isEnd, Option.filter, hend]

/-- Nothing can be read that begins with what a stopped session has used up if the session would not
have noticed what comes behind it. -/
theorem not_accepts_of_unnoticed {rest : List Token} {reason : Reason}
    (hstop : classes (front ++ rest) = .error ⟨reason, rest⟩)
    (hfront : ∀ token ∈ front, token.kind ≠ .eof)
    (hunnoticed : ∀ rest', nextKind? rest' = seen? kinds → Unnoticed (some reason) rest rest') :
    ¬ Accepts (front.map Token.kind ++ kinds) := by
  rintro ⟨tokens, program, hkinds, hread⟩
  obtain ⟨used, rest', hahead, hused, hnext⟩ := exists_ahead_eq_append hfront hkinds
  have hclasses := (next_eq_ok_iff.mp hread).1
  rw [hahead, classes_eq_error_of_unnoticed hused (hunnoticed rest' hnext) hstop] at hclasses
  cases hclasses

/-- A session sees the kind of its next token, unless that is the end. -/
theorem seen?_nextToken_kind (session : Session)
    (h : ∀ token ∈ session.ahead, token.kind ≠ .eof) (more : List Kind) :
    seen? (session.nextToken.kind :: more) = nextKind? session.ahead := by
  obtain ⟨ahead, finish, description?⟩ := session
  cases ahead with
  | nil => rfl
  | cons token ahead =>
    have hend : token.kind ≠ .eof := h token List.mem_cons_self
    simp [seen?, nextToken, nextKind?, Option.filter, hend]

theorem append_nextToken_prefix {rest : List Token}
    (h : (ofTokens tokens).ahead = front ++ rest) :
    front ++ [({ ofTokens tokens with ahead := rest } : Session).nextToken] <+: withEnd tokens := by
  have hprefix := ahead_append_finish tokens
  rw [h] at hprefix
  refine List.IsPrefix.trans ?_ hprefix
  cases rest with
  | nil => simp [nextToken]
  | cons token rest => exact ⟨rest ++ [⟨.eof, (ofTokens tokens).finish⟩], by simp [nextToken]⟩

/-- A session complains about its depth where that is the fault of what stands there. -/
theorem reason_eq_tooDeep_iff (session : Session) {reason : Reason}
    (hfront : ∀ token ∈ front, token.kind ≠ .eof)
    (hrest : ∀ token ∈ session.ahead, token.kind ≠ .eof)
    (hstop : classes (front ++ session.ahead) = .error ⟨reason, session.ahead⟩)
    {program : Program} (hderives : Derives maxNesting (front.map Token.kind ++ more) program)
    (hlimit : AtLimit ⟨reason, session.ahead⟩ (1 + maxNesting) (front.map Token.kind) more) :
    reason = .tooDeep ↔ TooDeep (front.map Token.kind) session.nextToken.kind := by
  have hseen := seen?_nextToken_kind session hrest []
  constructor
  · intro hreason
    obtain ⟨⟨kind, hkind, hopening⟩, hnil, hlevel⟩ := hlimit hreason
    obtain ⟨further, rfl⟩ := List.head?_eq_some_iff.mp hnil
    obtain rfl : session.nextToken.kind = kind :=
      Option.some.inj (Option.filter_eq_some_iff.mp (hseen.trans hkind)).1
    refine ⟨hopening, ⟨further, ?_⟩, hlevel⟩
    rw [List.append_assoc]
    exact accepts_of_derives hderives
  · rintro ⟨hopening, ⟨further, hoperand⟩, -⟩
    by_contra hreason
    have hkind : nextKind? session.ahead = some session.nextToken.kind := by
      rw [← hseen]
      rcases hopening with hopening | hopening <;> rw [hopening] <;> rfl
    rw [List.append_assoc] at hoperand
    refine not_accepts_of_unnoticed hstop hfront (fun rest' hnext ↦ .inr ?_) hoperand
    exact ⟨fun hdeep ↦ hreason (Option.some.inj hdeep), ⟨_, hkind, hopening⟩, hnext⟩

/-- What the fault of a session in front of `tokens` says: behind the tokens `front` that have been
used up stands `token`, which cannot continue them. -/
structure StopsAt (tokens : List Token) (fault : Fault) (front : List Token) (token : Token) :
    Prop where
  used : (ofTokens tokens).ahead = front ++ (ofTokens tokens).next.2.ahead
  behind : front ++ [token] <+: withEnd tokens
  viable : Viable (front.map Token.kind)
  unfit : ¬ Viable (front.map Token.kind ++ [token.kind])
  unfinished : token.kind = .eof → ¬ Accepts (front.map Token.kind)
  fault :
    TooDeep (front.map Token.kind) token.kind ∧
        fault = .located (.nestingTooDeep 128) token.span ∨
      ¬ TooDeep (front.map Token.kind) token.kind ∧
        ∃ what, fault = .located (.unexpectedToken what token.kind.display) token.span

/-- A session that cannot read a program stops at the first token that cannot continue what stands
in front of it. -/
theorem exists_stopsAt_of_next_eq_error {tokens : List Token} {fault : Fault}
    (h : (ofTokens tokens).next.1 = .error fault) :
    ∃ front token, StopsAt tokens fault front token := by
  cases hclasses : classes (ofTokens tokens).ahead with
  | ok declared =>
    rw [next, hclasses] at h
    cases h
  | error stop =>
    obtain ⟨reason, rest⟩ := stop
    have hsession : (ofTokens tokens).next.2 = { ofTokens tokens with ahead := rest } := by
      rw [next, hclasses]
    rw [next, hclasses] at h
    obtain ⟨front, more, program, hahead, hderives, hlimit⟩ := completable_classes hclasses
    change (ofTokens tokens).ahead = front ++ rest at hahead
    have hends : ∀ token ∈ front ++ rest, token.kind ≠ .eof :=
      fun token htoken ↦ kind_ne_eof_of_mem_ahead (hahead ▸ htoken)
    obtain ⟨hfront, hrest⟩ := List.forall_mem_append.mp hends
    rw [hahead] at hclasses
    let stopped : Session := { ofTokens tokens with ahead := rest }
    have hdeep := reason_eq_tooDeep_iff stopped hfront hrest hclasses hderives hlimit
    refine ⟨front, stopped.nextToken, hsession ▸ hahead, append_nextToken_prefix hahead,
      ⟨more, accepts_of_derives hderives⟩, ?_, ?_, ?_⟩
    · rintro ⟨further, haccepts⟩
      rw [List.append_assoc] at haccepts
      refine not_accepts_of_unnoticed hclasses hfront (fun rest' hnext ↦ .inl ?_) haccepts
      rw [hnext]
      exact (seen?_nextToken_kind stopped hrest further).symm
    · intro hend haccepts
      rw [← List.append_nil (front.map Token.kind)] at haccepts
      refine not_accepts_of_unnoticed hclasses hfront (fun rest' hnext ↦ .inl ?_) haccepts
      rw [hnext, ← seen?_nextToken_kind stopped hrest [], hend]
      rfl
    · rw [← hdeep]
      obtain rfl := Except.error.inj h
      cases reason with
      | expected what => exact .inr ⟨by rintro ⟨⟩, what, rfl⟩
      | tooDeep => exact .inl ⟨rfl, rfl⟩

/-- Behind a lone `class` the end of the input is what cannot continue. -/
theorem stopsAt_end_behind_class_word :
    (ofTokens [⟨.keyword .classWord, ⟨0, 5⟩⟩]).next.1 =
        .error (.located (.unexpectedToken "class identifier" "end of input") ⟨5, 5⟩) ∧
      ∃ front token, StopsAt [⟨.keyword .classWord, ⟨0, 5⟩⟩]
        (.located (.unexpectedToken "class identifier" "end of input") ⟨5, 5⟩) front token := by
  have hclasses : classes [⟨.keyword .classWord, ⟨0, 5⟩⟩] =
      .error ⟨.expected "class identifier", []⟩ := by
    rw [classes]
    rfl
  have hstop : (ofTokens [⟨.keyword .classWord, ⟨0, 5⟩⟩]).next.1 =
      .error (.located (.unexpectedToken "class identifier" "end of input") ⟨5, 5⟩) := by
    rw [next, show (ofTokens [⟨.keyword .classWord, ⟨0, 5⟩⟩]).ahead =
      [⟨.keyword .classWord, ⟨0, 5⟩⟩] from rfl, hclasses]
    rfl
  exact ⟨hstop, exists_stopsAt_of_next_eq_error hstop⟩

end Sol25.Session
