import Sol25.Proofs.Grammar.Cursor
import Sol25.Proofs.Grammar.FirstError

/-!
# A reader that is asked again and again

A session can be asked for a program any number of times, and a fault does not end it.
`runs_ofTokens` says what holds however often it has been asked, of a session and of the cursor that
reads in place beside it: they answer alike and stay in the same place (`Mirrors`). Between two
calls no level is open. The place is within the tokens, never moves back and never gets over an end
of the input, of which there may be several. The answer is that of a fresh cursor in front of the
tokens from there on, so what lies behind has no influence, though the cursor looks back to close a
span. Only the description stems from the beginning: it awaits the first program that is read
without a fault. From then on each program is empty.

The tokens and the description are arbitrary. Those that a text is divided into, with its first
comment, are one case (`Session.ofText`).
-/

set_option autoImplicit false
set_option relaxedAutoImplicit false

namespace Sol25

open Reading
open Token (Kind)

/-! ### Sessions -/

namespace Session

variable {session : Session}

/-- A session in front of tokens that come with a description. -/
def start (tokens : List Token) (description? : Option String) : Session :=
  { ofTokens tokens with description? := description? }

/-- The session when it has been asked for so many programs. -/
def after (session : Session) : (calls : Nat) → Session
  | 0 => session
  | calls + 1 => (session.after calls).next.2

/-- A session with the same tokens ahead, but without a description. -/
def undescribed (session : Session) : Session := { session with description? := none }

/-- The description has no influence on what is read. -/
theorem next_eq_map_undescribed (session : Session) :
    session.next.1 = session.undescribed.next.1.map
      fun program ↦ { program with description? := session.description? } := by
  rw [next, next, undescribed]
  cases Reading.classes session.ahead <;> rfl

theorem next_ne_unlocated (session : Session) (cause : Failure) :
    session.next.1 ≠ .error (.unlocated cause) := by
  rw [next]
  cases Reading.classes session.ahead with
  | ok classes =>
    intro heq
    cases heq
  | error stop => cases hreason : stop.reason <;> simp [fault, hreason]

/-- After a fault the description still awaits its program. -/
theorem description?_next_of_not_isOk (h : ¬ session.next.1.isOk) :
    session.next.2.description? = session.description? := by
  rw [next] at h ⊢
  cases hclasses : Reading.classes session.ahead with
  | ok classes => exact absurd rfl (hclasses ▸ h)
  | error stop => rfl

/-- There is nothing more to come. -/
structure Done (session : Session) : Prop where
  ahead : session.ahead = []
  description : session.description? = none

theorem done_next_of_isOk (h : session.next.1.isOk) : session.next.2.Done := by
  rw [next] at h ⊢
  cases hclasses : Reading.classes session.ahead with
  | ok classes => exact ⟨rfl, rfl⟩
  | error stop =>
    rw [hclasses] at h
    exact absurd h Bool.false_ne_true

theorem Done.next (h : session.Done) : session.next = (.ok ⟨[], none⟩, session) := by
  obtain ⟨ahead, finish, description?⟩ := session
  obtain ⟨rfl, rfl⟩ : ahead = [] ∧ description? = none := ⟨h.ahead, h.description⟩
  rw [Session.next, Reading.classes]

/-- Once a program has been read there is nothing more to come. -/
theorem done_after {earlier calls : Nat} (hlt : earlier < calls)
    (h : (session.after earlier).next.1.isOk) : (session.after calls).Done := by
  induction calls, hlt using Nat.le_induction with
  | base => exact done_next_of_isOk h
  | succ calls _ ih =>
    show (session.after calls).next.2.Done
    rw [ih.next]
    exact ih

theorem description?_after {calls : Nat}
    (h : ∀ earlier < calls, ¬ (session.after earlier).next.1.isOk) :
    (session.after calls).description? = session.description? := by
  induction calls with
  | zero => rfl
  | succ calls ih =>
    exact (description?_next_of_not_isOk (h calls (Nat.lt_succ_self calls))).trans
      (ih fun earlier hlt ↦ h earlier (Nat.lt_succ_of_lt hlt))

end Session

namespace Cursor

variable {cursor : Cursor} {session : Session} {finish : Span} {ahead : List Token}

/-- A cursor at the first of these tokens, behind which the end of the input is put if need be. -/
def ofTokens (tokens : List Token) (description? : Option String) : Cursor :=
  ⟨Session.withEnd tokens, 0, 0, description?⟩

/-- The cursor when it has been asked for so many programs. -/
def after (cursor : Cursor) : (calls : Nat) → Cursor
  | 0 => cursor
  | calls + 1 => (cursor.after calls).next.2

theorem Stands.length_lt (h : cursor.Stands finish ahead) :
    cursor.position + ahead.length < cursor.tokens.length := by
  obtain ⟨back, hdrop⟩ := h.drop_eq
  have hlength := congrArg List.length hdrop
  simp only [List.length_drop, List.length_append, List.length_cons] at hlength
  omega

/-- Between two calls a cursor and a session are in the same place. -/
structure Mirrors (cursor : Cursor) (session : Session) : Prop where
  stands : cursor.Stands session.finish session.ahead
  depth : cursor.depth = 0
  description : cursor.description? = session.description?

theorem mirrors_ofTokens (tokens : List Token) (description? : Option String) :
    (ofTokens tokens description?).Mirrors (Session.start tokens description?) := by
  obtain ⟨back, hback⟩ := Session.ahead_append_finish tokens
  refine ⟨⟨⟨back, ?_⟩, List.forall_mem_nil _, fun token ↦ Session.kind_ne_eof_of_mem_ahead⟩,
    rfl, rfl⟩
  rw [List.append_assoc] at hback
  exact hback.symm

theorem Stands.fault_eq (h : cursor.Stands session.finish session.ahead) (reason : Reason) :
    cursor.fault reason = session.fault reason := by
  have hcurrent : cursor.current = session.nextToken := h.current_eq
  cases reason <;> rw [Cursor.fault, Session.fault, hcurrent]

/-- One call: the answers are the same, and so are the places afterwards. -/
theorem Mirrors.next (h : cursor.Mirrors session) :
    cursor.next.1 = session.next.1 ∧ cursor.next.2.Mirrors session.next.2 ∧
      cursor.next.2.tokens = cursor.tokens ∧ cursor.position ≤ cursor.next.2.position := by
  have hfuel : session.ahead.length < cursor.tokens.length + 1 := by
    have hlength := h.stands.length_lt
    omega
  obtain ⟨⟨htokens, hposition, hdepth, hdescription⟩, hread, hstopped⟩ :=
    agrees_classes h.stands h.depth hfuel
  rw [Cursor.next, Session.next]
  generalize classes (cursor.tokens.length + 1) cursor = outcome at *
  obtain ⟨answer, moved⟩ := outcome
  cases hclasses : Reading.classes session.ahead with
  | ok read =>
    obtain ⟨_, rfl : answer = .ok _, rfl, hstands⟩ := hread read hclasses
    refine ⟨?_, ⟨hstands.of_eq rfl rfl, hdepth.trans h.depth, rfl⟩, htokens, hposition⟩
    show Except.ok (Program.mk _ moved.description?) = .ok ⟨_, session.description?⟩
    rw [hdescription, h.description]
  | error stop =>
    obtain ⟨rfl : answer = .error (moved.fault stop.reason), hstands⟩ := hstopped stop hclasses
    have hfault : moved.fault stop.reason = { session with ahead := stop.rest }.fault stop.reason :=
      Stands.fault_eq hstands _
    exact ⟨congrArg Except.error hfault,
      ⟨hstands, hdepth.trans h.depth, hdescription.trans h.description⟩, htokens, hposition⟩

/-- A session in front of what is left has the same tokens ahead. -/
theorem Stands.ofTokens_drop (h : cursor.Stands finish ahead) :
    Session.ofTokens (cursor.tokens.drop cursor.position) = ⟨ahead, finish, none⟩ := by
  obtain ⟨back, hdrop⟩ := h.drop_eq
  have hahead : ∀ token ∈ ahead, (!Session.isEnd token) = true := fun token htoken ↦ by
    simpa [Session.isEnd] using h.noEnd token htoken
  have hfind : (ahead ++ ⟨.eof, finish⟩ :: back).find? Session.isEnd = some ⟨.eof, finish⟩ :=
    List.find?_eq_some_iff_append.mpr ⟨rfl, ahead, back, rfl, hahead⟩
  rw [Session.ofTokens, Session.finishOf, hdrop, hfind, List.takeWhile_append_of_pos hahead,
    List.takeWhile_cons_of_neg (by simp [Session.isEnd]), List.append_nil]

theorem Mirrors.next_eq_fresh (h : cursor.Mirrors session) :
    cursor.next.1 = (ofTokens (cursor.tokens.drop cursor.position) none).next.1.map
      fun program ↦ { program with description? := cursor.description? } := by
  have hfresh := (mirrors_ofTokens (cursor.tokens.drop cursor.position) none).next.1
  have hleft : Session.start (cursor.tokens.drop cursor.position) none = session.undescribed := by
    rw [Session.start, h.stands.ofTokens_drop]
    rfl
  rw [h.next.1, hfresh, hleft, h.description]
  exact session.next_eq_map_undescribed

/-! ### What holds in every run -/

theorem mirrors_after (tokens : List Token) (description? : Option String) (calls : Nat) :
    ((ofTokens tokens description?).after calls).Mirrors
        ((Session.start tokens description?).after calls) ∧
      ((ofTokens tokens description?).after calls).tokens = Session.withEnd tokens := by
  induction calls with
  | zero => exact ⟨mirrors_ofTokens tokens description?, rfl⟩
  | succ calls ih =>
    obtain ⟨hmirrors, htokens⟩ := ih
    obtain ⟨-, hnext, hkept, -⟩ := hmirrors.next
    exact ⟨hnext, hkept.trans htokens⟩

/-- What holds of a cursor that has been asked for so many programs since it stood at the first of
these tokens with this description. -/
structure Runs (tokens : List Token) (description? : Option String) (calls : Nat)
    (cursor : Cursor) : Prop where
  tokens_eq : cursor.tokens = Session.withEnd tokens
  depth : cursor.depth = 0
  position_lt : cursor.position < cursor.tokens.length
  position_le : cursor.position ≤ cursor.next.2.position
  behind : ∀ token ∈ cursor.tokens.take cursor.position, token.kind ≠ .eof
  next_eq : cursor.next.1 = ((Session.start tokens description?).after calls).next.1
  terminates : cursor.next.1 ≠ .error outOfFuel
  fresh : cursor.next.1 = (ofTokens (cursor.tokens.drop cursor.position) none).next.1.map
    fun program ↦ { program with description? := cursor.description? }
  awaiting : (∀ earlier < calls, ¬ ((ofTokens tokens description?).after earlier).next.1.isOk) →
    cursor.description? = description?
  finished : ∀ earlier < calls, ((ofTokens tokens description?).after earlier).next.1.isOk →
    cursor.description? = none ∧ cursor.next.1 = .ok ⟨[], none⟩

theorem runs_ofTokens (tokens : List Token) (description? : Option String) (calls : Nat) :
    Runs tokens description? calls ((ofTokens tokens description?).after calls) := by
  obtain ⟨hmirrors, htokens⟩ := mirrors_after tokens description? calls
  obtain ⟨hnext, -, -, hposition⟩ := hmirrors.next
  have hanswers (earlier : Nat) :
      ((ofTokens tokens description?).after earlier).next.1 =
        ((Session.start tokens description?).after earlier).next.1 :=
    (mirrors_after tokens description? earlier).1.next.1
  refine ⟨htokens, hmirrors.depth, ?_, hposition, hmirrors.stands.behind, hnext, ?_,
    hmirrors.next_eq_fresh, fun hfaults ↦ ?_, fun earlier hlt hread ↦ ?_⟩
  · have hlength := hmirrors.stands.length_lt
    omega
  · rw [hnext]
    exact Session.next_ne_unlocated _ _
  · rw [hmirrors.description]
    exact Session.description?_after fun earlier hlt ↦ hanswers earlier ▸ hfaults earlier hlt
  · have hdone := Session.done_after hlt (hanswers earlier ▸ hread)
    exact ⟨hmirrors.description.trans hdone.description, by rw [hnext, hdone.next]⟩

/-- Behind a word too many the next call reads a class, for which the description has waited. -/
example :
    let kinds : List Kind := [.keyword .classWord, .keyword .classWord, .classIdent "A",
      .mark .colon, .classIdent "B", .mark .leftBrace, .mark .rightBrace]
    let start := ofTokens (kinds.map (Token.mk · Span.nowhere)) (some "of A")
    start.next.1.isOk = false ∧
      ((start.after 1).next.1.toOption.bind Program.description?) = some "of A" := by
  decide

end Cursor

end Sol25
