import Sol25.Proofs.Lexis.Spelling

/-!
# What stands in a span

A span of a text is the place of some characters (`Stands`). It lies within the text, and the
characters are what is cut out there (`Span.slice`). When a text is split into lexemes, each token
stands where its lexeme was read (`Splits.placed`), and none begins before those in front of it
have ended (`Splits.ordered`). So the span that reaches from one token to a later one begins with
the former and ends with the latter (`exists_stands_merge`).
-/

set_option autoImplicit false
set_option relaxedAutoImplicit false

namespace Sol25

/-- The characters of a text that a span covers. -/
def Span.slice (span : Span) (text : List Char) : List Char :=
  (text.drop span.start).take (span.stop - span.start)

/-- The span lies within the text. -/
def Span.Within (span : Span) (text : List Char) : Prop :=
  span.start ≤ span.stop ∧ span.stop ≤ text.length

namespace Lexis

variable {text shown rest : List Char} {span : Span} {position last : Nat} {tokens : List Token}
  {comments : List (List Char)}

/-- These characters of the text have this span. -/
def Stands (text : List Char) (span : Span) (shown : List Char) : Prop :=
  ∃ front back, text = front ++ (shown ++ back) ∧
    span = ⟨front.length, front.length + shown.length⟩

theorem Stands.within (h : Stands text span shown) : span.Within text := by
  obtain ⟨front, back, rfl, rfl⟩ := h
  constructor
  · exact Nat.le_add_right _ _
  · simp only [List.length_append]
    omega

theorem Stands.slice_eq (h : Stands text span shown) : span.slice text = shown := by
  obtain ⟨front, back, rfl, rfl⟩ := h
  rw [Span.slice, List.drop_left, Nat.add_sub_cancel_left, List.take_left]

theorem Stands.isInfix (h : Stands text span shown) : shown <:+: text := by
  obtain ⟨front, back, rfl, -⟩ := h
  exact ⟨front, back, List.append_assoc ..⟩

/-- The token was read at its span. -/
def Placed (text : List Char) (token : Token) : Prop :=
  ∃ front lexeme following, text = front ++ (lexeme ++ following) ∧
    token.span = ⟨front.length, front.length + lexeme.length⟩ ∧
    IsLexeme token.kind lexeme following

theorem Placed.stands {token : Token} (h : Placed text token) :
    Stands text token.span (spelling token.kind) := by
  obtain ⟨front, lexeme, following, htext, hspan, hlexeme⟩ := h
  rw [← hlexeme.pattern.eq_spelling]
  exact ⟨front, following, htext, hspan⟩

theorem Placed.spelled {token : Token} (h : Placed text token) : Spelled token.kind := by
  obtain ⟨_, _, _, _, _, hlexeme⟩ := h
  exact hlexeme.spelled

/-- The lexeme of a token is what its span covers, and it is read as the token. -/
theorem Placed.isLexeme_slice {token : Token} (h : Placed text token) :
    IsLexeme token.kind (token.span.slice text) (text.drop token.span.stop) := by
  have hslice := h.stands.slice_eq
  obtain ⟨front, lexeme, following, rfl, hspan, hlexeme⟩ := h
  rw [hslice, ← hlexeme.pattern.eq_spelling, hspan]
  rw [← List.append_assoc, ← List.length_append, List.drop_left]
  exact hlexeme

/-- What is split off a text stands in front of the rest. -/
theorem Splits.exists_front (h : Splits position text tokens comments last rest) :
    ∃ front, text = front ++ rest ∧ last = position + front.length := by
  induction h with
  | done => exact ⟨[], rfl, rfl⟩
  | @blank _ _ c _ _ _ _ _ _ ih =>
    obtain ⟨front, rfl, rfl⟩ := ih
    exact ⟨c :: front, rfl, by rw [List.length_cons]; omega⟩
  | @comment _ _ body _ _ _ _ _ _ ih =>
    obtain ⟨front, rfl, rfl⟩ := ih
    refine ⟨'"' :: (body ++ '"' :: front), by simp, ?_⟩
    simp only [List.length_cons, List.length_append]
    omega
  | @lexeme _ _ _ lexeme _ _ _ _ _ _ ih =>
    obtain ⟨front, rfl, rfl⟩ := ih
    exact ⟨lexeme ++ front, (List.append_assoc ..).symm, by rw [List.length_append]; omega⟩

/-- Every token stands where it was read. -/
theorem Splits.placed (h : Splits position text tokens comments last rest) (front : List Char)
    (hfront : front.length = position) : ∀ token ∈ tokens, Placed (front ++ text) token := by
  induction h generalizing front with
  | done => exact List.forall_mem_nil _
  | @blank _ _ c _ _ _ _ _ _ ih =>
    have hplaced := ih (front ++ [c]) (by rw [List.length_append, hfront]; rfl)
    simpa using hplaced
  | @comment _ _ body _ _ _ _ _ _ ih =>
    have hplaced := ih (front ++ '"' :: (body ++ ['"'])) (by simp [hfront])
    simpa using hplaced
  | @lexeme _ _ _ lexeme _ _ _ _ hlexeme _ ih =>
    have hplaced := ih (front ++ lexeme) (by rw [List.length_append, hfront])
    rw [List.append_assoc] at hplaced
    exact List.forall_mem_cons.mpr ⟨⟨front, lexeme, _, rfl, by rw [hfront], hlexeme⟩, hplaced⟩

/-- Every comment stands somewhere in the text. -/
theorem Splits.isInfix_of_mem_comments (h : Splits position text tokens comments last rest) :
    ∀ body ∈ comments, body <:+: text := by
  induction h with
  | done => exact List.forall_mem_nil _
  | blank _ _ ih => exact fun body hbody ↦ (ih body hbody).trans (List.suffix_cons _ _).isInfix
  | @comment _ _ comment text _ _ _ _ _ ih =>
    have hrest : text <:+ '"' :: (comment ++ '"' :: text) :=
      ⟨'"' :: (comment ++ ['"']), by simp⟩
    refine List.forall_mem_cons.mpr ⟨⟨['"'], '"' :: text, by simp⟩, fun body hbody ↦ ?_⟩
    exact (ih body hbody).trans hrest.isInfix
  | lexeme _ _ ih => exact fun body hbody ↦ (ih body hbody).trans (List.suffix_append _ _).isInfix

/-- No token begins before the position from which the text is split. -/
theorem Splits.position_le (h : Splits position text tokens comments last rest) :
    ∀ token ∈ tokens, position ≤ token.span.start := by
  induction h with
  | done => exact List.forall_mem_nil _
  | blank _ _ ih => exact fun token htoken ↦ Nat.le_trans (Nat.le_add_right _ _) (ih token htoken)
  | comment _ _ ih => exact fun token htoken ↦ Nat.le_trans (Nat.le_add_right _ _) (ih token htoken)
  | lexeme _ _ ih =>
    exact List.forall_mem_cons.mpr ⟨Nat.le_refl _,
      fun token htoken ↦ Nat.le_trans (Nat.le_add_right _ _) (ih token htoken)⟩

/-- One token ends before the other begins. -/
def Precedes (former latter : Token) : Prop := former.span.stop ≤ latter.span.start

/-- The tokens follow one another in the text. -/
theorem Splits.ordered (h : Splits position text tokens comments last rest) :
    tokens.Pairwise Precedes := by
  induction h with
  | done => exact .nil
  | blank _ _ ih => exact ih
  | comment _ _ ih => exact ih
  | lexeme _ hrest ih => exact .cons hrest.position_le ih

/-- The least span that reaches over two places begins with the former and ends with the latter. -/
theorem exists_stands_merge {first final : Span} {former latter : List Char}
    (hfirst : Stands text first former) (hfinal : Stands text final latter)
    (hle : first.stop ≤ final.start) :
    ∃ between, Stands text (first.merge final) (former ++ (between ++ latter)) := by
  obtain ⟨front, back, htext, rfl⟩ := hfirst
  obtain ⟨front', back', htext', rfl⟩ := hfinal
  change front.length + former.length ≤ front'.length at hle
  obtain ⟨between, rfl⟩ : ∃ between, front' = front ++ former ++ between := by
    have heq := htext.symm.trans htext'
    rw [← List.append_assoc] at heq
    rcases List.append_eq_append_iff.mp heq with ⟨between, hbetween, -⟩ | ⟨more, hmore, -⟩
    · exact ⟨between, hbetween⟩
    · have hlength := congrArg List.length hmore
      simp only [List.length_append] at hlength
      obtain rfl : more = [] := List.length_eq_zero_iff.mp (by omega)
      exact ⟨[], by rw [List.append_nil, hmore, List.append_nil]⟩
  refine ⟨between, front, back', by rw [htext']; simp, ?_⟩
  simp only [Span.merge, List.length_append, Span.mk.injEq]
  omega

end Lexis

end Sol25
