import Sol25.Proofs.Lexis.Spelling

/-!
# How far a lexeme looks ahead

No lexeme but a string goes on with a blank, the quote of a comment or a closing brace
(`Pattern.no_boundary_or_string`), and a string ends with its own quote. So whatever is read as a
lexeme is decided by the lexeme itself and by what follows it up to the first of these boundaries
(`IsLexeme.of_beforeBoundary_eq`), and a closing brace is read as itself in front of anything
(`isLexeme_rightBrace`).
-/

set_option autoImplicit false
set_option relaxedAutoImplicit false

namespace Sol25.Lexis

open Token (Kind)

variable {first c : Char} {tail lexeme following other more text : List Char} {kind : Kind}

/-! ### Boundaries -/

/-- What no lexeme but a string goes on with. -/
def IsBoundary (c : Char) : Prop := IsSeparator c ∨ c = '\x7d'

instance (c : Char) : Decidable (IsBoundary c) := inferInstanceAs (Decidable ((_ ∨ _) ∨ _))

theorem not_isBoundary {p : Char → Bool} (h : p c) (hseparator : ¬ IsSeparator c)
    (hbrace : p '\x7d' = false) : ¬ IsBoundary c := by
  refine not_or.mpr ⟨hseparator, ?_⟩
  rintro rfl
  exact Bool.false_ne_true (hbrace.symm.trans h)

theorem not_isBoundary_of_isAlphanum (h : c.isAlphanum) : ¬ IsBoundary c :=
  not_isBoundary h (not_isSeparator_of_isAlphanum h) (by decide)

theorem not_isBoundary_of_isDigit (h : c.isDigit) : ¬ IsBoundary c :=
  not_isBoundary h (not_isSeparator_of_isDigit h) (by decide)

theorem not_isBoundary_of_wordChar (h : c.isAlphanum ∨ c = '_') : ¬ IsBoundary c := by
  rcases h with h | rfl
  · exact not_isBoundary_of_isAlphanum h
  · decide

/-- Behind its first character, no lexeme but a string has a boundary in it. -/
theorem Pattern.no_boundary_or_string (h : Pattern following kind (first :: tail)) :
    (∀ c ∈ tail, ¬ IsBoundary c) ∨
      ∃ body, first :: tail = '\'' :: (body ++ ['\'']) ∧ StringBody body := by
  generalize hlexeme : first :: tail = lexeme at h
  cases h with
  | string hbody => exact .inr ⟨_, rfl, hbody⟩
  | keyword word =>
    obtain ⟨_, _, heq, -, htail⟩ := exists_toList_text_eq word
    obtain ⟨-, rfl⟩ := List.cons.inj (hlexeme.trans heq)
    exact .inl fun c hc ↦ not_isBoundary_of_isAlphanum (htail c hc)
  | builtin which =>
    obtain ⟨_, _, heq, -, htail⟩ := exists_toList_name_eq which
    obtain ⟨-, rfl⟩ := List.cons.inj (hlexeme.trans heq)
    exact .inl fun c hc ↦ not_isBoundary_of_isAlphanum (htail c hc)
  | ident _ htail =>
    obtain ⟨-, rfl⟩ := List.cons.inj hlexeme
    exact .inl fun c hc ↦ not_isBoundary_of_wordChar (htail c hc)
  | classIdent _ htail =>
    obtain ⟨-, rfl⟩ := List.cons.inj hlexeme
    exact .inl fun c hc ↦ not_isBoundary_of_isAlphanum (htail c hc)
  | selector _ htail _ =>
    obtain ⟨-, rfl⟩ := List.cons.inj hlexeme
    refine .inl (List.forall_mem_append.mpr
      ⟨fun c hc ↦ not_isBoundary_of_wordChar (htail c hc), ?_⟩)
    exact List.forall_mem_singleton.mpr (by decide)
  | unsigned _ htail =>
    obtain ⟨-, rfl⟩ := List.cons.inj hlexeme
    exact .inl fun c hc ↦ not_isBoundary_of_isDigit (htail c hc)
  | signed _ hdigit htail =>
    obtain ⟨-, rfl⟩ := List.cons.inj hlexeme
    exact .inl (List.forall_mem_cons.mpr ⟨not_isBoundary_of_isDigit hdigit,
      fun c hc ↦ not_isBoundary_of_isDigit (htail c hc)⟩)
  | mark sign =>
    have hall : (sign.text.toList.tail.all fun c ↦ decide (¬ IsBoundary c)) = true := by
      cases sign <;> rfl
    rw [← hlexeme, List.tail_cons] at hall
    exact .inl fun c hc ↦ of_decide_eq_true (List.all_eq_true.mp hall c hc)

/-- A text up to its first boundary. -/
def beforeBoundary (text : List Char) : List Char := text.takeWhile fun c ↦ ¬ IsBoundary c

theorem beforeBoundary_append (hmore : ∀ c ∈ more, ¬ IsBoundary c) (text : List Char) :
    beforeBoundary (more ++ text) = more ++ beforeBoundary text :=
  List.takeWhile_append_of_pos fun c hc ↦ decide_eq_true (hmore c hc)

theorem head?_eq_equals_iff (h : beforeBoundary text = beforeBoundary other) :
    text.head? = some '=' ↔ other.head? = some '=' := by
  have hhead (text : List Char) :
      (beforeBoundary text).head? = some '=' ↔ text.head? = some '=' := by
    rw [beforeBoundary, List.head?_takeWhile, Option.filter_eq_some_iff]
    exact and_iff_left (by decide)
  rw [← hhead text, h, hhead]

/-! ### Lexemes -/

theorem Pattern.of_head? (h : Pattern following kind lexeme)
    (hhead : other.head? = some '=' → following.head? = some '=') : Pattern other kind lexeme := by
  cases h with
  | keyword word => exact .keyword word
  | builtin which => exact .builtin which
  | ident hfirst htail => exact .ident hfirst htail
  | classIdent hfirst htail => exact .classIdent hfirst htail
  | selector hfirst htail hfollowing => exact .selector hfirst htail (mt hhead hfollowing)
  | unsigned hfirst htail => exact .unsigned hfirst htail
  | signed hsign hfirst htail => exact .signed hsign hfirst htail
  | string hbody => exact .string hbody
  | mark sign => exact .mark sign

/-- What matches goes on alike in front of anything that is the same up to the first boundary,
unless it is a string. -/
theorem Pattern.exists_of_beforeBoundary_eq {front rest : List Char} (hfront : front ≠ [])
    (h : Pattern rest kind (front ++ more))
    (hstring : ¬ ∃ body, front ++ more = '\'' :: (body ++ ['\'']) ∧ StringBody body)
    (heq : beforeBoundary (more ++ rest) = beforeBoundary other) :
    ∃ otherRest, more ++ otherRest = other ∧ Pattern otherRest kind (front ++ more) := by
  obtain ⟨first, tail, rfl⟩ := List.exists_cons_of_ne_nil hfront
  have hfree : ∀ c ∈ more, ¬ IsBoundary c := fun c hc ↦
    h.no_boundary_or_string.resolve_right hstring c (List.mem_append_right tail hc)
  rw [beforeBoundary_append hfree] at heq
  have hprefix : more <+: beforeBoundary other := heq ▸ List.prefix_append more _
  obtain ⟨otherRest, rfl⟩ := hprefix.trans (List.takeWhile_prefix _)
  rw [beforeBoundary_append hfree, List.append_cancel_left_eq] at heq
  exact ⟨otherRest, rfl, h.of_head? (head?_eq_equals_iff heq).mpr⟩

/-- All that matters of what follows a lexeme is what comes in front of the next boundary. -/
theorem IsLexeme.of_beforeBoundary_eq (h : IsLexeme kind lexeme following)
    (heq : beforeBoundary following = beforeBoundary other) : IsLexeme kind lexeme other := by
  have hpattern : Pattern other kind lexeme := h.pattern.of_head? (head?_eq_equals_iff heq).mpr
  refine ⟨hpattern, fun competitor rest otherKind hsplit hcompetitor ↦ ?_, fun otherKind hother ↦
    h.reserved otherKind (hother.of_head? (head?_eq_equals_iff heq).mp)⟩
  by_cases hstring : ∃ body, competitor = '\'' :: (body ++ ['\'']) ∧ StringBody body
  · obtain ⟨body, rfl, hbody⟩ := hstring
    exact Nat.le_of_eq (congrArg List.length (hpattern.eq_of_string hbody hsplit).symm)
  rcases List.append_eq_append_iff.mp hsplit with ⟨more, rfl, -⟩ | ⟨more, rfl, rfl⟩
  · rw [List.length_append]
    exact Nat.le_add_right _ _
  · have hne : lexeme ≠ [] := List.ne_nil_of_length_pos hpattern.length_pos
    obtain ⟨otherRest, rfl, hagain⟩ :=
      hcompetitor.exists_of_beforeBoundary_eq hne hstring heq.symm
    exact h.longest _ otherRest otherKind (List.append_assoc ..) hagain

/-- A closing brace is read as itself whatever follows it. -/
theorem isLexeme_rightBrace (following : List Char) :
    IsLexeme (.mark .rightBrace) ['\x7d'] following := by
  have hbrace : Pattern following (.mark .rightBrace) ['\x7d'] := .mark .rightBrace
  obtain ⟨longest, rest, kind, hsplit, hlexeme⟩ := hbrace.exists_isLexeme
  obtain ⟨first, tail, rfl, -⟩ := hlexeme.pattern.exists_eq_cons
  obtain ⟨rfl, rfl⟩ := List.cons.inj hsplit
  obtain ⟨hkind, htail⟩ := Lexeme.mk.inj (read_of_isLexeme hlexeme)
  obtain rfl := List.eq_nil_of_length_eq_zero htail.symm
  obtain rfl := Except.ok.inj hkind
  exact hlexeme

end Sol25.Lexis
