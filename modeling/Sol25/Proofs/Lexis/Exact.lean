import Sol25.Proofs.Lexis.Reading

/-!
# Scanning is exact

A scanner skips the blanks and comments in front of a lexeme in one go, reads the lexeme by its
first character, and does so until it comes to the end of the text or to a fault. Here it is shown
that the tokens it hands out are those into which the text splits (`Splits`), and that it ends with
a fault exactly if the text splits up to a rest that is `Stuck` with that fault
(`tokens_ofText_exact`).
-/

set_option autoImplicit false
set_option relaxedAutoImplicit false

namespace Sol25

open Lexis

/-! ### Blanks and comments -/

namespace Trivia

variable {description? : Option String} {body rest : List Char} {c : Char}

theorem isSpace_iff : isSpace c ↔ IsBlank c := by
  simp [isSpace, IsBlank, or_assoc]

/-- What is skipped does not depend on how much lies behind. -/
theorem skip_add (more length : Nat) (description? : Option String)
    (opened? : Option (Nat × List Char)) (text : List Char) :
    skip (length + more) description? (opened?.map fun opened ↦ (opened.1 + more, opened.2)) text =
      ⟨(skip length description? opened? text).length + more,
        (skip length description? opened? text).description?,
        (skip length description? opened? text).unclosed?.map (· + more)⟩ := by
  induction text generalizing length description? opened? with
  | nil => cases opened? <;> rfl
  | cons c rest ih =>
    have hnext : length + more + 1 = length + 1 + more := Nat.add_right_comm length more 1
    cases opened? with
    | none =>
      rw [Option.map_none, skip, skip, hnext]
      by_cases hquote : c = '"'
      · rw [if_pos hquote, if_pos hquote]
        exact ih (length + 1) description? (some (length, []))
      by_cases hspace : isSpace c
      · rw [if_neg hquote, if_neg hquote, if_pos hspace, if_pos hspace]
        exact ih (length + 1) description? none
      · rw [if_neg hquote, if_neg hquote, if_neg hspace, if_neg hspace]
        rfl
    | some opened =>
      obtain ⟨quote, text⟩ := opened
      rw [Option.map_some, skip, skip, hnext]
      by_cases hquote : c = '"'
      · rw [if_pos hquote, if_pos hquote]
        exact ih (length + 1) _ none
      · rw [if_neg hquote, if_neg hquote]
        exact ih (length + 1) description? (some (quote, c :: text))

/-- Behind some trivia the others are skipped as if nothing had been there. -/
theorem skip_eq_add (length : Nat) (description? : Option String) (text : List Char) :
    skip length description? none text =
      ⟨(ofText description? text).length + length, (ofText description? text).description?,
        (ofText description? text).unclosed?.map (· + length)⟩ := by
  have := skip_add length 0 description? none text
  rwa [Nat.zero_add] at this

theorem skip_blank (hc : IsBlank c) :
    skip 0 description? none (c :: rest) = skip 1 description? none rest := by
  have hquote : c ≠ '"' := by
    rintro rfl
    revert hc
    decide
  rw [skip, if_neg hquote, if_pos (isSpace_iff.mpr hc)]

theorem skip_opened (hbody : '"' ∉ body) (length quote : Nat) (text : List Char) :
    skip length description? (some (quote, text)) (body ++ '"' :: rest) =
      skip (length + (body.length + 1))
        (description?.or (some (String.ofList (text.reverse ++ body)))) none rest := by
  induction body generalizing length text with
  | nil => rw [List.nil_append, List.append_nil, skip, if_pos rfl]; rfl
  | cons c body ih =>
    rw [List.mem_cons, not_or] at hbody
    rw [List.cons_append, skip, if_neg (Ne.symm hbody.1), ih hbody.2, List.reverse_cons,
      List.append_assoc, List.singleton_append, List.length_cons]
    congr 1
    omega

theorem skip_comment (hbody : '"' ∉ body) :
    skip 0 description? none ('"' :: (body ++ '"' :: rest)) =
      skip (body.length + 2) (description?.or (some (String.ofList body))) none rest := by
  rw [skip, if_pos rfl, skip_opened hbody]
  congr 1
  omega

theorem skip_unclosed (hbody : '"' ∉ body) (length quote : Nat) (text : List Char) :
    skip length description? (some (quote, text)) body =
      ⟨length + body.length, description?, some quote⟩ := by
  induction body generalizing length text with
  | nil => rfl
  | cons c body ih =>
    rw [List.mem_cons, not_or] at hbody
    rw [skip, if_neg (Ne.symm hbody.1), ih hbody.2, List.length_cons, Nat.add_right_comm,
      Nat.add_assoc]

theorem skip_lexeme (hblank : ¬ IsBlank c) (hcomment : c ≠ '"') :
    skip 0 description? none (c :: rest) = ⟨0, description?, none⟩ := by
  rw [skip, if_neg hcomment, if_neg fun hspace ↦ hblank (isSpace_iff.mp hspace)]

end Trivia

namespace Scanner

variable {position start : Nat} {description? held? : Option String} {rest : List Char}

/-- Blanks and comments in front of a text do not change what comes next. -/
theorem next_of_skip (skipped : List Char)
    (h : Trivia.skip 0 description? none (skipped ++ rest) =
      Trivia.skip skipped.length held? none rest) :
    (⟨skipped ++ rest, position, start, description?⟩ : Scanner).next =
      (⟨rest, position + skipped.length, start, held?⟩ : Scanner).next := by
  have htrivia : Trivia.ofText description? (skipped ++ rest) = _ :=
    h.trans (Trivia.skip_eq_add skipped.length held? rest)
  have hpast : (⟨skipped ++ rest, position, start, description?⟩ : Scanner).pastTrivia =
      (⟨rest, position + skipped.length, start, held?⟩ : Scanner).pastTrivia := by
    simp only [pastTrivia, trivia, advance, htrivia]
    rw [Nat.add_comm _ skipped.length, ← List.drop_drop, List.drop_left, Nat.add_assoc]
  unfold next
  rw [hpast]
  simp only [trivia, htrivia]
  cases (Trivia.ofText held? rest).unclosed? with
  | none => rfl
  | some quote => simp only [Option.map_some, Nat.add_assoc, Nat.add_comm quote]

theorem next_of_blank {c : Char} (hc : IsBlank c) :
    (⟨c :: rest, position, start, description?⟩ : Scanner).next =
      (⟨rest, position + 1, start, description?⟩ : Scanner).next :=
  next_of_skip [c] (Trivia.skip_blank hc)

theorem next_of_comment {body : List Char} (hbody : '"' ∉ body) :
    (⟨'"' :: (body ++ '"' :: rest), position, start, description?⟩ : Scanner).next =
      (⟨rest, position + (body.length + 2), start,
        description?.or (some (String.ofList body))⟩ : Scanner).next := by
  have hsplit : '"' :: (body ++ '"' :: rest) = '"' :: (body ++ ['"']) ++ rest := by simp
  have hlength : ('"' :: (body ++ ['"'])).length = body.length + 2 := by simp
  rw [hsplit, ← hlength]
  refine next_of_skip ('"' :: (body ++ ['"'])) ?_
  rw [← hsplit, hlength]
  exact Trivia.skip_comment hbody

theorem next_of_lexeme {first : Char} (hblank : ¬ IsBlank first) (hcomment : first ≠ '"') :
    (⟨first :: rest, position, start, description?⟩ : Scanner).next =
      (located (Lexeme.read first rest) position,
        ⟨rest.drop (Lexeme.read first rest).more, position + (Lexeme.read first rest).length,
          position, description?⟩) := by
  have htrivia : Trivia.ofText description? (first :: rest) = ⟨0, description?, none⟩ :=
    Trivia.skip_lexeme hblank hcomment
  unfold next
  simp only [trivia, htrivia, pastTrivia, advance]
  rfl

theorem next_of_unclosed {body : List Char} (hbody : '"' ∉ body) :
    ∃ ahead, (⟨'"' :: body, position, start, description?⟩ : Scanner).next =
      (.error (.located .unterminatedComment ⟨position, position + (body.length + 1)⟩), ahead) := by
  have htrivia : Trivia.ofText description? ('"' :: body) =
      ⟨body.length + 1, description?, some 0⟩ := by
    rw [Trivia.ofText, Trivia.skip, if_pos rfl, Trivia.skip_unclosed hbody, Nat.add_comm]
  unfold next
  simp only [trivia, htrivia, pastTrivia, advance]
  exact ⟨_, rfl⟩

/-! ### All tokens of a text -/

theorem tokensOnto_of_next_ok {scanner ahead : Scanner} {token : Token}
    (h : scanner.next = (.ok token, ahead)) (hend : token.kind ≠ .eof) (done : List Token) :
    tokensOnto done scanner = tokensOnto (token :: done) ahead := by
  rw [tokensOnto]
  split
  · simp_all
  · simp_all

theorem tokensOnto_of_next_eof {scanner ahead : Scanner} {token : Token}
    (h : scanner.next = (.ok token, ahead)) (hend : token.kind = .eof) (done : List Token) :
    tokensOnto done scanner = (.ok (token :: done).reverse, ahead) := by
  rw [tokensOnto]
  split
  · simp_all
  · simp_all

theorem tokensOnto_of_next_error {scanner ahead : Scanner} {fault : Fault}
    (h : scanner.next = (.error fault, ahead)) (done : List Token) :
    tokensOnto done scanner = (.error fault, ahead) := by
  rw [tokensOnto]
  split
  · simp_all
  · simp_all

theorem tokensOnto_congr {scanner other : Scanner} (h : scanner.next = other.next)
    (done : List Token) : tokensOnto done scanner = tokensOnto done other := by
  cases hother : other.next with
  | mk result ahead =>
    cases result with
    | error fault =>
      rw [tokensOnto_of_next_error hother, tokensOnto_of_next_error (h.trans hother)]
    | ok token =>
      by_cases hend : token.kind = .eof
      · rw [tokensOnto_of_next_eof hother hend, tokensOnto_of_next_eof (h.trans hother) hend]
      · rw [tokensOnto_of_next_ok hother hend, tokensOnto_of_next_ok (h.trans hother) hend]

theorem kind_ne_eof {following lexeme : List Char} {kind : Token.Kind}
    (h : Pattern following kind lexeme) : kind ≠ .eof := by
  cases h <;> exact Token.Kind.noConfusion

/-- What a text splits into is read before anything behind it. -/
theorem tokensOnto_of_splits {last : Nat} {text : List Char} {tokens : List Token}
    {comments : List (List Char)} (h : Splits position text tokens comments last rest)
    (done : List Token) (start : Nat) (description? : Option String) :
    ∃ begun, tokensOnto done ⟨text, position, start, description?⟩ =
      tokensOnto (tokens.reverse ++ done)
        ⟨rest, last, begun, description?.or (comments.head?.map String.ofList)⟩ := by
  induction h generalizing done start description? with
  | done position text =>
    refine ⟨start, ?_⟩
    rw [List.head?_nil, Option.map_none, Option.or_none]
    rfl
  | blank hc _ ih =>
    obtain ⟨begun, hbegun⟩ := ih done start description?
    exact ⟨begun, (tokensOnto_congr (next_of_blank hc) done).trans hbegun⟩
  | @comment _ _ body _ _ _ comments hbody _ ih =>
    obtain ⟨begun, hbegun⟩ := ih done start (description?.or (some (String.ofList body)))
    refine ⟨begun, (tokensOnto_congr (next_of_comment hbody) done).trans ?_⟩
    rw [hbegun, Option.or_assoc, Option.some_or]
    rfl
  | @lexeme position _ kind _ text _ tokens comments hlexeme _ ih =>
    obtain ⟨first, tail, rfl, hblank, hcomment⟩ := hlexeme.pattern.exists_eq_cons
    have hread := read_of_isLexeme hlexeme
    have hnext : (⟨first :: tail ++ text, position, start, description?⟩ : Scanner).next =
        (.ok ⟨kind, ⟨position, position + (first :: tail).length⟩⟩,
          ⟨text, position + (first :: tail).length, position, description?⟩) := by
      rw [List.cons_append, next_of_lexeme hblank hcomment, hread, List.drop_left]
      rfl
    obtain ⟨begun, hbegun⟩ := ih (⟨kind, _⟩ :: done) position description?
    refine ⟨begun, (tokensOnto_of_next_ok hnext (kind_ne_eof hlexeme.pattern) done).trans ?_⟩
    rw [hbegun, List.reverse_cons, List.append_assoc, List.singleton_append]

theorem tokensOnto_nil (done : List Token) (position start : Nat) (description? : Option String) :
    tokensOnto done ⟨[], position, start, description?⟩ =
      (.ok (done.reverse ++ [⟨.eof, ⟨position, position⟩⟩]),
        ⟨[], position, position, description?⟩) := by
  have hnext : (⟨[], position, start, description?⟩ : Scanner).next =
      (.ok ⟨.eof, ⟨position, position⟩⟩, ⟨[], position, position, description?⟩) := rfl
  rw [tokensOnto_of_next_eof hnext rfl, List.reverse_cons]

theorem tokensOnto_of_stuck {fault : Fault} (h : Stuck position rest fault) (done : List Token)
    (start : Nat) (description? : Option String) :
    (tokensOnto done ⟨rest, position, start, description?⟩).1 = .error fault := by
  have hnext : ∃ ahead, (⟨rest, position, start, description?⟩ : Scanner).next =
      (.error fault, ahead) := by
    cases h with
    | comment hbody => exact next_of_unclosed hbody
    | string hbody htail =>
      rw [next_of_lexeme (by decide) (by decide),
        located_read_of_stuck (by decide) (.string hbody htail)]
      exact ⟨_, rfl⟩
    | unexpected hblank hcomment hstring hlexeme =>
      rw [next_of_lexeme hblank hcomment,
        located_read_of_stuck hcomment (.unexpected hblank hcomment hstring hlexeme)]
      exact ⟨_, rfl⟩
  obtain ⟨ahead, hahead⟩ := hnext
  rw [tokensOnto_of_next_error hahead]

/-- The tokens of a text are those into which it splits, and behind them the end. The description is
the text of its first comment. -/
theorem tokens_ofText_of_splits {text : List Char} {tokens : List Token}
    {comments : List (List Char)} {last : Nat} (h : Splits 0 text tokens comments last []) :
    (ofText text).tokens.1 = .ok (tokens ++ [⟨.eof, ⟨text.length, text.length⟩⟩]) ∧
      (ofText text).tokens.2.description? = comments.head?.map String.ofList := by
  have hlength : 0 + text.length = last + 0 := h.add_length
  obtain ⟨begun, hbegun⟩ := tokensOnto_of_splits h [] 0 none
  rw [Scanner.tokens, ofText, hbegun, tokensOnto_nil, Option.none_or, List.append_nil,
    List.reverse_reverse]
  rw [Nat.zero_add, Nat.add_zero] at hlength
  rw [hlength]
  exact ⟨rfl, rfl⟩

/-- If a text splits up to a rest with which something is wrong, the scanner comes to that fault. -/
theorem tokens_ofText_of_stuck {text rest : List Char} {tokens : List Token}
    {comments : List (List Char)} {last : Nat} {fault : Fault}
    (h : Splits 0 text tokens comments last rest) (hstuck : Stuck last rest fault) :
    (ofText text).tokens.1 = .error fault := by
  obtain ⟨begun, hbegun⟩ := tokensOnto_of_splits h [] 0 none
  rw [Scanner.tokens, ofText, hbegun, tokensOnto_of_stuck hstuck]

theorem pattern_of_mem_of_splits {position last : Nat} {text rest : List Char}
    {tokens : List Token} {comments : List (List Char)}
    (h : Splits position text tokens comments last rest) :
    ∀ token ∈ tokens, ∃ lexeme following, Pattern following token.kind lexeme := by
  induction h with
  | done => exact List.forall_mem_nil _
  | blank _ _ ih => exact ih
  | comment _ _ ih => exact ih
  | lexeme hlexeme _ ih => exact List.forall_mem_cons.mpr ⟨⟨_, _, hlexeme.pattern⟩, ih⟩

/-- Every token of a text but the end matches a pattern. -/
theorem pattern_of_mem_tokens_ofText {text : List Char} {tokens : List Token}
    (h : (ofText text).tokens.1 = .ok tokens) :
    ∀ token ∈ tokens, token.kind = .eof ∨
      ∃ lexeme following, Pattern following token.kind lexeme := by
  obtain ⟨lexemes, comments, last, rest, hsplits, hrest⟩ := exists_splits 0 text
  rcases hrest with rfl | ⟨fault, hstuck⟩
  · rw [(tokens_ofText_of_splits hsplits).1, Except.ok.injEq] at h
    subst h
    rw [List.forall_mem_append, List.forall_mem_singleton]
    exact ⟨fun token htoken ↦ .inr (pattern_of_mem_of_splits hsplits token htoken), .inl rfl⟩
  · rw [tokens_ofText_of_stuck hsplits hstuck] at h
    cases h

/-- A text is read to its end exactly if it is made of blanks, comments and lexemes, each of which
is the longest there is at its place. The tokens are then those lexemes with their spans, and the
description is the text of the first comment. Otherwise the fault is that of the first place where
the text goes on with none of them. -/
theorem tokens_ofText_exact (text : List Char) :
    (∀ tokens description?,
      ((ofText text).tokens.1 = .ok tokens ∧
          (ofText text).tokens.2.description? = description?) ↔
        ∃ lexemes comments, Splits 0 text lexemes comments text.length [] ∧
          tokens = lexemes ++ [⟨.eof, ⟨text.length, text.length⟩⟩] ∧
          description? = comments.head?.map String.ofList) ∧
      ∀ fault, (ofText text).tokens.1 = .error fault ↔
        ∃ lexemes comments last rest, Splits 0 text lexemes comments last rest ∧
          Stuck last rest fault := by
  obtain ⟨lexemes, comments, last, rest, hsplits, hrest⟩ := exists_splits 0 text
  constructor
  · intro tokens description?
    constructor
    · rintro ⟨htokens, hdescription⟩
      rcases hrest with rfl | ⟨fault, hstuck⟩
      · obtain ⟨hread, hheld⟩ := tokens_ofText_of_splits hsplits
        have hlast : last = text.length := by
          have := hsplits.add_length
          rw [Nat.zero_add, List.length_nil, Nat.add_zero] at this
          exact this.symm
        rw [hread, Except.ok.injEq] at htokens
        exact ⟨lexemes, comments, hlast ▸ hsplits, htokens.symm, hdescription.symm.trans hheld⟩
      · rw [tokens_ofText_of_stuck hsplits hstuck] at htokens
        cases htokens
    · rintro ⟨others, otherComments, hother, rfl, rfl⟩
      exact tokens_ofText_of_splits hother
  · intro fault
    constructor
    · intro hfault
      rcases hrest with rfl | ⟨found, hstuck⟩
      · rw [(tokens_ofText_of_splits hsplits).1] at hfault
        cases hfault
      · rw [tokens_ofText_of_stuck hsplits hstuck, Except.error.injEq] at hfault
        exact ⟨lexemes, comments, last, rest, hsplits, hfault ▸ hstuck⟩
    · rintro ⟨others, otherComments, stop, remainder, hother, hstuck⟩
      exact tokens_ofText_of_stuck hother hstuck

end Scanner

end Sol25
