import Mathlib.Data.List.TakeWhile
import Sol25.Proofs.Grammar.Located
import Sol25.Proofs.Grammar.Moved
import Sol25.Proofs.Lexis.Boundary
import Sol25.Proofs.Stages

/-!
# Programs one behind the other

If a program can be read from a text, it makes no difference to what comes behind the text, and what
comes behind makes no difference to it: what is read from both together are the classes of the
program and behind them those of the other text, shifted by the length of the first one, and if the
other text has a fault, so have both together, at the shifted place (`Program.ofText_append`). Not
even a blank is needed in between.

A program that is not empty ends with a closing brace, and no lexeme reaches over one, so that both
texts split next to each other as they split by themselves (`Splits.append`). From there on it is
the same classes in front of others (`Reading.classes_displaced`), whose tokens have been moved.
-/

set_option autoImplicit false
set_option relaxedAutoImplicit false

namespace Sol25

open Token (Kind)

theorem Span.moved_add (position length offset : Nat) :
    (⟨position, position + length⟩ : Span).moved (· + offset) =
      ⟨position + offset, position + offset + length⟩ := by
  rw [Span.moved, Nat.add_right_comm]

/-! ### Splitting one text behind the other -/

namespace Lexis

variable {position last stop : Nat} {text more rest : List Char} {tokens moreTokens : List Token}
  {comments moreComments : List (List Char)} {fault : Fault}

/-- A text splits alike wherever it begins. -/
theorem Splits.shifted (h : Splits position text tokens comments last rest) (offset : Nat) :
    Splits (position + offset) text (tokens.map (Token.moved (· + offset))) comments
      (last + offset) rest := by
  induction h with
  | done => exact .done _ _
  | blank hc _ ih =>
    rw [Nat.add_right_comm] at ih
    exact .blank hc ih
  | comment hbody _ ih =>
    rw [Nat.add_right_comm] at ih
    exact .comment hbody ih
  | lexeme hlexeme _ ih =>
    rw [Nat.add_right_comm] at ih
    rw [List.map_cons, Token.moved, Span.moved_add]
    exact .lexeme hlexeme ih

theorem Stuck.shifted (h : Stuck position rest fault) (offset : Nat) :
    Stuck (position + offset) rest (fault.moved (· + offset)) := by
  cases h with
  | comment hbody =>
    rw [Fault.moved, Span.moved_add]
    exact .comment hbody
  | string hbody htail =>
    rw [Fault.moved, Span.moved_add]
    exact .string hbody htail
  | unexpected hblank hcomment hstring hnone =>
    rw [Fault.moved, Span.moved_add]
    exact .unexpected hblank hcomment hstring hnone

/-- The spelling of every token stands somewhere in the text. -/
theorem Splits.spelling_isInfix (h : Splits position text tokens comments last rest) :
    ∀ token ∈ tokens, spelling token.kind <:+: text := by
  induction h with
  | done => exact List.forall_mem_nil _
  | blank _ _ ih => exact fun token htoken ↦ (ih token htoken).trans (List.suffix_cons _ _).isInfix
  | @comment _ _ body text _ _ _ _ _ ih =>
    have hbehind : text <:+ '"' :: (body ++ '"' :: text) := ⟨'"' :: (body ++ ['"']), by simp⟩
    exact fun token htoken ↦ (ih token htoken).trans hbehind.isInfix
  | lexeme hlexeme _ ih =>
    refine List.forall_mem_cons.mpr ⟨?_, fun token htoken ↦
      (ih token htoken).trans (List.suffix_append _ _).isInfix⟩
    rw [← hlexeme.pattern.eq_spelling]
    exact (List.prefix_append _ _).isInfix

/-- The last of the tokens, if there is any, is a closing brace. -/
def Closed (tokens : List Token) : Prop :=
  ∀ token ∈ tokens.getLast?, token.kind = .mark .rightBrace

theorem Closed.of_cons {token : Token} (h : Closed (token :: tokens)) (hne : tokens ≠ []) :
    Closed tokens := by
  rwa [Closed, List.getLast?_cons_of_ne_nil hne] at h

theorem Closed.exists_brace (h : Closed tokens) (hne : tokens ≠ []) :
    ∃ token ∈ tokens, token.kind = .mark .rightBrace := by
  refine ⟨tokens.getLast hne, List.getLast_mem hne, h _ ?_⟩
  rw [List.getLast?_eq_some_getLast hne]
  rfl

/-- Behind a closing brace, more text makes no difference. -/
theorem beforeBoundary_append_of_brace (h : '\x7d' ∈ text) (more : List Char) :
    beforeBoundary text = beforeBoundary (text ++ more) := by
  rw [beforeBoundary, beforeBoundary, List.takeWhile_append, if_neg]
  intro hlength
  have hall := (List.takeWhile_prefix _).eq_of_length hlength
  exact of_decide_eq_true (List.takeWhile_eq_self_iff.mp hall _ h) (.inr rfl)

/-- A text whose last token is a closing brace splits alike in front of another text. -/
theorem Splits.append (h : Splits position text tokens comments last []) (hclosed : Closed tokens)
    (hmore : Splits last more moreTokens moreComments stop rest) :
    Splits position (text ++ more) (tokens ++ moreTokens) (comments ++ moreComments) stop rest := by
  generalize hend : ([] : List Char) = nothing at h
  induction h with
  | done =>
    subst hend
    exact hmore
  | blank hc _ ih => exact .blank hc (ih hclosed hmore hend)
  | comment hbody _ ih =>
    rw [List.cons_append, List.append_assoc]
    exact .comment hbody (ih hclosed hmore hend)
  | @lexeme _ _ kind _ text _ tokens _ hlexeme hbehind ih =>
    rw [List.append_assoc]
    by_cases hne : tokens = []
    · subst hne
      obtain rfl : kind = .mark .rightBrace := hclosed _ rfl
      obtain rfl := hlexeme.pattern.eq_spelling
      exact .lexeme (isLexeme_rightBrace _) (ih nofun hmore hend)
    · have hothers := hclosed.of_cons hne
      obtain ⟨token, htoken, hbrace⟩ := hothers.exists_brace hne
      have hwithin := hbehind.spelling_isInfix token htoken
      rw [hbrace] at hwithin
      have hsame := beforeBoundary_append_of_brace (hwithin.subset List.mem_cons_self) more
      exact .lexeme (hlexeme.of_beforeBoundary_eq hsame) (ih hothers hmore hend)

end Lexis

/-! ### Reading one program behind the other -/

section Programs

open Grammar Lexis

variable {tokens : List Token} {declared : List ClassDef}

/-- Classes end with a closing brace. -/
theorem closed_of_classesAt (h : ManyAt ClassAt tokens declared) : Closed tokens := by
  induction h with
  | nil => exact nofun
  | @cons used more _ _ hfirst _ ih =>
    by_cases hne : more = []
    · subst hne
      obtain ⟨_, _, _, _, _, hright⟩ := hfirst
      intro token htoken
      simp only [List.append_nil, ← List.cons_append, List.getLast?_concat] at htoken
      rwa [← Option.some.inj htoken]
    · rwa [Closed, List.getLast?_append_of_ne_nil _ hne]

/-- Behind classes that have been read, a session reads what it would read without them. -/
theorem Session.next_behind (h : Reading.classes tokens = .ok declared) (session : Session)
    (description? : Option String) :
    (Session.mk (tokens ++ session.ahead) session.finish description?).next.1 =
      session.next.1.map fun program ↦ ⟨declared ++ program.classes, description?⟩ := by
  have hbehind : Reading.classes (tokens ++ session.ahead) =
      (Reading.classes session.ahead).map (declared ++ ·) := by
    have hdisplaced : Reading.classes (Reading.displaced id session.ahead tokens) = _ :=
      Reading.classes_displaced monotone_id h
    rwa [Reading.displaced, Token.moved_id, ClassDef.moved_id, List.map_id, List.map_id]
      at hdisplaced
  rw [next, next, hbehind]
  cases Reading.classes session.ahead with
  | ok more => rfl
  | error stop => cases stop.reason <;> rfl

/-- In front of two texts that are split, the tokens of the second one have been moved, and so has
the end. -/
theorem Session.ofSplit_append (former latter : List Char) (tokens moreTokens : List Token)
    (comments moreComments : List (List Char)) :
    ofSplit (former ++ latter) (tokens ++ moreTokens.map (Token.moved (· + former.length)))
        (comments ++ moreComments) =
      ⟨tokens ++ ((ofSplit latter moreTokens moreComments).moved (· + former.length)).ahead,
        ((ofSplit latter moreTokens moreComments).moved (· + former.length)).finish,
        (comments.head?.map String.ofList).or (moreComments.head?.map String.ofList)⟩ := by
  have hlength : (former ++ latter).length = latter.length + former.length := by
    rw [List.length_append, Nat.add_comm]
  rw [ofSplit, hlength, List.head?_append, Option.map_or]
  rfl

/-- What is read from a program with another text behind it is the program and, behind it, what is
read from that text. -/
theorem Program.ofText_append {former latter : List Char} {program : Program}
    (h : ofText former = .ok program) :
    ofText (former ++ latter) =
      match ofText latter with
      | .ok behind =>
        .ok ⟨program.classes ++ behind.classes.map (ClassDef.moved (· + former.length)),
          program.description?.or behind.description?⟩
      | .error fault => .error (fault.moved (· + former.length)) := by
  obtain ⟨tokens, comments, hsplits, hclasses, hdescription⟩ := ofText_eq_ok_iff.mp h
  have hclosed := closed_of_classesAt (Reading.classesAt_of_classes_eq_ok hclasses)
  obtain ⟨moreTokens, moreComments, last, rest, hlatter, hrest⟩ := exists_splits 0 latter
  have hshifted := hlatter.shifted former.length
  rw [Nat.zero_add] at hshifted
  have hboth := hsplits.append hclosed hshifted
  rcases hrest with rfl | ⟨fault, hstuck⟩
  · obtain rfl := hlatter.last_eq_length
    have hmonotone : Monotone (· + former.length) := fun _ _ hle ↦ Nat.add_le_add_right hle _
    rw [hboth.last_eq_length] at hboth
    rw [ofText_of_splits hboth, Session.ofSplit_append, Session.next_behind hclasses,
      Session.next_moved hmonotone, ofText_of_splits hlatter, ← hdescription]
    cases hread : (Session.ofSplit latter moreTokens moreComments).next.1 with
    | error fault => rfl
    | ok behind =>
      have hheld : moreComments.head?.map String.ofList = behind.description? :=
        (Session.next_eq_ok_iff.mp hread).2
      rw [hheld]
      rfl
  · rw [ofText_of_stuck hboth (hstuck.shifted former.length), ofText_of_stuck hlatter hstuck]

/-- A class and, right behind it, a string that is left open. -/
theorem Program.ofText_class_and_quote :
    ∃ program, ofText "class A:Object\x7b\x7d".toList = .ok program ∧
      ofText ("class A:Object\x7b\x7d".toList ++ ['\'']) =
        .error (.located .unterminatedString ⟨16, 17⟩) := by
  obtain ⟨program, hread⟩ : ∃ program, ofText "class A:Object\x7b\x7d".toList = .ok program :=
    exists_eq_ok_of_isOk (by decide +kernel)
  have hquote : ofText ['\''] = .error (.located .unterminatedString ⟨0, 1⟩) :=
    ofText_of_stuck (.done 0 _) (.string .nil .textEnd)
  refine ⟨program, hread, ?_⟩
  rw [ofText_append hread, hquote]
  rfl

end Programs

end Sol25
