import Sol25.Compile
import Sol25.Proofs.Grammar.Exact
import Sol25.Proofs.Lexis.Exact

/-!
# From a text to its program, stage by stage

A text is split into lexemes, the tokens of the lexemes are read as classes, and the classes are
checked. A program is read from a text exactly if the text splits up to its end and the readers come
to the end of the tokens (`Program.ofText_eq_ok_iff`), and the first comment is its description. No
program is read if the text is stuck or if the readers stop (`Program.exists_of_ofText_eq_error`).
Of a program that is read there is a document if it is accepted
(`exists_accepted_of_documentOf_eq_ok`), and none if it has a fault
(`exists_of_documentOf_eq_error`).
-/

set_option autoImplicit false
set_option relaxedAutoImplicit false

namespace Sol25

open Lexis

variable {text : List Char} {tokens : List Token} {comments : List (List Char)}

/-- A stage at which nothing goes wrong has a result. -/
theorem exists_eq_ok_of_isOk {ε α : Type} {outcome : Except ε α} (h : outcome.isOk) :
    ∃ result, outcome = .ok result := by
  cases outcome with
  | error _ => cases h
  | ok result => exact ⟨result, rfl⟩

/-- A session that has a text split up to its end in front of it. -/
def Session.ofSplit (text : List Char) (tokens : List Token) (comments : List (List Char)) :
    Session :=
  ⟨tokens, ⟨text.length, text.length⟩, comments.head?.map String.ofList⟩

theorem Lexis.Splits.last_eq_length {last : Nat} (h : Splits 0 text tokens comments last []) :
    last = text.length := by
  have hlength := h.add_length
  rw [Nat.zero_add] at hlength
  exact hlength.symm

/-- No lexeme is the end of the input. -/
theorem Lexis.Splits.kind_ne_eof {position last : Nat} {rest : List Char}
    (h : Splits position text tokens comments last rest) :
    ∀ token ∈ tokens, token.kind ≠ .eof := by
  intro token htoken
  obtain ⟨lexeme, following, hpattern⟩ := Scanner.pattern_of_mem_of_splits h token htoken
  exact Scanner.kind_ne_eof hpattern

theorem Session.ofText_of_splits {last : Nat} (h : Splits 0 text tokens comments last []) :
    Session.ofText text = .ok (Session.ofSplit text tokens comments) := by
  obtain ⟨htokens, hdescription⟩ := Scanner.tokens_ofText_of_splits h
  have hpass : ∀ token ∈ tokens, (!isEnd token) = true := by
    intro token htoken
    simpa [isEnd] using h.kind_ne_eof token htoken
  have hahead : (ofTokens (tokens ++ [⟨.eof, ⟨text.length, text.length⟩⟩])).ahead = tokens := by
    show List.takeWhile _ _ = _
    rw [List.takeWhile_append_of_pos hpass]
    exact List.append_nil tokens
  have hfinish : finishOf (tokens ++ [⟨.eof, ⟨text.length, text.length⟩⟩]) =
      ⟨text.length, text.length⟩ := by
    have hfind : tokens.find? isEnd = none :=
      List.find?_eq_none.mpr fun token htoken ↦ by simpa using hpass token htoken
    rw [finishOf, List.find?_append, hfind]
    rfl
  unfold ofText
  split
  · next fault scanner hscan =>
    rw [hscan] at htokens
    cases htokens
  · next read scanner hscan =>
    rw [hscan] at htokens hdescription
    obtain rfl := Except.ok.inj htokens
    change scanner.description? = _ at hdescription
    change Except.ok (Session.mk (ofTokens _).ahead (finishOf _) scanner.description?) = _
    rw [hahead, hfinish, hdescription, ofSplit]

theorem Session.ofText_of_stuck {last : Nat} {rest : List Char} {fault : Fault}
    (h : Splits 0 text tokens comments last rest) (hstuck : Stuck last rest fault) :
    Session.ofText text = .error fault := by
  have hscan := Scanner.tokens_ofText_of_stuck h hstuck
  unfold ofText
  split
  · next other scanner heq =>
    rw [heq] at hscan
    rw [Except.error.inj hscan]
  · next read scanner heq =>
    rw [heq] at hscan
    cases hscan

theorem Program.ofText_of_splits (h : Splits 0 text tokens comments text.length []) :
    Program.ofText text = (Session.ofSplit text tokens comments).next.1 := by
  rw [ofText, Session.ofText_of_splits h]

theorem Program.ofText_of_stuck {last : Nat} {rest : List Char} {fault : Fault}
    (h : Splits 0 text tokens comments last rest) (hstuck : Stuck last rest fault) :
    Program.ofText text = .error fault := by
  rw [ofText, Session.ofText_of_stuck h hstuck]

theorem Program.ofText_eq_ok_iff {read : Program} :
    Program.ofText text = .ok read ↔
      ∃ tokens comments, Splits 0 text tokens comments text.length [] ∧
        Reading.classes tokens = .ok read.classes ∧
        read.description? = comments.head?.map String.ofList := by
  constructor
  · intro h
    obtain ⟨tokens, comments, last, rest, hsplits, rfl | ⟨fault, hstuck⟩⟩ := exists_splits 0 text
    · obtain rfl := hsplits.last_eq_length
      rw [ofText_of_splits hsplits] at h
      obtain ⟨hclasses, hdescription⟩ := Session.next_eq_ok_iff.mp h
      exact ⟨tokens, comments, hsplits, hclasses, hdescription.symm⟩
    · rw [ofText_of_stuck hsplits hstuck] at h
      cases h
  · rintro ⟨tokens, comments, hsplits, hclasses, hdescription⟩
    rw [ofText_of_splits hsplits]
    exact Session.next_eq_ok_iff.mpr ⟨hclasses, hdescription.symm⟩

theorem Program.exists_of_ofText_eq_error {fault : Fault} (h : Program.ofText text = .error fault) :
    (∃ tokens comments last rest, Splits 0 text tokens comments last rest ∧
        Stuck last rest fault) ∨
      ∃ tokens comments reason rest, Splits 0 text tokens comments text.length [] ∧
        Reading.classes tokens = .error ⟨reason, rest⟩ ∧
        fault = (Session.ofSplit text rest comments).fault reason := by
  obtain ⟨tokens, comments, last, rest, hsplits, rfl | ⟨other, hstuck⟩⟩ := exists_splits 0 text
  · obtain rfl := hsplits.last_eq_length
    rw [ofText_of_splits hsplits, Session.next] at h
    cases hclasses : Reading.classes tokens with
    | ok declared =>
      rw [Session.ofSplit, hclasses] at h
      cases h
    | error stop =>
      rw [Session.ofSplit, hclasses] at h
      exact .inr ⟨tokens, comments, stop.reason, stop.rest, hsplits, hclasses,
        (Except.error.inj h).symm⟩
  · rw [ofText_of_stuck hsplits hstuck] at h
    obtain rfl := Except.error.inj h
    exact .inl ⟨tokens, comments, last, rest, hsplits, hstuck⟩

/-- The document of a program, or the first fault in it. -/
def Program.checkedDocument (program : Program) : Except Fault String :=
  match (Analyzer.fresh.analyze program).1 with
  | some fault => .error fault
  | none => .ok program.document

theorem Program.eq_document_of_checkedDocument_eq_ok {program : Program} {document : String}
    (h : program.checkedDocument = .ok document) : document = program.document := by
  rw [checkedDocument] at h
  split at h
  · cases h
  · exact (Except.ok.inj h).symm

theorem documentOf_eq_bind (text : List Char) :
    documentOf text = (Program.ofText text).bind Program.checkedDocument := by
  rw [documentOf]
  cases Program.ofText text <;> rfl

/-- A text has a document if the program that is read from it is accepted. -/
theorem exists_accepted_of_documentOf_eq_ok {document : String}
    (h : documentOf text = .ok document) :
    ∃ program, Program.ofText text = .ok program ∧
      (Analyzer.fresh.analyze program).1 = none ∧ document = program.document := by
  unfold documentOf at h
  split at h
  · cases h
  · next program hread =>
    split at h
    · cases h
    · next hnone => exact ⟨program, hread, hnone, (Except.ok.inj h).symm⟩

/-- A text has no document because no program can be read from it or because the program has a
fault. -/
theorem exists_of_documentOf_eq_error {fault : Fault} (h : documentOf text = .error fault) :
    Program.ofText text = .error fault ∨
      ∃ program, Program.ofText text = .ok program ∧
        (Analyzer.fresh.analyze program).1 = some fault := by
  unfold documentOf at h
  split at h
  · next other hread =>
    obtain rfl := Except.error.inj h
    exact .inl hread
  · next program hread =>
    split at h
    · next other hfault =>
      obtain rfl := Except.error.inj h
      exact .inr ⟨program, hread, hfault⟩
    · cases h

end Sol25
