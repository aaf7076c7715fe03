import Sol25.Proofs.Analysis.Moved
import Sol25.Proofs.Grammar.Moved
import Sol25.Proofs.Stages

/-!
# Layout never influences the result

How a program is laid out shows in the places of its tokens and nowhere else. Texts that divide into
tokens of the same kinds, with the same description, have the same document, or else their first
faults differ by nothing but their places (`documentOf_eq_of_kinds_eq`). No stage lets a place
through: token sequences of the same kinds are read alike however often a session is asked to read
(`Session.results_eq_of_kinds_eq`), and programs that are the same up to places are analyzed alike,
whatever the analyzer has seen before, and have the same document. `layout_irrelevant` says all of
it.

To forget the places is to move them all to one, so that each of these is a case of what holds of
tokens and programs in other places.
-/

set_option autoImplicit false
set_option relaxedAutoImplicit false

namespace Sol25

variable {move : Nat → Nat} {text other : List Char} {tokens others : List Token}

/-! ### Sessions -/

namespace Session

/-- What comes of reading, without places. -/
def placelessOutcome (outcome : Except Fault Program) : Except Fault Program :=
  (outcome.map Program.placeless).mapError Fault.placeless

/-- What comes of reading as many times as there are calls, one after the other. -/
def results : (calls : Nat) → Session → List (Except Fault Program)
  | 0, _ => []
  | calls + 1, session => session.next.1 :: results calls session.next.2

theorem movedOutcome_everywhere : movedOutcome everywhere = placelessOutcome := by
  funext outcome
  rw [movedOutcome, Program.moved_everywhere, Fault.moved_everywhere, placelessOutcome]

theorem results_moved (hmove : Monotone move) (calls : Nat) (session : Session) :
    (session.moved move).results calls = (session.results calls).map (movedOutcome move) := by
  induction calls generalizing session with
  | zero => rfl
  | succ calls ih => rw [results, results, next_moved hmove, ih, List.map_cons]

/-- Sessions that are the same up to places read the same up to places. -/
theorem results_eq_of_moved_eq {session twin : Session}
    (h : session.moved everywhere = twin.moved everywhere) (calls : Nat) :
    (session.results calls).map placelessOutcome = (twin.results calls).map placelessOutcome := by
  rw [← movedOutcome_everywhere, ← results_moved monotone_everywhere,
    ← results_moved monotone_everywhere, h]

theorem moved_ofTokens_eq (h : tokens.map Token.kind = others.map Token.kind)
    (description? : Option String) :
    ({ ofTokens tokens with description? := description? } : Session).moved everywhere =
      ({ ofTokens others with description? := description? } : Session).moved everywhere := by
  have hahead : (ofTokens tokens).ahead.map (Token.moved everywhere) =
      (ofTokens others).ahead.map (Token.moved everywhere) := by
    rw [Token.map_moved_everywhere_eq_iff, map_kind_ahead_ofTokens, map_kind_ahead_ofTokens,
      kindsBeforeEnd, kindsBeforeEnd, h]
  exact congrArg (Session.mk · Span.nowhere description?) hahead

theorem results_eq_of_kinds_eq (h : tokens.map Token.kind = others.map Token.kind) (calls : Nat) :
    ((ofTokens tokens).results calls).map placelessOutcome =
      ((ofTokens others).results calls).map placelessOutcome :=
  results_eq_of_moved_eq (moved_ofTokens_eq h none) calls

theorem ofText_of_tokens_eq_ok (h : (Scanner.ofText text).tokens.1 = .ok tokens) :
    ofText text = .ok { ofTokens tokens with
      description? := (Scanner.ofText text).tokens.2.description? } := by
  unfold ofText
  split
  · next fault scanner hscan =>
    rw [hscan] at h
    cases h
  · next read scanner hscan =>
    rw [hscan] at h ⊢
    obtain rfl := Except.ok.inj h
    rfl

end Session

/-! ### Documents -/

/-- A program in other places has the same document, or its first fault in the new place. -/
theorem Program.checkedDocument_moved (program : Program) :
    (program.moved move).checkedDocument = program.checkedDocument.mapError (Fault.moved move) := by
  rw [checkedDocument, Analyzer.analyze_moved, document_moved, checkedDocument, Check.moved,
    Check.movedAnswer]
  cases (Analyzer.fresh.analyze program).1 <;> rfl

/-- If what comes of reading is moved, so is the fault of what has no document. -/
theorem bind_checkedDocument_movedOutcome (outcome : Except Fault Program) :
    (Session.movedOutcome move outcome).bind Program.checkedDocument =
      (outcome.bind Program.checkedDocument).mapError (Fault.moved move) := by
  cases outcome with
  | error fault => rfl
  | ok program => exact program.checkedDocument_moved

theorem documentOf_eq_of_kinds_eq (htext : (Scanner.ofText text).tokens.1 = .ok tokens)
    (hother : (Scanner.ofText other).tokens.1 = .ok others)
    (hkinds : tokens.map Token.kind = others.map Token.kind)
    (hdescription : (Scanner.ofText text).tokens.2.description? =
      (Scanner.ofText other).tokens.2.description?) :
    (documentOf text).mapError Fault.placeless = (documentOf other).mapError Fault.placeless := by
  have hforget {text : List Char} {session : Session} (h : Session.ofText text = .ok session) :
      (documentOf text).mapError Fault.placeless =
        (session.moved everywhere).next.1.bind Program.checkedDocument := by
    rw [documentOf_eq_bind, Program.ofText, h, Session.next_moved monotone_everywhere,
      bind_checkedDocument_movedOutcome, Fault.moved_everywhere]
  rw [hforget (Session.ofText_of_tokens_eq_ok htext),
    hforget (Session.ofText_of_tokens_eq_ok hother), hdescription,
    Session.moved_ofTokens_eq hkinds]

/-- Neither a document nor anything else that a stage comes to depends on the places of tokens. -/
theorem layout_irrelevant :
    (∀ text other tokens others,
      (Scanner.ofText text).tokens.1 = .ok tokens → (Scanner.ofText other).tokens.1 = .ok others →
        tokens.map Token.kind = others.map Token.kind →
        (Scanner.ofText text).tokens.2.description? =
          (Scanner.ofText other).tokens.2.description? →
        (documentOf text).mapError Fault.placeless = (documentOf other).mapError Fault.placeless) ∧
      (∀ tokens others : List Token, tokens.map Token.kind = others.map Token.kind →
        ∀ calls, ((Session.ofTokens tokens).results calls).map Session.placelessOutcome =
          ((Session.ofTokens others).results calls).map Session.placelessOutcome) ∧
      ∀ program twin : Program, program.placeless = twin.placeless →
        (∀ analyzer : Analyzer,
          (analyzer.analyze program).1.map Fault.placeless =
              (analyzer.analyze twin).1.map Fault.placeless ∧
            (analyzer.analyze program).2 = (analyzer.analyze twin).2) ∧
          program.document = twin.document :=
  ⟨fun _ _ _ _ ↦ documentOf_eq_of_kinds_eq, fun _ _ ↦ Session.results_eq_of_kinds_eq,
    fun _ _ h ↦ ⟨Analyzer.analyze_eq_of_placeless_eq h, Program.document_eq_of_placeless_eq h⟩⟩

/-- Outcomes that differ in nothing but the places of their faults have the same result. -/
theorem eq_ok_of_mapError_eq {α : Type} {outcome other : Except Fault α} {result : α}
    (h : outcome.mapError Fault.placeless = other.mapError Fault.placeless)
    (hresult : outcome = .ok result) : other = .ok result := by
  rw [hresult] at h
  cases other with
  | error fault => cases h
  | ok _ => exact h.symm

/-- A program in one line. -/
def inOneLine : List Char := "class Main:Object\x7brun[|x:=self.]\x7d".toList

/-- The same program in many. -/
def inManyLines : List Char :=
  "class Main : Object \x7b\n  run [ |\n    x := self.\n  ]\n\x7d\n".toList

/-- The tokens of a class. -/
def classTokens : List Token :=
  [⟨.keyword .classWord, ⟨0, 5⟩⟩, ⟨.classIdent "A", ⟨6, 7⟩⟩, ⟨.mark .colon, ⟨7, 8⟩⟩,
    ⟨.classIdent "B", ⟨8, 9⟩⟩, ⟨.mark .leftBrace, ⟨9, 10⟩⟩, ⟨.mark .rightBrace, ⟨10, 11⟩⟩]

/-- The program that is read from them, whose first fault is that there is no class `B`. -/
def Program.belowUnknown : Program := ⟨[⟨⟨"A", ⟨6, 7⟩⟩, ⟨"B", ⟨8, 9⟩⟩, []⟩], none⟩

/-- A program has the same document in one line and in many. A line break in front of a lone name
moves the fault, and one in front of a class moves what is read and what is wrong with it. -/
theorem layout_of_line_breaks :
    (inOneLine ≠ inManyLines ∧
        ∃ document, documentOf inOneLine = .ok document ∧ documentOf inManyLines = .ok document) ∧
      (documentOf ['x'] ≠ documentOf ['\n', 'x'] ∧
        (documentOf ['x']).mapError Fault.placeless =
          (documentOf ['\n', 'x']).mapError Fault.placeless) ∧
      ((Session.ofTokens classTokens).results 2).map Session.placelessOutcome =
        ((Session.ofTokens (classTokens.map (Token.moved (· + 1)))).results 2).map
          Session.placelessOutcome ∧
      (Analyzer.fresh.analyze Program.belowUnknown).1 ≠
        (Analyzer.fresh.analyze (Program.belowUnknown.moved (· + 1))).1 ∧
      ((Analyzer.fresh.analyze Program.belowUnknown).1.map Fault.placeless =
          (Analyzer.fresh.analyze (Program.belowUnknown.moved (· + 1))).1.map Fault.placeless ∧
        (Analyzer.fresh.analyze Program.belowUnknown).2 =
          (Analyzer.fresh.analyze (Program.belowUnknown.moved (· + 1))).2) ∧
      Program.belowUnknown.document = (Program.belowUnknown.moved (· + 1)).document := by
  have hname : (documentOf ['x']).mapError Fault.placeless =
      (documentOf ['\n', 'x']).mapError Fault.placeless :=
    layout_irrelevant.1 ['x'] ['\n', 'x'] [⟨.ident "x", ⟨0, 1⟩⟩, ⟨.eof, ⟨1, 1⟩⟩]
      [⟨.ident "x", ⟨1, 2⟩⟩, ⟨.eof, ⟨2, 2⟩⟩] (by decide +kernel) (by decide +kernel) rfl
      (by decide +kernel)
  have hprogram := layout_irrelevant.2.2 Program.belowUnknown
    (Program.belowUnknown.moved (· + 1)) (by rfl)
  refine ⟨⟨by decide +kernel, ?_⟩, ⟨by decide +kernel, hname⟩, layout_irrelevant.2.1 _ _ (by rfl) 2,
    by decide +kernel, hprogram.1 Analyzer.fresh, hprogram.2⟩
  obtain ⟨tokens, htokens⟩ : ∃ tokens, (Scanner.ofText inOneLine).tokens.1 = .ok tokens :=
    exists_eq_ok_of_isOk (by decide +kernel)
  obtain ⟨others, hothers⟩ : ∃ others, (Scanner.ofText inManyLines).tokens.1 = .ok others :=
    exists_eq_ok_of_isOk (by decide +kernel)
  obtain ⟨document, hdocument⟩ : ∃ document, documentOf inOneLine = .ok document :=
    exists_eq_ok_of_isOk (by decide +kernel)
  have hkinds : (Scanner.ofText inOneLine).tokens.1.map (List.map Token.kind) =
      (Scanner.ofText inManyLines).tokens.1.map (List.map Token.kind) := by
    decide +kernel
  rw [htokens, hothers] at hkinds
  have hsame := layout_irrelevant.1 _ _ _ _ htokens hothers (Except.ok.inj hkinds)
    (by decide +kernel)
  exact ⟨document, hdocument, eq_ok_of_mapError_eq hsame hdocument⟩

end Sol25
