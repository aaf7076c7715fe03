import Sol25.Program.Session
import Sol25.Proofs.Grammar.Complete

/-!
# A session reads what the grammar derives

A session in front of tokens reads those in front of the first token that marks the end, all of them
if there is none (`kindsBeforeEnd`). `next_ofTokens_ok_iff_derives` says when it succeeds and with
what: a program is read exactly if the grammar derives the kinds of these tokens by a derivation
that nests at most 128 deep in the body of every method, and it is, up to spans, the program which
that derivation denotes. Both directions rest on the readers: `derives_of_classes_eq_ok` finds the
derivation behind what was read, and `exists_classes_eq_ok_of_derives` reads what a derivation
yields. As the reading is a function of the tokens, the grammar is unambiguous within that limit
(`Derives.unique`).
-/

set_option autoImplicit false
set_option relaxedAutoImplicit false

namespace Sol25

open Grammar
open Token (Kind)

/-- The kinds of the tokens in front of the first one that marks the end of the input. -/
def kindsBeforeEnd (tokens : List Token) : List Kind :=
  (tokens.map Token.kind).takeWhile (· ≠ .eof)

/-- Within the limit, the grammar gives one meaning at most to a sequence of tokens. -/
theorem Grammar.Derives.unique {kinds : List Kind} {first second : Program}
    (hfirst : Derives Reading.maxNesting kinds first)
    (hsecond : Derives Reading.maxNesting kinds second) : first = second := by
  have hkinds : (kinds.map (Token.mk · Span.nowhere)).map Token.kind = kinds := by
    rw [List.map_map]
    exact List.map_id kinds
  rw [← hkinds] at hfirst hsecond
  obtain ⟨declared, hdeclared, rfl⟩ := Reading.exists_classes_eq_ok_of_derives hfirst
  obtain ⟨other, hother, rfl⟩ := Reading.exists_classes_eq_ok_of_derives hsecond
  rw [hdeclared] at hother
  rw [Except.ok.inj hother]

namespace Session

theorem map_kind_ahead_ofTokens (tokens : List Token) :
    (ofTokens tokens).ahead.map Token.kind = kindsBeforeEnd tokens := by
  show (tokens.takeWhile (!isEnd ·)).map Token.kind = _
  rw [kindsBeforeEnd, List.takeWhile_map]
  congr 2
  funext token
  simp [isEnd]

/-- A session reads the classes ahead of it, and adds the description that awaits its program. -/
theorem next_eq_ok_iff {session : Session} {program : Program} :
    session.next.1 = .ok program ↔
      Reading.classes session.ahead = .ok program.classes ∧
        session.description? = program.description? := by
  obtain ⟨declared, description?⟩ := program
  cases h : Reading.classes session.ahead <;> simp [next, h]

/-- What a session in front of tokens reads first, up to spans, is what the grammar derives from
the kinds of the tokens in front of the end, with parentheses and blocks at most 128 deep inside the
body of a method. -/
theorem next_ofTokens_ok_iff_derives (tokens : List Token) (program : Program) :
    (∃ read, (ofTokens tokens).next.1 = .ok read ∧ read.placeless = program) ↔
      Derives 128 (kindsBeforeEnd tokens) program := by
  rw [← map_kind_ahead_ofTokens]
  constructor
  · rintro ⟨read, hread, rfl⟩
    obtain ⟨hclasses, hdescription⟩ := next_eq_ok_iff.mp hread
    have hderives := Reading.derives_of_classes_eq_ok hclasses
    rwa [Program.placeless, ← hdescription]
  · intro hderives
    obtain ⟨declared, hclasses, rfl⟩ := Reading.exists_classes_eq_ok_of_derives hderives
    exact ⟨⟨declared, none⟩, next_eq_ok_iff.mpr ⟨hclasses, rfl⟩, rfl⟩

end Session

end Sol25
