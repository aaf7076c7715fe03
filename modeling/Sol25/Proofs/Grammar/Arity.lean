import Sol25.Proofs.Grammar.Exact
import Sol25.Proofs.Lexis.Exact
import Sol25.Proofs.Lexis.Spelling

/-!
# The colons of a selector

How many arguments a method takes is counted while its selector is read, one for every part. A part
of a selector has exactly one colon, which is its last character, and a name has none. So in a
program that comes from a text the number of arguments is the number of colons in the selector
(`countsColons_of_ofText_eq_ok`).
-/

set_option autoImplicit false
set_option relaxedAutoImplicit false

namespace Sol25

open Grammar
open Token (Kind)

/-- The method takes as many arguments as its selector has colons. -/
def Method.CountsColons (method : Method) : Prop :=
  method.arity = method.selector.toList.count ':'

namespace Lexis

/-- A name has no colon and a part of a selector has one. -/
def ColonsFit : Kind → Prop
  | .ident name => name.toList.count ':' = 0
  | .selector part => part.toList.count ':' = 1
  | _ => True

theorem ne_colon_of_wordChar {c : Char} (h : c.isAlphanum ∨ c = '_') : c ≠ ':' := by
  rcases h with h | rfl
  · rintro rfl
    exact absurd h (by decide)
  · decide

theorem count_colon_word {first : Char} {tail : List Char} (hfirst : first.isLower ∨ first = '_')
    (htail : ∀ c ∈ tail, c.isAlphanum ∨ c = '_') : (first :: tail).count ':' = 0 := by
  have hlead : first ≠ ':' := by
    rcases hfirst with hlower | rfl
    · rintro rfl
      exact absurd hlower (by decide)
    · decide
  apply List.count_eq_zero.mpr
  intro hcolon
  rcases List.mem_cons.mp hcolon with hcolon | hcolon
  · exact hlead hcolon.symm
  · exact ne_colon_of_wordChar (htail _ hcolon) rfl

theorem LowerWord.count_colon {word : String} (h : LowerWord word) :
    word.toList.count ':' = 0 := by
  obtain ⟨first, tail, rfl, hfirst, htail⟩ := h
  rw [String.toList_ofList, count_colon_word hfirst htail]

theorem Pattern.colonsFit {following lexeme : List Char} {kind : Kind}
    (h : Pattern following kind lexeme) : ColonsFit kind := by
  cases h with
  | ident hfirst htail =>
    rw [ColonsFit, String.toList_ofList]
    exact count_colon_word hfirst htail
  | selector hfirst htail _ =>
    rw [ColonsFit, String.toList_ofList, ← List.cons_append, List.count_append,
      count_colon_word hfirst htail]
    rfl
  | _ => exact trivial

end Lexis

open Lexis

theorem count_colon_join {parts : List String} (h : ∀ part ∈ parts, part.toList.count ':' = 1) :
    (String.join parts).toList.count ':' = parts.length := by
  induction parts with
  | nil => rfl
  | cons part parts ih =>
    obtain ⟨hpart, hparts⟩ := List.forall_mem_cons.mp h
    rw [String.join_cons, String.toList_append, List.count_append, hpart, ih hparts,
      List.length_cons, Nat.add_comm]

/-- The arity that a derivation finds for a selector is the number of its colons. -/
theorem Grammar.HeadingTree.arity_eq_count {heading : HeadingTree}
    (h : ∀ kind ∈ heading.kinds, ColonsFit kind) :
    heading.arity = heading.selector.toList.count ':' := by
  cases heading with
  | name word => exact (h (.ident word) List.mem_cons_self).symm
  | parts first others =>
    have hparts : ∀ part ∈ first :: others, part.toList.count ':' = 1 := fun part hpart ↦
      h (.selector part) (List.mem_map_of_mem hpart)
    rw [HeadingTree.arity, HeadingTree.selector, count_colon_join hparts, List.length_cons]

theorem mem_kinds_of_mem_heading {tree : ProgramTree} {declared : ClassTree} {method : MethodTree}
    (hdeclared : declared ∈ tree.classes) (hmethod : method ∈ declared.methods) {kind : Kind}
    (hkind : kind ∈ method.heading.kinds) : kind ∈ tree.kinds := by
  have hmethodKinds : kind ∈ declared.methods.flatMap MethodTree.kinds :=
    List.mem_flatMap.mpr ⟨method, hmethod, List.mem_append_left _ hkind⟩
  refine List.mem_flatMap.mpr ⟨declared, hdeclared, ?_⟩
  rw [ClassTree.kinds]
  simp only [List.mem_cons, List.mem_append]
  exact .inr (.inr (.inr (.inr (.inr (.inl hmethodKinds)))))

/-- What is read from tokens whose colons fit has arities that fit. -/
theorem countsColons_of_classes_eq_ok {tokens : List Token} {declared : List ClassDef}
    (hcolons : ∀ token ∈ tokens, ColonsFit token.kind)
    (h : Reading.classes tokens = .ok declared) :
    ∀ item ∈ declared, ∀ method ∈ item.methods, method.CountsColons := by
  obtain ⟨tree, hkinds, -, hmeaning⟩ := Reading.derives_of_classes_eq_ok h
  intro item hitem method hmethod
  obtain ⟨itemTree, hitemTree, methodTree, hmethodTree, hmethodEq⟩ :=
    tree.exists_method_of_meaning_eq hmeaning hitem hmethod
  have harity : methodTree.heading.arity = method.arity := congrArg Method.arity hmethodEq
  have hselector : methodTree.heading.selector = method.selector :=
    congrArg Method.selector hmethodEq
  have hfit : ∀ kind ∈ methodTree.heading.kinds, ColonsFit kind := by
    intro kind hkind
    have hmem : kind ∈ tokens.map Token.kind :=
      hkinds ▸ mem_kinds_of_mem_heading hitemTree hmethodTree hkind
    obtain ⟨token, htoken, rfl⟩ := List.mem_map.mp hmem
    exact hcolons token htoken
  rw [Method.CountsColons, ← harity, ← hselector, HeadingTree.arity_eq_count hfit]

/-- In a program that comes from a text every method takes as many arguments as its selector has
colons. -/
theorem countsColons_of_ofText_eq_ok {text : List Char} {program : Program}
    (h : Program.ofText text = .ok program) :
    ∀ declared ∈ program.classes, ∀ method ∈ declared.methods, method.CountsColons := by
  unfold Program.ofText Session.ofText at h
  cases htokens : (Scanner.ofText text).tokens with
  | mk result scanner =>
    rw [htokens] at h
    cases result with
    | error fault => cases h
    | ok tokens =>
      have hread : (Scanner.ofText text).tokens.1 = .ok tokens := by rw [htokens]
      have hpatterns := Scanner.pattern_of_mem_tokens_ofText hread
      have hcolons : ∀ token ∈ (Session.ofTokens tokens).ahead, ColonsFit token.kind := by
        intro token htoken
        have hmem : token ∈ tokens := (List.takeWhile_sublist _).subset htoken
        rcases hpatterns token hmem with hend | hpattern
        · rw [hend]
          trivial
        · obtain ⟨lexeme, following, hpattern⟩ := hpattern
          exact hpattern.colonsFit
      exact countsColons_of_classes_eq_ok hcolons (Session.next_eq_ok_iff.mp h).1

end Sol25
