import Mathlib.Data.List.TakeWhile
import Sol25.Proofs.Grammar.Moved
import Sol25.Proofs.Grammar.Producible
import Sol25.Proofs.Parts

/-!
# How high expressions get

The readers count parentheses and blocks, and the tree that they build has neither the parentheses
nor a bound of its own on anything else. What is counted bounds the height of the tree all the same
(`Expr.height_le`): a message needs no level, but another message directly inside it stands in
parentheses, and so two steps down in the tree use up a level at least. A body that is read has no
more levels than the readers allow (`Reading.levels_le_of_classes_eq_ok`), whatever the spelling of
its tokens.

No less than that can be said. Blocks that are sent a message inside one another (`tower`) are as
high as the bound allows, and there are tokens for them (`Session.exists_next_eq_tower`).
-/

set_option autoImplicit false
set_option relaxedAutoImplicit false

namespace Sol25

open Grammar Lexis

/-! ### Height and levels -/

mutual

/-- How many expressions stand inside one another, counted along the deepest way down. -/
def Expr.height : Expr → Nat
  | .literal _ _ _ => 1
  | .var _ _ => 1
  | .send receiver _ args _ => max receiver.height (Expr.heightOfArgs args) + 1
  | .block content => content.height + 1

def Expr.heightOfArgs : List Expr → Nat
  | [] => 0
  | arg :: rest => max arg.height (Expr.heightOfArgs rest)

/-- The greatest height of the values in a block. -/
def Block.height : Block → Nat
  | ⟨_, body, _⟩ => Assignment.heightOfAll body

def Assignment.heightOfAll : List Assignment → Nat
  | [] => 0
  | assignment :: rest => max assignment.height (Assignment.heightOfAll rest)

def Assignment.height : Assignment → Nat
  | ⟨_, value⟩ => value.height

end

mutual

/-- A message may be higher by one than what needs as many levels and is no message. -/
theorem Expr.height_le : ∀ expr : Expr, expr.height ≤ 2 * expr.levels + expr.parentheses + 1
  | .literal _ _ _ => Nat.le_refl 1
  | .var _ _ => Nat.le_refl 1
  | .send receiver _ args _ => by
    have hreceiver := receiver.height_le
    have hargs := Expr.heightOfArgs_le args
    rw [Expr.height, Expr.levels, Expr.parentheses]
    omega
  | .block content => by
    have hcontent := content.height_le
    have hnone : (Expr.block content).parentheses = 0 := rfl
    rw [Expr.height, Expr.levels, hnone]
    omega

theorem Expr.heightOfArgs_le : ∀ args : List Expr,
    Expr.heightOfArgs args ≤ 2 * Expr.levelsOfArgs args + 1
  | [] => Nat.zero_le _
  | arg :: rest => by
    have harg := arg.height_le
    have hparentheses := arg.parentheses_le_one
    have hrest := Expr.heightOfArgs_le rest
    rw [Expr.heightOfArgs, Expr.levelsOfArgs]
    omega

theorem Block.height_le : ∀ block : Block, block.height ≤ 2 * block.levels + 2
  | ⟨_, body, _⟩ => by
    rw [Block.height, Block.levels]
    exact Assignment.heightOfAll_le body

theorem Assignment.heightOfAll_le : ∀ body : List Assignment,
    Assignment.heightOfAll body ≤ 2 * Assignment.levelsOfAll body + 2
  | [] => Nat.zero_le _
  | ⟨_, value⟩ :: rest => by
    have hvalue := value.height_le
    have hparentheses := value.parentheses_le_one
    have hrest := Assignment.heightOfAll_le rest
    rw [Assignment.heightOfAll, Assignment.height, Assignment.levelsOfAll, Assignment.levels]
    omega

end

/-! ### The expressions inside an expression -/

theorem Expr.levels_le_levelsOfArgs {args : List Expr} :
    ∀ arg ∈ args, arg.levels ≤ Expr.levelsOfArgs args := by
  induction args with
  | nil => exact List.forall_mem_nil _
  | cons first rest ih =>
    rw [Expr.levelsOfArgs]
    refine List.forall_mem_cons.mpr ⟨?_, fun arg harg ↦ ?_⟩
    · omega
    · exact Nat.le_trans (ih arg harg) (Nat.le_max_right _ _)

theorem Assignment.levels_le_levelsOfAll {body : List Assignment} :
    ∀ assignment ∈ body, assignment.value.levels ≤ Assignment.levelsOfAll body := by
  induction body with
  | nil => exact List.forall_mem_nil _
  | cons first rest ih =>
    obtain ⟨target, value⟩ := first
    rw [Assignment.levelsOfAll, Assignment.levels]
    refine List.forall_mem_cons.mpr ⟨Nat.le_max_left _ _, fun assignment hassignment ↦ ?_⟩
    exact Nat.le_trans (ih assignment hassignment) (Nat.le_max_right _ _)

theorem Block.value_levels_le (block : Block) :
    ∀ assignment ∈ block.body, assignment.value.levels ≤ block.levels := by
  obtain ⟨params, body, span⟩ := block
  rw [Block.levels]
  exact Assignment.levels_le_levelsOfAll

theorem Expr.levels_children_le (whole : Expr) :
    ∀ child ∈ whole.children, child.levels ≤ whole.levels := by
  cases whole with
  | literal _ _ _ | var _ _ => exact fun _ hchild ↦ absurd hchild List.not_mem_nil
  | send receiver selector args span =>
    rw [Expr.levels]
    refine List.forall_mem_cons.mpr ⟨?_, fun arg harg ↦ ?_⟩
    · omega
    · exact Nat.le_trans (Expr.levels_le_levelsOfArgs arg harg) (Nat.le_max_right _ _)
  | block content =>
    rw [Expr.levels]
    refine List.forall_mem_map.mpr fun assignment hassignment ↦ ?_
    exact Nat.le_succ_of_le (content.value_levels_le assignment hassignment)

theorem Expr.PartOf.levels_le {part whole : Expr} (h : part.PartOf whole) :
    part.levels ≤ whole.levels :=
  h.of_children (P := fun expr ↦ expr.levels ≤ whole.levels)
    (fun expr hexpr child hchild ↦ Nat.le_trans (expr.levels_children_le child hchild) hexpr)
    (Nat.le_refl _)

/-! ### Programs that are read -/

/-- However its tokens are spelled, the body of a method has no more levels than are allowed. -/
theorem Reading.levels_le_of_classes_eq_ok {tokens : List Token} {declared : List ClassDef}
    (h : Reading.classes tokens = .ok declared) :
    ∀ item ∈ declared, ∀ method ∈ item.methods, method.body.levels ≤ maxNesting := by
  intro item hitem method hmethod
  obtain ⟨tree, -, hnesting, hmeaning⟩ := Reading.derives_of_classes_eq_ok h
  obtain ⟨itemTree, hitemTree, methodTree, hmethodTree, hmethodEq⟩ :=
    tree.exists_method_of_meaning_eq hmeaning hitem hmethod
  have hbody : methodTree.body.meaning = method.body.placeless := congrArg Method.body hmethodEq
  calc method.body.levels
      = methodTree.body.meaning.levels := by rw [hbody, method.body.levels_placeless]
    _ ≤ methodTree.body.nesting := methodTree.body.levels_meaning_le
    _ ≤ maxNesting := hnesting itemTree hitemTree methodTree hmethodTree

/-- The values in the body of a method, and in the blocks anywhere inside it. -/
theorem Reading.height_le_of_classes_eq_ok {tokens : List Token} {program : Program}
    (h : Reading.classes tokens = .ok program.classes) {content : Block}
    (hcontent : program.HasPart (.block content)) :
    ∀ assignment ∈ content.body, assignment.value.height ≤ 2 * maxNesting + 2 := by
  intro assignment hassignment
  obtain ⟨item, hitem, method, hmethod, hpart⟩ := hcontent
  have hbody := Reading.levels_le_of_classes_eq_ok h item hitem method hmethod
  have hlevels := hpart.levels_le
  have hvalue := content.value_levels_le assignment hassignment
  have hheight := assignment.value.height_le
  have hparentheses := assignment.value.parentheses_le_one
  rw [Expr.levels, Expr.levels] at hlevels
  omega

/-! ### The bound is attained -/

/-- A block that is sent a message, with another one inside it and so on, as many as are asked for,
and a variable that is sent a message in the innermost one. -/
def tower : Nat → Expr
  | 0 => .send (.var "self" Span.nowhere) "m" [] Span.nowhere
  | count + 1 =>
    .send (.block ⟨[], [⟨placelessIdent "x", tower count⟩], Span.nowhere⟩) "m" [] Span.nowhere

/-- A block with a tower in it. -/
def towerBody (count : Nat) : Block := ⟨[], [⟨placelessIdent "x", tower count⟩], Span.nowhere⟩

theorem height_tower (count : Nat) : (tower count).height = 2 * count + 2 := by
  induction count with
  | zero => rfl
  | succ count ih =>
    simp only [tower, Expr.height, Block.height, Assignment.heightOfAll, Assignment.height,
      Expr.heightOfArgs, ih, Nat.max_zero]
    omega

theorem levels_tower (count : Nat) : (tower count).levels = count := by
  induction count with
  | zero => rfl
  | succ count ih =>
    simp only [tower, Expr.levels, Block.levels, Assignment.levelsOfAll, Assignment.levels,
      Expr.parentheses, Expr.levelsOfArgs, ih, Nat.max_zero, Nat.add_zero]

theorem lowerWord_of_all {first : Char} {tail : List Char} (hfirst : first.isLower)
    (htail : tail.all Char.isAlphanum) : LowerWord (String.ofList (first :: tail)) :=
  ⟨first, tail, rfl, .inl hfirst, fun c hc ↦ .inl (List.all_eq_true.mp htail c hc)⟩

theorem wellFormed_tower (count : Nat) : (tower count).WellFormed := by
  have hselector : IsSelector "m" 0 :=
    .inl ⟨rfl, lowerWord_of_all rfl rfl, by rintro ⟨⟩ <;> decide⟩
  have htarget : FreeName "x" := ⟨lowerWord_of_all rfl rfl, by rintro ⟨⟩ <;> decide⟩
  induction count with
  | zero => exact ⟨.inr (.inl rfl), hselector, trivial⟩
  | succ count ih => exact ⟨⟨List.forall_mem_nil _, ⟨htarget, ih⟩, trivial⟩, hselector, trivial⟩

def towerMethod (count : Nat) : Method := ⟨"run", 0, towerBody count, Span.nowhere⟩

def towerClass (count : Nat) : ClassDef :=
  ⟨placelessIdent "Main", placelessIdent "Object", [towerMethod count]⟩

/-- A program with a tower in the body of its only method. -/
def towerProgram (count : Nat) : Program := ⟨[towerClass count], none⟩

theorem wellFormed_towerProgram {count : Nat} (h : count ≤ 128) :
    (towerProgram count).WellFormed := by
  have hselector : IsSelector "run" 0 :=
    .inl ⟨rfl, lowerWord_of_all rfl rfl, by rintro ⟨⟩ <;> decide⟩
  have hmain : FreeClassName "Main" :=
    ⟨⟨'M', ['a', 'i', 'n'], rfl, rfl, List.all_eq_true.mp rfl⟩, by rintro ⟨⟩ <;> decide⟩
  have htarget : FreeName "x" := ⟨lowerWord_of_all rfl rfl, by rintro ⟨⟩ <;> decide⟩
  have hbody : (towerBody count).WellFormed :=
    ⟨List.forall_mem_nil _, ⟨htarget, wellFormed_tower count⟩, trivial⟩
  have hlevels : (towerBody count).levels ≤ 128 := by
    simpa [towerBody, Block.levels, Assignment.levelsOfAll, Assignment.levels, levels_tower] using h
  refine ⟨List.forall_mem_singleton.mpr ⟨hmain, upperWord_name .objectClass, ?_⟩, by rintro _ ⟨⟩⟩
  exact List.forall_mem_singleton.mpr ⟨hselector, hbody, hlevels⟩

theorem placeless_tower (count : Nat) : (tower count).placeless = tower count := by
  induction count with
  | zero => rfl
  | succ count ih =>
    simp only [tower, Expr.placeless, Block.placeless, Assignment.placelessAll,
      Assignment.placeless, Expr.placelessAll, List.map_nil, ih]
    rfl

theorem placeless_towerProgram (count : Nat) :
    (towerProgram count).placeless = towerProgram count := by
  have hbody : (towerBody count).placeless = towerBody count := by
    simp only [towerBody, Block.placeless, Assignment.placelessAll, Assignment.placeless,
      List.map_nil, placeless_tower]
    rfl
  have hmethod : (towerMethod count).placeless = towerMethod count :=
    congrArg (Method.mk "run" 0 · Span.nowhere) hbody
  rw [towerProgram, Program.placeless, List.map_singleton, towerClass, ClassDef.placeless,
    List.map_singleton, hmethod]
  rfl

/-- A program that is well-formed is read without places from tokens that have none. -/
theorem Session.exists_next_eq_placeless {program : Program} (h : program.WellFormed) :
    ∃ tokens, (ofTokens tokens).next.1 = .ok ⟨program.placeless.classes, none⟩ := by
  obtain ⟨text, read, hread, hplaceless⟩ := Program.exists_text_of_wellFormed h
  obtain ⟨tokens, comments, hsplits, hclasses, -⟩ := Program.ofText_eq_ok_iff.mp hread
  refine ⟨tokens.map (Token.moved everywhere), next_eq_ok_iff.mpr ⟨?_, rfl⟩⟩
  have hahead : (ofTokens (tokens.map (Token.moved everywhere))).ahead =
      tokens.map (Token.moved everywhere) := by
    refine List.takeWhile_eq_self_iff.mpr (List.forall_mem_map.mpr fun token htoken ↦ ?_)
    change (!decide (token.kind = .eof)) = true
    simpa using hsplits.kind_ne_eof token htoken
  rw [hahead, Reading.classes_moved monotone_everywhere, hclasses, ClassDef.moved_everywhere,
    ← hplaceless]
  rfl

/-- Tokens can be read as a program with a tower that is as high as the limit on levels allows. -/
theorem Session.exists_next_eq_tower :
    ∃ tokens, (ofTokens tokens).next.1 = .ok (towerProgram Reading.maxNesting) := by
  have hread := exists_next_eq_placeless (wellFormed_towerProgram (Nat.le_refl 128))
  rwa [placeless_towerProgram] at hread

end Sol25
