import Sol25.Proofs.Lexis.Spelling
import Sol25.Proofs.Placeless

/-!
# What a program that can be written down looks like

Which words may name what, how a selector goes with its number of arguments, and how deep the body
of a method may get is said of the program alone, without a thought of tokens
(`Program.WellFormed`). A level is needed for every block, and one for every message that is a
receiver or an argument, since parentheses have to stand around it (`Expr.levels`,
`Expr.operandLevels`); the body of a method may need 128 of them. Spans play no part in any of this
(`Program.wellFormed_placeless_iff`).
-/

set_option autoImplicit false
set_option relaxedAutoImplicit false

namespace Sol25

open Lexis

/-! ### What is well-formed -/

/-- What goes with a number of arguments: a name with none, and otherwise as many parts as there are
arguments. -/
def IsSelector (selector : String) (count : Nat) : Prop :=
  count = 0 ∧ FreeName selector ∨
    ∃ first others, selector = String.join (first :: others) ∧ count = others.length + 1 ∧
      ∀ part ∈ first :: others, SelectorPart part

theorem IsSelector.isNameChar {selector : String} {count : Nat} (h : IsSelector selector count) :
    ∀ c ∈ selector.toList, IsNameChar c := by
  rcases h with ⟨-, hname⟩ | ⟨first, others, rfl, -, hparts⟩
  · exact hname.1.isNameChar
  · rw [String.toList_join, List.forall_mem_flatMap]
    exact fun part hpart ↦ (hparts part hpart).isNameChar

/-- The texts of the literals of a kind. -/
def LiteralKind.Admits : LiteralKind → String → Prop
  | .integer, value => Numeral value
  | .string, value => StringBody value.toList
  | .nilValue, value => value = "nil"
  | .trueValue, value => value = "true"
  | .falseValue, value => value = "false"
  | .className, value => UpperWord value

mutual

def Expr.WellFormed : Expr → Prop
  | .literal kind value _ => kind.Admits value
  | .var name _ => FreeName name ∨ name = "self" ∨ name = "super"
  | .send receiver selector args _ =>
    receiver.WellFormed ∧ IsSelector selector args.length ∧ Expr.AllWellFormed args
  | .block content => content.WellFormed

def Expr.AllWellFormed : List Expr → Prop
  | [] => True
  | expr :: rest => expr.WellFormed ∧ Expr.AllWellFormed rest

def Block.WellFormed : Block → Prop
  | ⟨params, body, _⟩ => (∀ param ∈ params, FreeName param.name) ∧ Assignment.AllWellFormed body

def Assignment.AllWellFormed : List Assignment → Prop
  | [] => True
  | assignment :: rest => assignment.WellFormed ∧ Assignment.AllWellFormed rest

def Assignment.WellFormed : Assignment → Prop
  | ⟨target, value⟩ => FreeName target.name ∧ value.WellFormed

end

/-- The parentheses that an expression needs where it is a receiver or an argument. -/
def Expr.parentheses : Expr → Nat
  | .send _ _ _ _ => 1
  | _ => 0

mutual

/-- How many levels have to be opened inside one another to write the expression. -/
def Expr.levels : Expr → Nat
  | .literal _ _ _ => 0
  | .var _ _ => 0
  | .send receiver _ args _ =>
    max (receiver.levels + receiver.parentheses) (Expr.levelsOfArgs args)
  | .block content => content.levels + 1

def Expr.levelsOfArgs : List Expr → Nat
  | [] => 0
  | arg :: rest => max (arg.levels + arg.parentheses) (Expr.levelsOfArgs rest)

/-- How many levels have to be opened inside the block, the block itself not counted. -/
def Block.levels : Block → Nat
  | ⟨_, body, _⟩ => Assignment.levelsOfAll body

def Assignment.levelsOfAll : List Assignment → Nat
  | [] => 0
  | assignment :: rest => max assignment.levels (Assignment.levelsOfAll rest)

def Assignment.levels : Assignment → Nat
  | ⟨_, value⟩ => value.levels

end

/-- The levels of an expression that is a receiver or an argument. -/
def Expr.operandLevels (expr : Expr) : Nat := expr.levels + expr.parentheses

theorem Expr.parentheses_le_one (expr : Expr) : expr.parentheses ≤ 1 := by
  cases expr <;> simp [parentheses]

theorem Expr.operandLevels_le (expr : Expr) : expr.operandLevels ≤ expr.levels + 1 :=
  Nat.add_le_add_left expr.parentheses_le_one _

structure Method.WellFormed (method : Method) : Prop where
  selector : IsSelector method.selector method.arity
  body : method.body.WellFormed
  levels : method.body.levels ≤ 128

structure ClassDef.WellFormed (declared : ClassDef) : Prop where
  name : FreeClassName declared.name.name
  parent : UpperWord declared.parent.name
  methods : ∀ method ∈ declared.methods, method.WellFormed

structure Program.WellFormed (program : Program) : Prop where
  classes : ∀ declared ∈ program.classes, declared.WellFormed
  description : ∀ description ∈ program.description?, '"' ∉ description.toList

/-! ### Spans play no part -/

theorem Expr.parentheses_placeless (expr : Expr) :
    expr.placeless.parentheses = expr.parentheses := by
  cases expr <;> rfl

mutual

theorem Expr.wellFormed_placeless_iff : ∀ expr : Expr,
    expr.placeless.WellFormed ↔ expr.WellFormed
  | .literal _ _ _ => Iff.rfl
  | .var _ _ => Iff.rfl
  | .send receiver selector args _ => by
    have hargs := Expr.allWellFormed_placeless_iff args
    have hlength : (Expr.placelessAll args).length = args.length := by
      rw [Expr.placelessAll_eq_map, List.length_map]
    rw [Expr.placeless, Expr.WellFormed, Expr.WellFormed, receiver.wellFormed_placeless_iff,
      hargs, hlength]
  | .block content => by
    rw [Expr.placeless, Expr.WellFormed, Expr.WellFormed, content.wellFormed_placeless_iff]

theorem Expr.allWellFormed_placeless_iff : ∀ exprs : List Expr,
    Expr.AllWellFormed (Expr.placelessAll exprs) ↔ Expr.AllWellFormed exprs
  | [] => Iff.rfl
  | expr :: rest => by
    rw [Expr.placelessAll, Expr.AllWellFormed, Expr.AllWellFormed, expr.wellFormed_placeless_iff,
      Expr.allWellFormed_placeless_iff rest]

theorem Block.wellFormed_placeless_iff : ∀ block : Block,
    block.placeless.WellFormed ↔ block.WellFormed
  | ⟨params, body, _⟩ => by
    rw [Block.placeless, Block.WellFormed, Block.WellFormed,
      Assignment.allWellFormed_placeless_iff body, List.forall_mem_map]
    rfl

theorem Assignment.allWellFormed_placeless_iff : ∀ body : List Assignment,
    Assignment.AllWellFormed (Assignment.placelessAll body) ↔ Assignment.AllWellFormed body
  | [] => Iff.rfl
  | ⟨target, value⟩ :: rest => by
    rw [Assignment.placelessAll, Assignment.AllWellFormed, Assignment.AllWellFormed,
      Assignment.placeless, Assignment.WellFormed, Assignment.WellFormed,
      value.wellFormed_placeless_iff, Assignment.allWellFormed_placeless_iff rest]
    rfl

end

mutual

theorem Expr.levels_placeless : ∀ expr : Expr, expr.placeless.levels = expr.levels
  | .literal _ _ _ => rfl
  | .var _ _ => rfl
  | .send receiver _ args _ => by
    rw [Expr.placeless, Expr.levels, Expr.levels, receiver.levels_placeless,
      receiver.parentheses_placeless, Expr.levelsOfArgs_placeless args]
  | .block content => by
    rw [Expr.placeless, Expr.levels, Expr.levels, content.levels_placeless]

theorem Expr.levelsOfArgs_placeless : ∀ args : List Expr,
    Expr.levelsOfArgs (Expr.placelessAll args) = Expr.levelsOfArgs args
  | [] => rfl
  | arg :: rest => by
    rw [Expr.placelessAll, Expr.levelsOfArgs, Expr.levelsOfArgs, arg.levels_placeless,
      arg.parentheses_placeless, Expr.levelsOfArgs_placeless rest]

theorem Block.levels_placeless : ∀ block : Block, block.placeless.levels = block.levels
  | ⟨_, body, _⟩ => by
    rw [Block.placeless, Block.levels, Block.levels, Assignment.levelsOfAll_placeless body]

theorem Assignment.levelsOfAll_placeless : ∀ body : List Assignment,
    Assignment.levelsOfAll (Assignment.placelessAll body) = Assignment.levelsOfAll body
  | [] => rfl
  | ⟨_, value⟩ :: rest => by
    rw [Assignment.placelessAll, Assignment.levelsOfAll, Assignment.levelsOfAll,
      Assignment.placeless, Assignment.levels, Assignment.levels, value.levels_placeless,
      Assignment.levelsOfAll_placeless rest]

end

theorem Method.wellFormed_placeless_iff {method : Method} :
    method.placeless.WellFormed ↔ method.WellFormed := by
  have hbody := method.body.wellFormed_placeless_iff
  have hlevels := method.body.levels_placeless
  constructor
  · exact fun h ↦ ⟨h.selector, hbody.mp h.body, hlevels ▸ h.levels⟩
  · exact fun h ↦ ⟨h.selector, hbody.mpr h.body, hlevels.symm ▸ h.levels⟩

theorem ClassDef.wellFormed_placeless_iff {declared : ClassDef} :
    declared.placeless.WellFormed ↔ declared.WellFormed := by
  have hmethods : (∀ method ∈ declared.placeless.methods, method.WellFormed) ↔
      ∀ method ∈ declared.methods, method.WellFormed := by
    simp only [ClassDef.placeless, List.forall_mem_map, Method.wellFormed_placeless_iff]
  constructor
  · exact fun h ↦ ⟨h.name, h.parent, hmethods.mp h.methods⟩
  · exact fun h ↦ ⟨h.name, h.parent, hmethods.mpr h.methods⟩

theorem Program.wellFormed_placeless_iff {program : Program} :
    program.placeless.WellFormed ↔ program.WellFormed := by
  have hclasses : (∀ declared ∈ program.placeless.classes, declared.WellFormed) ↔
      ∀ declared ∈ program.classes, declared.WellFormed := by
    simp only [Program.placeless, List.forall_mem_map, ClassDef.wellFormed_placeless_iff]
  exact ⟨fun h ↦ ⟨hclasses.mp h.classes, h.description⟩,
    fun h ↦ ⟨hclasses.mpr h.classes, h.description⟩⟩

end Sol25
