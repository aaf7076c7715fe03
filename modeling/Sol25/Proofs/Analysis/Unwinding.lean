import Sol25.Analysis.Basic
import Sol25.Proofs.Check
import Sol25.Proofs.ScopeStack

/-!
# Scopes are left again

The checks of a program open a scope for every block they go into, and they break off at the first
fault, however deep inside. Still they leave the scopes as they were before
(`restores_checkClasses`), whatever the registry says and whether they find a fault or not.

The reason is that a scope is left on every way out of the block for which it was opened. While it
is open, the names of the innermost table are all that changes (`yields_checkBody`), and they are
forgotten with it (`restores_inScope`).
-/

set_option autoImplicit false
set_option relaxedAutoImplicit false

namespace Sol25.Analysis

open Check (yields_pass yields_forEach restores_pass restores_fail restores_demand restores_forEach)
open Scopes (ofStack)

variable {registry : Registry} {inner : Table Binding} {outer stack : List (Table Binding)}

/-! ### The innermost table -/

theorem yields_defineParam (param : Ident) :
    Check.Yields (Scopes.defineParam param) (ofStack (inner :: outer))
      fun _ scopes ↦ ∃ last, scopes = ofStack (last :: outer) := by
  rw [Check.Yields, Scopes.defineParam]
  split
  · exact ⟨inner, rfl⟩
  · exact ⟨_, Scopes.bind_ofStack _⟩

theorem yields_defineTarget (target : Ident) :
    Check.Yields (Scopes.defineTarget target) (ofStack (inner :: outer))
      fun _ scopes ↦ ∃ last, scopes = ofStack (last :: outer) := by
  rw [Check.Yields, Scopes.defineTarget]
  split
  · exact ⟨inner, rfl⟩
  · exact ⟨_, Scopes.bind_ofStack _⟩

theorem yields_checkTarget (target : Ident) :
    (checkTarget target).Yields (ofStack (inner :: outer))
      fun _ scopes ↦ ∃ last, scopes = ofStack (last :: outer) := by
  rw [checkTarget]
  split
  · exact yields_pass ⟨inner, rfl⟩
  · exact yields_defineTarget target

/-- The table of a scope is forgotten with the scope, so it may hold anything by then. -/
theorem restores_inScope {check : Check Scopes} (hne : stack ≠ [])
    (h : check.Yields (ofStack (Table.empty :: stack))
      fun _ scopes ↦ ∃ last, scopes = ofStack (last :: stack)) :
    (inScope check).Restores (ofStack stack) := by
  obtain ⟨last, hlast⟩ := h
  rw [← Scopes.enter_ofStack hne] at hlast
  change (check (ofStack stack).enter).2.exit = ofStack stack
  rw [hlast, Scopes.exit_ofStack hne]

/-! ### Expressions and blocks -/

theorem restores_checkMessage {σ : Type} (receiver : Expr) (selector : String) (span : Span)
    (state : σ) : (checkMessage registry receiver selector span).Restores state := by
  rw [checkMessage]
  split
  · exact restores_pass
  · exact restores_demand _ _ _

theorem yields_checkAssignment {value : Expr} (target : Ident)
    (hvalue : ∀ bound, (checkExpr registry value).Restores (ofStack (bound :: outer))) :
    (checkAssignment registry ⟨target, value⟩).Yields (ofStack (inner :: outer))
      fun _ scopes ↦ ∃ last, scopes = ofStack (last :: outer) := by
  rw [checkAssignment]
  refine (yields_checkTarget target).andThen (fun _ hstate ↦ ?_) fun _ _ hstopped ↦ hstopped
  obtain ⟨bound, rfl⟩ := hstate
  exact (hvalue bound).mono fun _ _ hleft ↦ ⟨bound, hleft⟩

mutual

theorem restores_checkExpr {stack : List (Table Binding)} (hne : stack ≠ []) :
    ∀ expr : Expr, (checkExpr registry expr).Restores (ofStack stack)
  | .literal .className value span => by
    rw [checkExpr]
    exact restores_demand _ _ _
  | .literal .integer _ _ | .literal .string _ _ | .literal .nilValue _ _
  | .literal .trueValue _ _ | .literal .falseValue _ _ => restores_pass
  | .var name span => by
    rw [checkExpr]
    exact restores_demand _ _ _
  | .send receiver selector args span => by
    rw [checkExpr]
    exact (restores_checkExpr hne receiver).andThen
      ((restores_checkArgs hne args).andThen (restores_checkMessage receiver selector span _))
  | .block content => by
    rw [checkExpr]
    exact restores_checkBlock hne content

theorem restores_checkArgs {stack : List (Table Binding)} (hne : stack ≠ []) :
    ∀ args : List Expr, (checkArgs registry args).Restores (ofStack stack)
  | [] => by
    rw [checkArgs]
    exact restores_pass
  | arg :: rest => by
    rw [checkArgs]
    exact (restores_checkExpr hne arg).andThen (restores_checkArgs hne rest)

theorem restores_checkBlock {stack : List (Table Binding)} (hne : stack ≠ []) :
    ∀ block : Block, (checkBlock registry block).Restores (ofStack stack)
  | ⟨params, body, _⟩ => by
    rw [checkBlock]
    have hparams : (Check.forEach params Scopes.defineParam).Yields (ofStack (Table.empty :: stack))
        fun _ scopes ↦ ∃ last, scopes = ofStack (last :: stack) := by
      refine yields_forEach (fun param _ scopes hscopes ↦ ?_) ⟨_, rfl⟩
      obtain ⟨last, rfl⟩ := hscopes
      exact yields_defineParam param
    refine restores_inScope hne (hparams.andThen (fun _ hstate ↦ ?_) fun _ _ hstopped ↦ hstopped)
    obtain ⟨last, rfl⟩ := hstate
    exact yields_checkBody body

theorem yields_checkBody {inner : Table Binding} {outer : List (Table Binding)} :
    ∀ body : List Assignment, (checkBody registry body).Yields (ofStack (inner :: outer))
      fun _ scopes ↦ ∃ last, scopes = ofStack (last :: outer)
  | [] => by
    rw [checkBody]
    exact yields_pass ⟨inner, rfl⟩
  | ⟨target, value⟩ :: rest => by
    rw [checkBody]
    have hassignment : (checkAssignment registry ⟨target, value⟩).Yields (ofStack (inner :: outer))
        fun _ scopes ↦ ∃ last, scopes = ofStack (last :: outer) :=
      yields_checkAssignment target fun _ ↦ restores_checkExpr (List.cons_ne_nil _ _) value
    refine hassignment.andThen (fun _ hstate ↦ ?_) fun _ _ hstopped ↦ hstopped
    obtain ⟨bound, rfl⟩ := hstate
    exact yields_checkBody rest

end

/-! ### Methods, classes and programs -/

theorem restores_checkMethod (hne : stack ≠ []) (method : Method) :
    (checkMethod registry method).Restores (ofStack stack) :=
  (restores_demand _ _ _).andThen (restores_checkBlock hne method.body)

theorem restores_checkSelectors {σ : Type} (declared : ClassDef) (state : σ) :
    (checkSelectors declared).Restores state := by
  rw [checkSelectors]
  split
  · exact restores_pass
  · exact restores_fail

theorem restores_checkClass (hne : stack ≠ []) (declared : ClassDef) :
    (checkClass registry declared).Restores (ofStack stack) :=
  (restores_demand _ _ _).andThen ((restores_checkSelectors declared _).andThen
    (restores_forEach (restores_checkMethod hne) declared.methods))

theorem restores_checkMain {σ : Type} (classes : List ClassDef) (state : σ) :
    (checkMain registry classes).Restores state := by
  rw [checkMain]
  split
  · exact restores_fail
  · exact restores_demand _ _ _

/-- However the checks of the classes end, all scopes that they have opened are left. -/
theorem restores_checkClasses (hne : stack ≠ []) (classes : List ClassDef) :
    (checkClasses registry classes).Restores (ofStack stack) :=
  (restores_forEach (restores_checkClass hne) classes).andThen (restores_checkMain classes _)

end Sol25.Analysis
