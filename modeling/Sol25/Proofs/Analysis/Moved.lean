import Sol25.Analysis.Basic
import Sol25.Proofs.Moved

/-!
# Places are reported and nothing else

An analysis goes by names and numbers of arguments alone. If a program is moved to other places, the
analysis does what it did before and leaves the analyzer in the same state, and if it finds a fault,
it finds the same one where that has been moved to (`Analyzer.analyze_moved`). This holds of any
analyzer, whatever it may have seen before.

`Check.moved` is a check that reports its faults in other places. It goes through the ways in which
checks are put together, so each check of a part of a moved program is the moved check of the part.
-/

set_option autoImplicit false
set_option relaxedAutoImplicit false

namespace Sol25

variable {move : Nat → Nat}

/-! ### Checks that report elsewhere -/

namespace Check

variable {σ α β : Type}

/-- The same answer, with its fault in another place. -/
def movedAnswer (move : Nat → Nat) (answer : Option Fault × σ) : Option Fault × σ :=
  (answer.1.map (Fault.moved move), answer.2)

/-- The check that does the same and reports its fault in another place. -/
def moved (move : Nat → Nat) (check : Check σ) : Check σ := fun state ↦
  movedAnswer move (check state)

theorem moved_demand (condition : Bool) (fault : Fault) :
    (demand condition fault : Check σ).moved move = demand condition (fault.moved move) := by
  cases condition <;> rfl

theorem moved_andThen (former latter : Check σ) :
    (former.andThen latter).moved move = (former.moved move).andThen (latter.moved move) := by
  funext state
  rw [moved, andThen, andThen, moved]
  cases former state with
  | mk fault? state => cases fault? <;> rfl

theorem moved_forEach (items : List α) (check : α → Check σ) :
    (forEach items check).moved move = forEach items fun item ↦ (check item).moved move := by
  induction items with
  | nil => rfl
  | cons item rest ih =>
    change ((check item).andThen (forEach rest check)).moved move = _
    rw [moved_andThen, ih]
    rfl

/-- If the check of each item in its new place is the moved check of the item, the same holds of all
items together. -/
theorem forEach_map {items : List α} {place : α → α} {check : α → Check σ}
    (h : ∀ item, check (place item) = (check item).moved move) :
    forEach (items.map place) check = (forEach items check).moved move := by
  rw [moved_forEach, forEach, List.foldr_map]
  exact congrArg (List.foldr · pass items) (funext fun item ↦ by rw [h])

end Check

namespace Analysis

open Check

variable {registry : Registry}

/-! ### Inside a method -/

theorem moved_inScope (check : Check Scopes) :
    (inScope check).moved move = inScope (check.moved move) := rfl

theorem defineParam_moved (param : Ident) :
    Scopes.defineParam (param.moved move) = Check.moved move (Scopes.defineParam param) := by
  funext scopes
  rw [Check.moved, Scopes.defineParam, Scopes.defineParam, apply_ite (movedAnswer move)]
  rfl

theorem defineTarget_moved (target : Ident) :
    Scopes.defineTarget (target.moved move) = Check.moved move (Scopes.defineTarget target) := by
  funext scopes
  rw [Check.moved, Scopes.defineTarget, Scopes.defineTarget, apply_ite (movedAnswer move)]
  rfl

theorem checkTarget_moved (target : Ident) :
    checkTarget (target.moved move) = (checkTarget target : Check Scopes).moved move := by
  rw [checkTarget, checkTarget]
  change (if target.name = discard then _ else _) = _
  by_cases hdiscard : target.name = discard
  · rw [if_pos hdiscard, if_pos hdiscard]
    rfl
  · rw [if_neg hdiscard, if_neg hdiscard]
    exact defineTarget_moved target

theorem checkName_moved (name : String) (span : Span) :
    checkName name (span.moved move) = (checkName name span : Check Scopes).moved move := by
  funext scopes
  exact (congrFun (moved_demand _ (.located (.undefinedVariable name) span)) scopes).symm

theorem checkMessage_moved (receiver : Expr) (selector : String) (span : Span) :
    checkMessage registry (receiver.moved move) selector (span.moved move) =
      (checkMessage registry receiver selector span : Check Scopes).moved move := by
  rw [checkMessage, checkMessage, Expr.className?_moved]
  cases receiver.className? with
  | none => rfl
  | some name => exact (moved_demand _ (.located (.undefinedMethod name selector) span)).symm

mutual

theorem checkExpr_moved : ∀ expr : Expr,
    checkExpr registry (expr.moved move) = (checkExpr registry expr : Check Scopes).moved move
  | .literal .className value span => by
    rw [Expr.moved, checkExpr, checkExpr]
    exact (moved_demand _ (.located (.undefinedClass value) span)).symm
  | .literal .integer _ _ | .literal .string _ _ | .literal .nilValue _ _
  | .literal .trueValue _ _ | .literal .falseValue _ _ => rfl
  | .var name span => by
    rw [Expr.moved, checkExpr, checkExpr, checkName_moved]
  | .send receiver selector args span => by
    rw [Expr.moved, checkExpr, checkExpr, moved_andThen, moved_andThen, checkExpr_moved receiver,
      checkArgs_moved args, checkMessage_moved]
  | .block content => by
    rw [Expr.moved, checkExpr, checkExpr, checkBlock_moved content]

theorem checkArgs_moved : ∀ args : List Expr,
    checkArgs registry (Expr.movedAll move args) =
      (checkArgs registry args : Check Scopes).moved move
  | [] => rfl
  | arg :: rest => by
    rw [Expr.movedAll, checkArgs, checkArgs, moved_andThen, checkExpr_moved arg,
      checkArgs_moved rest]

theorem checkBlock_moved : ∀ block : Block,
    checkBlock registry (block.moved move) = (checkBlock registry block : Check Scopes).moved move
  | ⟨params, body, span⟩ => by
    have hparams : forEach (params.map (Ident.moved move)) Scoping.defineParam =
        (forEach params Scoping.defineParam : Check Scopes).moved move :=
      forEach_map defineParam_moved
    rw [Block.moved, checkBlock, checkBlock, moved_inScope, moved_andThen, checkBody_moved body,
      hparams]

theorem checkBody_moved : ∀ body : List Assignment,
    checkBody registry (Assignment.movedAll move body) =
      (checkBody registry body : Check Scopes).moved move
  | [] => rfl
  | ⟨target, value⟩ :: rest => by
    rw [Assignment.movedAll, Assignment.moved, checkBody, checkBody, checkAssignment,
      checkAssignment, moved_andThen, moved_andThen, checkTarget_moved, checkExpr_moved value,
      checkBody_moved rest]

end

/-! ### Methods and classes -/

theorem checkMethod_moved (method : Method) :
    checkMethod registry (method.moved move) =
      (checkMethod registry method : Check Scopes).moved move := by
  have harity : (method.moved move).body.arity = method.body.arity := method.body.arity_moved
  rw [checkMethod, checkMethod, moved_andThen, moved_demand, ← checkBlock_moved, harity]
  rfl

theorem repeatedMethod?_map_moved (seen : List String) (methods : List Method) :
    repeatedMethod? seen (methods.map (Method.moved move)) =
      (repeatedMethod? seen methods).map (Method.moved move) := by
  induction methods generalizing seen with
  | nil => rfl
  | cons method rest ih =>
    rw [List.map_cons, repeatedMethod?, repeatedMethod?]
    change (if method.selector ∈ seen then _ else repeatedMethod? (method.selector :: seen) _) = _
    by_cases h : method.selector ∈ seen
    · rw [if_pos h, if_pos h]
      rfl
    · rw [if_neg h, if_neg h, ih]

theorem checkSelectors_moved (declared : ClassDef) :
    checkSelectors (declared.moved move) = (checkSelectors declared : Check Scopes).moved move := by
  have hrepeated : repeatedMethod? [] (declared.moved move).methods =
      (repeatedMethod? [] declared.methods).map (Method.moved move) :=
    repeatedMethod?_map_moved [] declared.methods
  rw [checkSelectors, checkSelectors, hrepeated]
  cases repeatedMethod? [] declared.methods <;> rfl

theorem checkClass_moved (declared : ClassDef) :
    checkClass registry (declared.moved move) =
      (checkClass registry declared : Check Scopes).moved move := by
  have hmethods : forEach (declared.moved move).methods (checkMethod registry) =
      (forEach declared.methods (checkMethod registry)).moved move :=
    forEach_map checkMethod_moved
  rw [checkClass, checkClass, moved_andThen, moved_andThen, checkSelectors_moved, hmethods,
    checkLineage, checkLineage, moved_demand]
  rfl

/-! ### Programs -/

theorem declareClass_moved (declared : ClassDef) :
    declareClass (declared.moved move) = (declareClass declared).moved move := by
  funext registry
  rw [Check.moved, declareClass, declareClass, apply_ite (movedAnswer move)]
  rfl

theorem linkClass_moved (declared : ClassDef) :
    linkClass (declared.moved move) = (linkClass declared).moved move := by
  funext registry
  rw [Check.moved, linkClass, linkClass, apply_ite (movedAnswer move)]
  rfl

theorem addMethods_moved (declared : ClassDef) :
    addMethods (declared.moved move) = (addMethods declared).moved move := by
  have hmethods : ((declared.moved move).methods.map
        fun method ↦ (method.selector, method.arity)) =
      declared.methods.map fun method ↦ (method.selector, method.arity) := List.map_map
  funext registry
  rw [Check.moved, addMethods, addMethods, hmethods, apply_ite (movedAnswer move)]
  rfl

theorem enterClasses_moved (classes : List ClassDef) :
    enterClasses (classes.map (ClassDef.moved move)) = (enterClasses classes).moved move := by
  rw [enterClasses, enterClasses, moved_andThen, moved_andThen, forEach_map declareClass_moved,
    forEach_map linkClass_moved, forEach_map addMethods_moved]

theorem checkMain_moved (classes : List ClassDef) :
    checkMain registry (classes.map (ClassDef.moved move)) =
      (checkMain registry classes : Check Scopes).moved move := by
  have hfind : (classes.map (ClassDef.moved move)).find? (·.name.name = mainClass) =
      (classes.find? (·.name.name = mainClass)).map (ClassDef.moved move) := List.find?_map
  rw [checkMain, checkMain, hfind]
  cases classes.find? (·.name.name = mainClass) with
  | none => rfl
  | some declared => exact (moved_demand _ (.located .missingRun declared.name.span)).symm

theorem checkClasses_moved (classes : List ClassDef) :
    checkClasses registry (classes.map (ClassDef.moved move)) =
      (checkClasses registry classes : Check Scopes).moved move := by
  rw [checkClasses, checkClasses, moved_andThen, forEach_map checkClass_moved, checkMain_moved]

end Analysis

/-- Whatever the analyzer has seen before, a program in other places is analyzed like the program,
and the fault that is found, if any, has been moved along. -/
theorem Analyzer.analyze_moved (move : Nat → Nat) (program : Program) :
    Analyzer.analyze (program.moved move) =
      (Analyzer.analyze program : Check Analyzer).moved move := by
  have henter : Analysis.enterClasses (program.moved move).classes =
      (Analysis.enterClasses program.classes).moved move := Analysis.enterClasses_moved _
  have hcheck (registry : Registry) : Analysis.checkClasses registry (program.moved move).classes =
      (Analysis.checkClasses registry program.classes).moved move := Analysis.checkClasses_moved _
  funext analyzer
  rw [Check.moved, analyze, analyze, henter, Check.moved]
  cases hentered : Analysis.enterClasses program.classes analyzer.registry with
  | mk fault? registry =>
    cases fault? with
    | some fault => rfl
    | none =>
      change Prod.map id (Analyzer.mk registry)
        (Analysis.checkClasses registry _ analyzer.scopes) = _
      rw [hcheck]
      rfl

/-- Programs that are the same up to places are analyzed alike, up to the place of the fault. -/
theorem Analyzer.analyze_eq_of_placeless_eq {program other : Program}
    (h : program.placeless = other.placeless) (analyzer : Analyzer) :
    (Analyzer.analyze program analyzer).1.map Fault.placeless =
        (Analyzer.analyze other analyzer).1.map Fault.placeless ∧
      (Analyzer.analyze program analyzer).2 = (Analyzer.analyze other analyzer).2 := by
  have hmoved : (Analyzer.analyze program : Check Analyzer).moved everywhere =
      (Analyzer.analyze other : Check Analyzer).moved everywhere := by
    rw [← analyze_moved, ← analyze_moved, Program.moved_everywhere, h]
  rw [← Fault.moved_everywhere]
  exact Prod.ext_iff.mp (congrFun hmoved analyzer)

end Sol25
