import Sol25.Analysis.Basic
import Sol25.Program.Session

/-!
# Categories tell the stages apart

The category of a fault tells the stage from which it comes. A session that cannot read a program
finds a grammatical fault (`Session.category_of_next_eq_error`). An analyzer, whatever it may have
seen before, finds faults of the categories of the analysis and of no other
(`Analyzer.ofAnalysis_of_analyze_eq_some`): a check reports nothing but faults of these categories
if the checks of which it is made do (`Check.OnlyReports`). All checks but one report what is wrong
with the program (`Category.ofMeaning`). The one is that a class is still there when its methods are
entered.
-/

set_option autoImplicit false
set_option relaxedAutoImplicit false

namespace Sol25

/-- What keeps a session from reading a program is a grammatical fault. -/
theorem Session.category_of_next_eq_error {session : Session} {fault : Fault}
    (h : session.next.1 = .error fault) : fault.category = .grammatical := by
  rw [next] at h
  split at h
  · cases h
  · next stop _ =>
    obtain rfl := Except.error.inj h
    obtain ⟨reason, rest⟩ := stop
    cases reason <;> rfl

/-- The categories of what is wrong with the meaning of a program. -/
def Category.ofAnalysis : Category → Bool
  | .missingMain | .undefinedName | .arity | .collision | .semantic | .internal => true
  | .arguments | .input | .output | .lexical | .grammatical => false

/-- Those of them that are the program's own fault. -/
def Category.ofMeaning (category : Category) : Bool := category.ofAnalysis && category ≠ .internal

namespace Check

variable {σ α : Type}

/-- Whatever fault the check finds is of these categories. -/
def OnlyReports (allowed : Category → Bool) (check : Check σ) : Prop :=
  ∀ state, ∀ fault ∈ (check state).1, allowed fault.category

variable {allowed : Category → Bool} {former latter : Check σ} {fault : Fault}

theorem onlyReports_pass : (pass : Check σ).OnlyReports allowed := fun _ ↦ nofun

theorem onlyReports_fail (h : allowed fault.category) :
    (fail fault : Check σ).OnlyReports allowed := by
  rintro state _ ⟨⟩
  exact h

theorem onlyReports_demand (condition : Bool) (h : allowed fault.category) :
    (demand condition fault : Check σ).OnlyReports allowed := by
  cases condition
  · exact onlyReports_fail h
  · exact onlyReports_pass

theorem OnlyReports.andThen (hformer : former.OnlyReports allowed)
    (hlatter : latter.OnlyReports allowed) : (former.andThen latter).OnlyReports allowed := by
  intro state
  have hfirst := hformer state
  rw [Check.andThen]
  cases hresult : former state with
  | mk fault? next =>
    rw [hresult] at hfirst
    cases fault? with
    | none => exact hlatter next
    | some fault => exact hfirst

theorem onlyReports_forEach {check : α → Check σ} (h : ∀ item, (check item).OnlyReports allowed)
    (items : List α) : (forEach items check).OnlyReports allowed := by
  induction items with
  | nil => exact onlyReports_pass
  | cons item rest ih => exact (h item).andThen ih

theorem OnlyReports.ofAnalysis {check : Check σ} (h : check.OnlyReports Category.ofMeaning) :
    check.OnlyReports Category.ofAnalysis :=
  fun state fault hfault ↦ (Bool.and_eq_true_iff.mp (h state fault hfault)).1

end Check

namespace Analysis

open Check

variable {registry : Registry}

/-! ### Inside a method -/

theorem onlyReports_inScope {check : Check Scopes} (h : check.OnlyReports Category.ofMeaning) :
    (inScope check).OnlyReports Category.ofMeaning :=
  fun scopes ↦ h scopes.enter

theorem onlyReports_defineParam (param : Ident) :
    OnlyReports Category.ofMeaning (Scopes.defineParam param) := by
  intro scopes
  rw [Scopes.defineParam]
  split
  · rintro _ ⟨⟩
    rfl
  · exact nofun

theorem onlyReports_defineTarget (target : Ident) :
    OnlyReports Category.ofMeaning (Scopes.defineTarget target) := by
  intro scopes
  rw [Scopes.defineTarget]
  split
  · rintro _ ⟨⟩
    rfl
  · exact nofun

theorem onlyReports_checkTarget (target : Ident) :
    (checkTarget target : Check Scopes).OnlyReports Category.ofMeaning := by
  rw [checkTarget]
  split
  · exact onlyReports_pass
  · exact onlyReports_defineTarget target

theorem onlyReports_checkMessage (receiver : Expr) (selector : String) (span : Span) :
    (checkMessage registry receiver selector span : Check Scopes).OnlyReports
      Category.ofMeaning := by
  rw [checkMessage]
  split
  · exact onlyReports_pass
  · exact onlyReports_demand _ rfl

mutual

theorem onlyReports_checkExpr : ∀ expr : Expr,
    (checkExpr registry expr : Check Scopes).OnlyReports Category.ofMeaning
  | .literal .className value span => by
    rw [checkExpr]
    exact onlyReports_demand _ rfl
  | .literal .integer _ _ | .literal .string _ _ | .literal .nilValue _ _
  | .literal .trueValue _ _ | .literal .falseValue _ _ => onlyReports_pass
  | .var name span => by
    rw [checkExpr]
    exact fun scopes ↦ onlyReports_demand _ rfl scopes
  | .send receiver selector args span => by
    rw [checkExpr]
    exact (onlyReports_checkExpr receiver).andThen
      ((onlyReports_checkArgs args).andThen (onlyReports_checkMessage receiver selector span))
  | .block content => by
    rw [checkExpr]
    exact onlyReports_checkBlock content

theorem onlyReports_checkArgs : ∀ args : List Expr,
    (checkArgs registry args : Check Scopes).OnlyReports Category.ofMeaning
  | [] => by
    rw [checkArgs]
    exact onlyReports_pass
  | arg :: rest => by
    rw [checkArgs]
    exact (onlyReports_checkExpr arg).andThen (onlyReports_checkArgs rest)

theorem onlyReports_checkBlock : ∀ block : Block,
    (checkBlock registry block : Check Scopes).OnlyReports Category.ofMeaning
  | ⟨params, body, span⟩ => by
    rw [checkBlock]
    exact onlyReports_inScope
      ((onlyReports_forEach onlyReports_defineParam params).andThen (onlyReports_checkBody body))

theorem onlyReports_checkBody : ∀ body : List Assignment,
    (checkBody registry body : Check Scopes).OnlyReports Category.ofMeaning
  | [] => by
    rw [checkBody]
    exact onlyReports_pass
  | ⟨target, value⟩ :: rest => by
    rw [checkBody, checkAssignment]
    exact ((onlyReports_checkTarget target).andThen (onlyReports_checkExpr value)).andThen
      (onlyReports_checkBody rest)

end

/-! ### Methods, classes and programs -/

theorem onlyReports_checkMethod (method : Method) :
    (checkMethod registry method : Check Scopes).OnlyReports Category.ofMeaning :=
  (onlyReports_demand _ rfl).andThen (onlyReports_checkBlock method.body)

theorem onlyReports_checkSelectors (declared : ClassDef) :
    (checkSelectors declared : Check Scopes).OnlyReports Category.ofMeaning := by
  rw [checkSelectors]
  split
  · exact onlyReports_pass
  · exact onlyReports_fail rfl

theorem onlyReports_checkClass (declared : ClassDef) :
    (checkClass registry declared : Check Scopes).OnlyReports Category.ofMeaning :=
  (onlyReports_demand _ rfl).andThen ((onlyReports_checkSelectors declared).andThen
    (onlyReports_forEach onlyReports_checkMethod declared.methods))

theorem onlyReports_checkClasses (classes : List ClassDef) :
    (checkClasses registry classes : Check Scopes).OnlyReports Category.ofMeaning := by
  refine (onlyReports_forEach onlyReports_checkClass classes).andThen ?_
  rw [checkMain]
  split
  · exact onlyReports_fail rfl
  · exact onlyReports_demand _ rfl

theorem onlyReports_declareClass (declared : ClassDef) :
    (declareClass declared).OnlyReports Category.ofMeaning := by
  intro registry
  rw [declareClass]
  split
  · exact onlyReports_fail rfl registry
  · exact onlyReports_pass _

theorem onlyReports_linkClass (declared : ClassDef) :
    (linkClass declared).OnlyReports Category.ofMeaning := by
  intro registry
  rw [linkClass]
  split
  · exact onlyReports_pass _
  · exact onlyReports_fail rfl registry

theorem onlyReports_addMethods (declared : ClassDef) :
    (addMethods declared).OnlyReports Category.ofAnalysis := by
  intro registry
  rw [addMethods]
  split
  · exact onlyReports_pass _
  · exact onlyReports_fail rfl registry

theorem onlyReports_enterClasses (classes : List ClassDef) :
    (enterClasses classes).OnlyReports Category.ofAnalysis :=
  (onlyReports_forEach onlyReports_declareClass classes).ofAnalysis.andThen
    ((onlyReports_forEach onlyReports_linkClass classes).ofAnalysis.andThen
      (onlyReports_forEach onlyReports_addMethods classes))

end Analysis

/-- Whatever an analyzer finds wrong is of a category of the analysis. -/
theorem Analyzer.ofAnalysis_of_analyze_eq_some {analyzer : Analyzer} {program : Program}
    {fault : Fault} (h : (analyzer.analyze program).1 = some fault) :
    fault.category.ofAnalysis := by
  rw [analyze] at h
  have henter := Analysis.onlyReports_enterClasses program.classes analyzer.registry
  cases hentered : Analysis.enterClasses program.classes analyzer.registry with
  | mk fault? registry =>
    rw [hentered] at h henter
    cases fault? with
    | some first =>
      obtain rfl := Option.some.inj h
      exact henter first rfl
    | none =>
      exact (Analysis.onlyReports_checkClasses program.classes).ofAnalysis analyzer.scopes fault h

end Sol25
