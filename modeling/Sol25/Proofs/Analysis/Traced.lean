import Sol25.Analysis.Basic
import Sol25.Proofs.ScopeCalls

/-!
# The calls that an analysis makes

An analysis opens scopes and leaves them, binds names and looks them up, and it does nothing else
with scopes. A map between two kinds of scopes that goes with these operations (`Scoping.Hom`)
therefore goes with the analysis of any program: the answer is the same on both sides, and what is
left on one side is mapped to what is left on the other (`Analyzer.analyze_map`).

One kind of scopes is the list of the calls by which they have come about (`Traced`). Over these an
analysis adds the calls that it makes, one behind the other, and to perform the calls is such a map
(`Traced.hom_scopes`). So the calls that are there in the end lead to the scopes that the analysis
leaves (`Analyzer.analyze_eq_traced`), and the scopes that it has had in the meantime are what the
first of these calls lead to, however many one takes.
-/

set_option autoImplicit false
set_option relaxedAutoImplicit false

namespace Sol25

variable {σ τ : Type} {f : σ → τ}

/-! ### Checks over two kinds of scopes -/

/-- On the image of a state the second check answers as the first does on the state, and it leaves
the image of what the first leaves. -/
def Check.Carries (f : σ → τ) (check : Check σ) (image : Check τ) : Prop :=
  ∀ state, image (f state) = Prod.map id f (check state)

namespace Check

variable {α : Type} {former latter : Check σ} {first second : Check τ}

theorem carries_pass : Carries f pass pass := fun _ ↦ rfl

theorem carries_fail (fault : Fault) : Carries f (fail fault) (fail fault) := fun _ ↦ rfl

theorem carries_demand (condition : Bool) (fault : Fault) :
    Carries f (demand condition fault) (demand condition fault) := by
  cases condition
  · exact carries_fail fault
  · exact carries_pass

theorem Carries.andThen (hformer : Carries f former first) (hlatter : Carries f latter second) :
    Carries f (former.andThen latter) (first.andThen second) := by
  intro state
  rw [Check.andThen, Check.andThen, hformer state]
  cases former state with
  | mk fault? middle =>
    cases fault? with
    | none => exact hlatter middle
    | some fault => rfl

theorem carries_forEach {each : α → Check σ} {image : α → Check τ}
    (h : ∀ item, Carries f (each item) (image item)) (items : List α) :
    Carries f (forEach items each) (forEach items image) := by
  induction items with
  | nil => exact carries_pass
  | cons item rest ih => exact (h item).andThen ih

end Check

/-- A map between scopes that goes with all that can be done with them. -/
structure Scoping.Hom [Scoping σ] [Scoping τ] (f : σ → τ) : Prop where
  enter : ∀ scopes, Scoping.enter (f scopes) = f (Scoping.enter scopes)
  exit : ∀ scopes, Scoping.exit (f scopes) = f (Scoping.exit scopes)
  defineParam : ∀ param, Check.Carries f (Scoping.defineParam param) (Scoping.defineParam param)
  defineTarget : ∀ target,
    Check.Carries f (Scoping.defineTarget target) (Scoping.defineTarget target)
  lookup : ∀ scopes name, Scoping.lookup (f scopes) name = Scoping.lookup scopes name

namespace Analysis

open Check

variable {registry : Registry}

theorem carries_checkMessage (receiver : Expr) (selector : String) (span : Span) :
    Carries f (checkMessage registry receiver selector span)
      (checkMessage registry receiver selector span) := by
  rw [checkMessage, checkMessage]
  split
  · exact carries_pass
  · exact carries_demand _ _

theorem carries_checkSelectors (declared : ClassDef) :
    Carries f (checkSelectors declared) (checkSelectors declared) := by
  rw [checkSelectors, checkSelectors]
  split
  · exact carries_pass
  · exact carries_fail _

theorem carries_checkMain (classes : List ClassDef) :
    Carries f (checkMain registry classes) (checkMain registry classes) := by
  rw [checkMain, checkMain]
  split
  · exact carries_fail _
  · exact carries_demand _ _

variable [Scoping σ] [Scoping τ]

theorem carries_inScope (hf : Scoping.Hom f) {check : Check σ} {image : Check τ}
    (h : Carries f check image) : Carries f (inScope check) (inScope image) := by
  intro scopes
  rw [inScope, inScope, hf.enter, h]
  exact congrArg (Prod.mk _) (hf.exit _)

theorem carries_checkName (hf : Scoping.Hom f) (name : String) (span : Span) :
    Carries f (checkName name span) (checkName name span) := by
  intro scopes
  rw [checkName, checkName, hf.lookup]
  exact carries_demand _ _ scopes

theorem carries_checkTarget (hf : Scoping.Hom f) (target : Ident) :
    Carries f (checkTarget target) (checkTarget target) := by
  rw [checkTarget, checkTarget]
  split
  · exact carries_pass
  · exact hf.defineTarget target

mutual

theorem carries_checkExpr (hf : Scoping.Hom f) : ∀ expr : Expr,
    Carries f (checkExpr registry expr) (checkExpr registry expr)
  | .literal .className value span => by
    rw [checkExpr, checkExpr]
    exact carries_demand _ _
  | .literal .integer _ _ | .literal .string _ _ | .literal .nilValue _ _
  | .literal .trueValue _ _ | .literal .falseValue _ _ => carries_pass
  | .var name span => by
    rw [checkExpr, checkExpr]
    exact carries_checkName hf name span
  | .send receiver selector args span => by
    rw [checkExpr, checkExpr]
    exact (carries_checkExpr hf receiver).andThen
      ((carries_checkArgs hf args).andThen (carries_checkMessage receiver selector span))
  | .block content => by
    rw [checkExpr, checkExpr]
    exact carries_checkBlock hf content

theorem carries_checkArgs (hf : Scoping.Hom f) : ∀ args : List Expr,
    Carries f (checkArgs registry args) (checkArgs registry args)
  | [] => by
    rw [checkArgs, checkArgs]
    exact carries_pass
  | arg :: rest => by
    rw [checkArgs, checkArgs]
    exact (carries_checkExpr hf arg).andThen (carries_checkArgs hf rest)

theorem carries_checkBlock (hf : Scoping.Hom f) : ∀ block : Block,
    Carries f (checkBlock registry block) (checkBlock registry block)
  | ⟨params, body, _⟩ => by
    rw [checkBlock, checkBlock]
    exact carries_inScope hf
      ((carries_forEach hf.defineParam params).andThen (carries_checkBody hf body))

theorem carries_checkBody (hf : Scoping.Hom f) : ∀ body : List Assignment,
    Carries f (checkBody registry body) (checkBody registry body)
  | [] => by
    rw [checkBody, checkBody]
    exact carries_pass
  | ⟨target, value⟩ :: rest => by
    rw [checkBody, checkBody, checkAssignment, checkAssignment]
    exact ((carries_checkTarget hf target).andThen (carries_checkExpr hf value)).andThen
      (carries_checkBody hf rest)

end

theorem carries_checkMethod (hf : Scoping.Hom f) (method : Method) :
    Carries f (checkMethod registry method) (checkMethod registry method) :=
  (carries_demand _ _).andThen (carries_checkBlock hf method.body)

theorem carries_checkClass (hf : Scoping.Hom f) (declared : ClassDef) :
    Carries f (checkClass registry declared) (checkClass registry declared) :=
  (carries_demand _ _).andThen ((carries_checkSelectors declared).andThen
    (carries_forEach (carries_checkMethod hf) declared.methods))

theorem carries_checkClasses (hf : Scoping.Hom f) (classes : List ClassDef) :
    Carries f (checkClasses registry classes) (checkClasses registry classes) :=
  (carries_forEach (carries_checkClass hf) classes).andThen (carries_checkMain classes)

end Analysis

/-- The analyzer with the image of its scopes. -/
def Analyzer.map (f : σ → τ) (analyzer : Analyzer σ) : Analyzer τ :=
  ⟨analyzer.registry, f analyzer.scopes⟩

theorem Analyzer.analyze_map [Scoping σ] [Scoping τ] (hf : Scoping.Hom f) (program : Program) :
    Check.Carries (Analyzer.map f) (Analyzer.analyze program) (Analyzer.analyze program) := by
  rintro ⟨registry, scopes⟩
  rw [analyze, analyze, map]
  cases Analysis.enterClasses program.classes registry with
  | mk fault? entered =>
    cases fault? with
    | some fault => rfl
    | none =>
      simp only [Analysis.carries_checkClasses hf program.classes scopes]
      rfl

/-! ### Scopes of which the calls are kept -/

/-- The calls by which scopes have come about, the first one in front. -/
structure Traced (origin : Scopes) where
  calls : List Scopes.Call

namespace Traced

variable {origin : Scopes}

/-- No call has been made yet. -/
def start (origin : Scopes) : Traced origin := ⟨[]⟩

/-- What the calls lead to. -/
def scopes (traced : Traced origin) : Scopes := origin.afterAll traced.calls

/-- One call more. -/
def call (traced : Traced origin) (call : Scopes.Call) : Traced origin := ⟨traced.calls ++ [call]⟩

/-- A look-up changes nothing, so it is not kept. -/
instance : Scoping (Traced origin) where
  enter traced := traced.call .enter
  exit traced := traced.call .exit
  defineParam param traced :=
    ((Scopes.defineParam param traced.scopes).1, traced.call (.defineParam param))
  defineTarget target traced :=
    ((Scopes.defineTarget target traced.scopes).1, traced.call (.defineTarget target))
  lookup traced name := traced.scopes.lookup name

theorem scopes_call (traced : Traced origin) (call : Scopes.Call) :
    (traced.call call).scopes = (traced.scopes.perform call).2 :=
  List.foldl_concat _ _ _ _

/-- What is done with the calls is what is done with the scopes that they lead to. -/
theorem hom_scopes : Scoping.Hom (scopes : Traced origin → Scopes) where
  enter traced := (traced.scopes_call .enter).symm
  exit traced := (traced.scopes_call .exit).symm
  defineParam param traced := Prod.ext rfl (traced.scopes_call (.defineParam param)).symm
  defineTarget target traced := Prod.ext rfl (traced.scopes_call (.defineTarget target)).symm
  lookup _ _ := rfl

end Traced

/-- The analyzer as it is, from which on the calls are kept. -/
def Analyzer.traced (analyzer : Analyzer) : Analyzer (Traced analyzer.scopes) :=
  ⟨analyzer.registry, Traced.start analyzer.scopes⟩

/-- An analysis over scopes does what the same analysis does over calls, and the calls that are made
there lead to the scopes that are left. -/
theorem Analyzer.analyze_eq_traced (program : Program) (analyzer : Analyzer) :
    analyzer.analyze program =
      Prod.map id (Analyzer.map Traced.scopes) (analyzer.traced.analyze program) :=
  Analyzer.analyze_map Traced.hom_scopes program analyzer.traced

end Sol25
