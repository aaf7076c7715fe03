import Sol25.Proofs.Analysis.Entering
import Sol25.Proofs.ScopeStack

/-!
# The analysis finds the first fault

The analysis remembers what it has seen: the classes in a registry, and the names in scopes that it
opens and leaves on its way. The list of all faults of a program is made without a memory. Here it
is shown that the analysis answers with the head of that list, and with nothing if the list is empty
(`analyze_fresh_eq_head?_faults`).

Once the classes have been entered, the registry stays as it is and the argument is an induction
over the syntax. A check of an expression or of a block leaves the scopes as they were
(`finds_checkExpr`, `finds_checkBlock`). Inside a block only the innermost table changes, and two
facts are kept: the visible names are those that are bound in one of the tables (`Shows`), and the
parameters are those that the innermost table has as such (`Holds`).
-/

set_option autoImplicit false
set_option relaxedAutoImplicit false

namespace Sol25.Analysis

open Check (faultUnless finds_pass reports_pass reports_fail reports_demand)
open Scopes (ofStack)

variable {program : Program} {registry : Registry} {inner : Table Binding}
  {outer stack : List (Table Binding)} {params visible names : List String} {name : String}

/-! ### The names in a stack of tables -/

/-- Apart from the one that is never bound, the visible names are those in the tables. -/
def Shows (visible : List String) (stack : List (Table Binding)) : Prop :=
  ∀ name, name ≠ discard → (name ∈ visible ↔ ∃ table ∈ stack, table.contains name)

/-- The names are those that the table has as parameters. -/
def Holds (params : List String) (inner : Table Binding) : Prop :=
  ∀ name, name ∈ params ↔ inner.get? name = some .parameter

/-- The table has the names as parameters, and no other name. -/
def HoldsOnly (params : List String) (inner : Table Binding) : Prop :=
  ∀ name, inner.get? name = if name ∈ params then some .parameter else none

theorem HoldsOnly.holds (h : HoldsOnly params inner) : Holds params inner := by
  intro name
  rw [h]
  by_cases hname : name ∈ params <;> simp [hname]

theorem HoldsOnly.contains_iff (h : HoldsOnly params inner) :
    inner.contains name ↔ name ∈ params := by
  rw [Table.contains, h]
  by_cases hname : name ∈ params <;> simp [hname]

theorem holdsOnly_empty : HoldsOnly [] Table.empty := fun _ ↦ rfl

theorem HoldsOnly.insertNew (h : HoldsOnly params inner) (name : String) :
    HoldsOnly (name :: params) (inner.insertNew name .parameter) := by
  intro other
  rw [Table.get?_insertNew, h]
  by_cases hparams : other ∈ params
  · simp [hparams]
  · by_cases hname : name = other <;> simp [hparams, hname, eq_comm]

theorem Holds.insertNew (h : Holds params inner) (name : String) :
    Holds params (inner.insertNew name .assigned) := by
  intro other
  rw [h, Table.get?_insertNew]
  cases inner.get? other with
  | some binding => simp
  | none => by_cases hname : name = other <;> simp [hname]

theorem exists_contains_cons_iff :
    (∃ table ∈ inner :: outer, table.contains name) ↔
      inner.contains name ∨ ∃ table ∈ outer, table.contains name := by
  simp only [List.mem_cons, exists_eq_or_imp]

theorem shows_pseudoNames : Shows Scopes.pseudoNames [Scopes.pseudoTable] := by
  intro name _
  have hget := Table.get?_ofList_map (fun name ↦ name) (fun _ ↦ Binding.pseudo)
    Scopes.pseudoNames name
  rw [exists_contains_cons_iff, Table.contains, Scopes.pseudoTable, hget, Option.isSome_map,
    List.find?_isSome]
  simp

theorem Shows.cons (h : Shows visible stack) (hinner : HoldsOnly params inner) :
    Shows (params ++ visible) (inner :: stack) := by
  intro name hname
  rw [List.mem_append, h name hname, ← hinner.contains_iff, exists_contains_cons_iff]

theorem Shows.insertNew (h : Shows visible (inner :: outer)) (name : String) (binding : Binding) :
    Shows (name :: visible) (inner.insertNew name binding :: outer) := by
  intro other hother
  rw [List.mem_cons, h other hother, exists_contains_cons_iff, exists_contains_cons_iff,
    Table.contains_insertNew, eq_comm, or_left_comm, or_assoc]

theorem Shows.cons_discard (h : Shows visible stack) : Shows (discard :: visible) stack := by
  intro name hname
  rw [List.mem_cons, ← h name hname]
  simp [hname]

/-! ### Parameters and targets -/

theorem finds_defineParams {seen : List String} {params : List Ident} (h : HoldsOnly seen inner) :
    (Check.forEach params Scopes.defineParam).Finds (ofStack (inner :: outer))
      ((repeats Ident.name seen params).map
        fun param ↦ .located (.duplicateParameter param.name) param.span)
      fun scopes ↦ ∃ filled, scopes = ofStack (filled :: outer) ∧
        (repeats Ident.name seen params = [] →
          HoldsOnly (params.map Ident.name ++ seen) filled) := by
  induction params generalizing seen inner with
  | nil => exact finds_pass ⟨inner, rfl, fun _ ↦ h⟩
  | cons param rest ih =>
    rw [repeats, List.map_append]
    by_cases hseen : param.name ∈ seen
    · have hfails : Scopes.defineParam param (ofStack (inner :: outer)) =
          Check.fail (.located (.duplicateParameter param.name) param.span)
            (ofStack (inner :: outer)) := by
        rw [Scopes.defineParam, Scopes.currentNames_ofStack, if_pos (h.contains_iff.mpr hseen),
          Check.fail]
      have hfirst : Check.Finds (Scopes.defineParam param) (ofStack (inner :: outer)) [_]
          (· = ofStack (inner :: outer)) := Check.finds_of_eq_fail hfails rfl
      rw [if_pos hseen]
      exact hfirst.andThen (fun hnone ↦ absurd hnone (List.cons_ne_nil _ _))
        fun _ _ hstate ↦ ⟨inner, hstate, fun hnone ↦ absurd hnone (List.cons_ne_nil _ _)⟩
    · have hpasses : Scopes.defineParam param (ofStack (inner :: outer)) =
          Check.pass (ofStack (inner.insertNew param.name .parameter :: outer)) := by
        rw [Scopes.defineParam, Scopes.currentNames_ofStack,
          if_neg fun hcontains ↦ hseen (h.contains_iff.mp hcontains), Scopes.bind_ofStack,
          Check.pass]
      have hfirst : Check.Finds (Scopes.defineParam param) (ofStack (inner :: outer)) []
          (· = ofStack (inner.insertNew param.name .parameter :: outer)) :=
        Check.finds_of_eq_pass hpasses rfl
      rw [if_neg hseen]
      refine hfirst.andThen (fun _ state hstate ↦ ?_) fun hsome ↦ absurd rfl hsome
      rw [hstate]
      apply (ih (h.insertNew param.name)).mono
      intro scopes hscopes
      obtain ⟨filled, hfilled, hholds⟩ := hscopes
      refine ⟨filled, hfilled, fun hnone name ↦ ?_⟩
      rw [hholds hnone]
      simp [or_left_comm]

theorem finds_checkTarget (hvisible : Shows visible (inner :: outer)) (hparams : Holds params inner)
    (target : Ident) :
    (checkTarget target).Finds (ofStack (inner :: outer))
      (faultUnless (target.name = discard ∨ target.name ∉ params)
        (.located (.variableCollision target.name) target.span))
      fun scopes ↦ ∃ bound, scopes = ofStack (bound :: outer) ∧
        (target.name = discard ∨ target.name ∉ params →
          Shows (target.name :: visible) (bound :: outer) ∧ Holds params bound) := by
  rw [checkTarget]
  by_cases hdiscard : target.name = discard
  · rw [if_pos hdiscard, faultUnless, if_pos (Or.inl hdiscard)]
    exact finds_pass ⟨inner, rfl, fun _ ↦ ⟨hdiscard ▸ hvisible.cons_discard, hparams⟩⟩
  rw [if_neg hdiscard]
  by_cases hparam : target.name ∈ params
  · have hneither : ¬ (target.name = discard ∨ target.name ∉ params) := by
      simp [hdiscard, hparam]
    have hfails : Scopes.defineTarget target (ofStack (inner :: outer)) =
        Check.fail (.located (.variableCollision target.name) target.span)
          (ofStack (inner :: outer)) := by
      rw [Scopes.defineTarget, Scopes.currentNames_ofStack, if_pos ((hparams _).mp hparam),
        Check.fail]
    rw [faultUnless, if_neg hneither]
    exact Check.finds_of_eq_fail hfails ⟨inner, rfl, fun h ↦ absurd h hneither⟩
  · have hpasses : Scopes.defineTarget target (ofStack (inner :: outer)) =
        Check.pass (ofStack (inner.insertNew target.name .assigned :: outer)) := by
      rw [Scopes.defineTarget, Scopes.currentNames_ofStack,
        if_neg fun hget ↦ hparam ((hparams _).mpr hget), Scopes.bind_ofStack, Check.pass]
    rw [faultUnless, if_pos (Or.inr hparam)]
    exact Check.finds_of_eq_pass hpasses
      ⟨_, rfl, fun _ ↦ ⟨hvisible.insertNew _ _, hparams.insertNew _⟩⟩

theorem reports_inScope {check : Check Scopes} {faults : List Fault} (hne : stack ≠ [])
    (h : check.Finds (ofStack (Table.empty :: stack)) faults
      fun scopes ↦ ∃ inner, scopes = ofStack (inner :: stack)) :
    (inScope check).Reports faults (ofStack stack) := by
  obtain ⟨hfault, inner, hstate⟩ := h
  rw [← Scopes.enter_ofStack hne] at hfault hstate
  apply Prod.ext hfault
  change (check (ofStack stack).enter).2.exit = ofStack stack
  rw [hstate, Scopes.exit_ofStack hne]

/-! ### Expressions and blocks -/

theorem reports_checkName (h : Shows visible stack) (hne : stack ≠ []) (name : String)
    (span : Span) :
    (checkName name span).Reports
      (faultUnless (name = discard ∨ name ∈ visible) (.located (.undefinedVariable name) span))
      (ofStack stack) := by
  have hlookup : Scoping.lookup (ofStack stack) name = stack.findSome? (·.get? name) :=
    Scopes.lookup_ofStack hne
  apply reports_demand
  rw [Bool.or_eq_true, decide_eq_true_eq, hlookup, List.findSome?_isSome_iff]
  by_cases hname : name = discard
  · simp [hname]
  · simp only [hname, false_or]
    exact (h name hname).symm

theorem reports_checkMessage (hregistry : program.EnteredIn registry) (receiver : Expr)
    (selector : String) (span : Span) (scopes : Scopes) :
    (checkMessage registry receiver selector span).Reports
      (program.messageFaults receiver selector span) scopes := by
  rw [checkMessage, Program.messageFaults]
  cases receiver.className? with
  | none => exact reports_pass
  | some name => exact reports_demand (hregistry.isSome_lookupMethod_iff name selector)

/-- The target of an assignment is bound where its value is checked. -/
theorem finds_checkAssignment {value : Expr} {faults : List Fault}
    (hvisible : Shows visible (inner :: outer)) (hparams : Holds params inner) (target : Ident)
    (hvalue : ∀ bound, Shows (target.name :: visible) (bound :: outer) →
      (checkExpr registry value).Reports faults (ofStack (bound :: outer))) :
    (checkAssignment registry ⟨target, value⟩).Finds (ofStack (inner :: outer))
      (faultUnless (target.name = discard ∨ target.name ∉ params)
        (.located (.variableCollision target.name) target.span) ++ faults)
      fun scopes ↦ ∃ bound, scopes = ofStack (bound :: outer) ∧
        (target.name = discard ∨ target.name ∉ params →
          Shows (target.name :: visible) (bound :: outer) ∧ Holds params bound) := by
  rw [checkAssignment]
  refine (finds_checkTarget hvisible hparams target).andThen (fun hnone scopes hscopes ↦ ?_)
    fun _ _ hstopped ↦ hstopped
  obtain ⟨bound, rfl, hkept⟩ := hscopes
  obtain ⟨hshows, -⟩ := hkept (Check.faultUnless_eq_nil_iff.mp hnone)
  exact (hvalue bound hshows).finds.mono fun _ hstate ↦ ⟨bound, hstate, hkept⟩

mutual

/-- A check of an expression finds its faults and leaves the scopes as they are. -/
theorem reports_checkExpr (hregistry : program.EnteredIn registry) {visible : List String}
    {stack : List (Table Binding)} (hvisible : Shows visible stack) (hne : stack ≠ []) :
    ∀ expr : Expr,
      (checkExpr registry expr).Reports (program.exprFaults visible expr) (ofStack stack)
  | .literal .className value span => by
    rw [checkExpr, Program.exprFaults]
    exact reports_demand (hregistry.contains_iff value)
  | .literal .integer _ _ | .literal .string _ _ | .literal .nilValue _ _
  | .literal .trueValue _ _ | .literal .falseValue _ _ => reports_pass
  | .var name span => by
    rw [checkExpr, Program.exprFaults]
    exact reports_checkName hvisible hne name span
  | .send receiver selector args span => by
    rw [checkExpr, Program.exprFaults]
    exact (reports_checkExpr hregistry hvisible hne receiver).andThen
      ((reports_checkArgs hregistry hvisible hne args).andThen
        (reports_checkMessage hregistry receiver selector span _))
  | .block content => by
    rw [checkExpr, Program.exprFaults]
    exact reports_checkBlock hregistry hvisible hne content

theorem reports_checkArgs (hregistry : program.EnteredIn registry) {visible : List String}
    {stack : List (Table Binding)} (hvisible : Shows visible stack) (hne : stack ≠ []) :
    ∀ args : List Expr,
      (checkArgs registry args).Reports (program.argsFaults visible args) (ofStack stack)
  | [] => by
    rw [checkArgs, Program.argsFaults]
    exact reports_pass
  | arg :: rest => by
    rw [checkArgs, Program.argsFaults]
    exact (reports_checkExpr hregistry hvisible hne arg).andThen
      (reports_checkArgs hregistry hvisible hne rest)

/-- So does a check of a block. -/
theorem reports_checkBlock (hregistry : program.EnteredIn registry) {visible : List String}
    {stack : List (Table Binding)} (hvisible : Shows visible stack) (hne : stack ≠ []) :
    ∀ block : Block,
      (checkBlock registry block).Reports (program.blockFaults visible block) (ofStack stack)
  | ⟨params, body, _⟩ => by
    rw [checkBlock, Program.blockFaults]
    refine reports_inScope hne ((finds_defineParams holdsOnly_empty).andThen
      (fun hnone scopes hscopes ↦ ?_) fun _ _ hstopped ↦ ?_)
    · obtain ⟨filled, hfilled, hholds⟩ := hscopes
      have honly := hholds (List.map_eq_nil_iff.mp hnone)
      rw [List.append_nil] at honly
      rw [hfilled]
      exact finds_checkBody hregistry (hvisible.cons honly) honly.holds body
    · obtain ⟨filled, hfilled, -⟩ := hstopped
      exact ⟨filled, hfilled⟩

/-- A check of a body changes the innermost table alone. -/
theorem finds_checkBody (hregistry : program.EnteredIn registry) {params visible : List String}
    {inner : Table Binding} {outer : List (Table Binding)}
    (hvisible : Shows visible (inner :: outer)) (hparams : Holds params inner) :
    ∀ body : List Assignment, (checkBody registry body).Finds (ofStack (inner :: outer))
      (program.bodyFaults params visible body) fun scopes ↦ ∃ last, scopes = ofStack (last :: outer)
  | [] => by
    rw [checkBody, Program.bodyFaults]
    exact finds_pass ⟨inner, rfl⟩
  | ⟨target, value⟩ :: rest => by
    rw [checkBody, Program.bodyFaults, ← List.append_assoc]
    have hassignment := finds_checkAssignment hvisible hparams target fun bound hbound ↦
      reports_checkExpr hregistry hbound (List.cons_ne_nil _ _) value
    refine hassignment.andThen (fun hnone scopes hscopes ↦ ?_) fun _ _ hstopped ↦ ?_
    · obtain ⟨bound, rfl, hkept⟩ := hscopes
      have hcollision := (List.append_eq_nil_iff.mp hnone).1
      obtain ⟨hshows, hholds⟩ := hkept (Check.faultUnless_eq_nil_iff.mp hcollision)
      exact finds_checkBody hregistry hshows hholds rest
    · obtain ⟨bound, hbound, -⟩ := hstopped
      exact ⟨bound, hbound⟩

end

/-! ### Methods, classes and programs -/

theorem repeatedMethod?_eq_head? (seen : List String) (methods : List Method) :
    repeatedMethod? seen methods = (repeats Method.selector seen methods).head? := by
  induction methods generalizing seen with
  | nil => rfl
  | cons method rest ih =>
    rw [repeatedMethod?, repeats, ih]
    by_cases h : method.selector ∈ seen <;> simp [h]

theorem reports_checkSelectors (declared : ClassDef) (scopes : Scopes) :
    (checkSelectors declared).Reports
      ((repeats Method.selector [] declared.methods).map
        fun method ↦
          .located (.duplicateMethod declared.name.name method.selector) method.span)
      scopes := by
  rw [checkSelectors, repeatedMethod?_eq_head?]
  cases repeats Method.selector [] declared.methods with
  | nil => exact reports_pass
  | cons method rest => rfl

theorem reports_checkMethod (hregistry : program.EnteredIn registry) (method : Method) :
    (checkMethod registry method).Reports (program.methodFaults method) Scopes.outermost := by
  rw [checkMethod, Program.methodFaults]
  exact (reports_demand decide_eq_true_iff).andThen
    (reports_checkBlock hregistry shows_pseudoNames (List.cons_ne_nil _ _) method.body)

theorem reports_checkClass (hregistry : program.EnteredIn registry) (declared : ClassDef) :
    (checkClass registry declared).Reports (program.classFaults declared) Scopes.outermost := by
  have hrooted : (!registry.isCircular declared.name.name) ↔
      program.Rooted declared.name.name := by
    rw [Bool.not_eq_true', ← Bool.not_eq_true, hregistry.isCircular_iff, Decidable.not_not]
  rw [checkClass, Program.classFaults]
  exact (reports_demand hrooted).andThen ((reports_checkSelectors declared _).andThen
    (Check.reports_forEach fun method _ ↦ reports_checkMethod hregistry method))

/-- Where all keys are different, the item found under a key is the only one that has it. -/
theorem find?_eq_some_iff_of_pairwise {α : Type} {key : α → String} {items : List α}
    (hdistinct : items.Pairwise fun item other ↦ key item ≠ key other) {item : α} :
    items.find? (key · = name) = some item ↔ item ∈ items ∧ key item = name := by
  induction items with
  | nil => simp
  | cons first rest ih =>
    obtain ⟨hfirst, hrest⟩ := List.pairwise_cons.mp hdistinct
    rw [List.find?_cons, List.mem_cons]
    by_cases h : key first = name
    · simp only [h, decide_true, Option.some.injEq]
      constructor
      · rintro rfl
        exact ⟨Or.inl rfl, h⟩
      · rintro ⟨rfl | hitem, hkey⟩
        · rfl
        · exact absurd (h.trans hkey.symm) (hfirst item hitem)
    · simp only [h, decide_false, ih hrest]
      constructor
      · rintro ⟨hitem, hkey⟩
        exact ⟨Or.inr hitem, hkey⟩
      · rintro ⟨rfl | hitem, hkey⟩
        · exact absurd hkey h
        · exact ⟨hitem, hkey⟩

/-- A class without faults has at most one method for the message with which a program starts, so it
does not matter that the registry has the first. -/
theorem reports_checkMain (hregistry : program.EnteredIn registry)
    (hclasses : program.classes.flatMap program.classFaults = []) (scopes : Scopes) :
    (checkMain registry program.classes).Reports program.startFaults scopes := by
  rw [checkMain, Program.startFaults, Program.declaration?]
  cases hfind : program.classes.find? (·.name.name = mainClass) with
  | none => exact reports_fail
  | some declared =>
    have hget : registry.get? mainClass = some declared.entry := by
      have hbuiltin : BuiltinClass.ofName? mainClass = none := by decide
      rw [hregistry, Program.get?_registry, hbuiltin, Program.declaration?, hfind]
      rfl
    have hfaults : program.classFaults declared = [] :=
      List.flatMap_eq_nil_iff.mp hclasses declared (List.mem_of_find?_eq_some hfind)
    have hrepeats : repeats Method.selector [] declared.methods = [] := by
      rw [Program.classFaults, List.append_eq_nil_iff, List.append_eq_nil_iff,
        List.map_eq_nil_iff] at hfaults
      exact hfaults.2.1
    have hdistinct := (repeats_eq_nil_iff.mp hrepeats).2
    apply reports_demand
    rw [decide_eq_true_eq, hget, Option.bind_some, ClassDef.entry, Table.get?_ofList_map,
      Option.map_eq_some_iff]
    simp only [find?_eq_some_iff_of_pairwise hdistinct, and_assoc]

theorem reports_checkClasses (hregistry : program.EnteredIn registry) :
    (checkClasses registry program.classes).Reports
      (program.classes.flatMap program.classFaults ++ program.startFaults) Scopes.outermost := by
  have hclasses : (Check.forEach program.classes (checkClass registry)).Reports
      (program.classes.flatMap program.classFaults) Scopes.outermost :=
    Check.reports_forEach fun declared _ ↦ reports_checkClass hregistry declared
  refine (hclasses.finds.andThen (fun hnone _ hstate ↦ ?_) fun _ _ hstate ↦ hstate).reports
  rw [hstate]
  exact (reports_checkMain hregistry hnone _).finds

end Sol25.Analysis

namespace Sol25

open Analysis

/-- A fresh analyzer answers with the first fault of the program. If there is none, it has entered
the classes. -/
theorem Analyzer.finds_analyze_fresh (program : Program) :
    (Analyzer.analyze program).Finds Analyzer.fresh program.faults fun after ↦
      program.faults = [] → program.EnteredIn after.registry := by
  have hclasses := finds_enterClasses program
  have henter : (enter program).Finds Analyzer.fresh
      (program.nameFaults ++ program.classes.flatMap program.parentFaults) fun middle ↦
        middle.scopes = Scopes.outermost ∧
          (program.nameFaults ++ program.classes.flatMap program.parentFaults = [] →
            program.EnteredIn middle.registry) :=
    ⟨hclasses.fault, rfl, hclasses.state⟩
  rw [analyze_eq_andThen, Program.faults, ← List.append_assoc]
  refine henter.andThen (fun hnone middle hmiddle ↦ ?_) fun hsome _ _ hnone ↦ ?_
  · obtain ⟨hscopes, hentered⟩ := hmiddle
    have hchecks := reports_checkClasses (hentered hnone)
    rw [← hscopes] at hchecks
    exact ⟨congrArg Prod.fst hchecks, fun _ ↦ hentered hnone⟩
  · exact absurd (List.append_eq_nil_iff.mp hnone).1 hsome

/-- If entering the classes finds a fault, nothing else is looked at. -/
theorem analyze_fresh_of_enterClasses_eq_some {program : Program} {fault : Fault}
    {registry : Registry}
    (h : enterClasses program.classes Registry.builtin = (some fault, registry)) :
    (Analyzer.fresh.analyze program).1 = some fault := by
  simp only [Analyzer.analyze, Analyzer.fresh, h]

theorem analyze_fresh_of_enterClasses_eq_none {program : Program} {registry : Registry}
    (h : enterClasses program.classes Registry.builtin = (none, registry)) :
    (Analyzer.fresh.analyze program).1 =
      (checkClasses registry program.classes Scopes.outermost).1 := by
  simp only [Analyzer.analyze, Analyzer.fresh, h]

/-- The analysis of a program answers with the first of all its faults. It accepts the program
exactly if there are none. -/
theorem analyze_fresh_eq_head?_faults (program : Program) :
    (Analyzer.fresh.analyze program).1 = program.faults.head? := by
  obtain ⟨hfault, hregistry⟩ := finds_enterClasses program
  rw [Program.faults, ← List.append_assoc]
  cases hentered : enterClasses program.classes Registry.builtin with
  | mk fault? registry =>
    rw [hentered] at hfault hregistry
    cases hfaults : program.nameFaults ++ program.classes.flatMap program.parentFaults with
    | nil =>
      rw [hfaults] at hfault
      obtain rfl : fault? = none := hfault
      have hclasses := reports_checkClasses (hregistry hfaults)
      rw [analyze_fresh_of_enterClasses_eq_none hentered, hclasses, List.nil_append]
    | cons first rest =>
      rw [hfaults] at hfault
      obtain rfl : fault? = some first := hfault
      rw [analyze_fresh_of_enterClasses_eq_some hentered, List.cons_append, List.head?_cons]

end Sol25
