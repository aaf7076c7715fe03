import Sol25.Proofs.Analysis.Faults

/-!
# Entering the classes of a program

The analysis goes over the classes three times before it looks into any of them: it enters their
names, settles their parents and adds their methods. Each time it may find a fault. If it finds
none, then the names are all different and none is that of a built-in class, so every entry has been
touched once each time, and the registry holds the built-in classes and those of the program just as
`Program.registry` does (`finds_enterClasses`).

This is one half of an analysis. The other half leaves the registry as it is and makes the checks
that need it (`Analyzer.analyze_eq_andThen`).
-/

set_option autoImplicit false
set_option relaxedAutoImplicit false

namespace Sol25

open Check (faultUnless finds_pass finds_of_eq_pass finds_of_eq_fail)

/-- Nothing is repeated if all keys are new and different. -/
theorem repeats_eq_nil_iff {α : Type} {key : α → String} {seen : List String} {items : List α} :
    repeats key seen items = [] ↔
      (∀ item ∈ items, key item ∉ seen) ∧
        items.Pairwise fun item other ↦ key item ≠ key other := by
  induction items generalizing seen with
  | nil => simp [repeats]
  | cons item rest ih =>
    rw [repeats, List.append_eq_nil_iff, ih, List.pairwise_cons, List.forall_mem_cons]
    by_cases h : key item ∈ seen
    · simp [h]
    · simp only [h, if_false, true_and, List.mem_cons, not_or, not_false_eq_true]
      constructor
      · rintro ⟨hnew, hdistinct⟩
        exact ⟨fun other hother ↦ (hnew other hother).2,
          fun other hother ↦ Ne.symm (hnew other hother).1, hdistinct⟩
      · rintro ⟨hnew, hitem, hdistinct⟩
        exact ⟨fun other hother ↦ ⟨Ne.symm (hitem other hother), hnew other hother⟩, hdistinct⟩

namespace Analysis

variable {registry : Registry}

/-! ### The three passes -/

/-- The first pass finds the names that are taken. If there are none, it has put an empty entry
behind those that were there for every class. -/
theorem finds_declareClasses {seen : List String} {classes : List ClassDef}
    (hseen : ∀ name, registry.contains name ↔ name ∈ seen) :
    (Check.forEach classes declareClass).Finds registry
      ((repeats (·.name.name) seen classes).map fun declared ↦
        .located (.duplicateClass declared.name.name) declared.name.span)
      (fun entered ↦ repeats (·.name.name) seen classes = [] → ∀ name,
        entered.get? name = (registry.get? name).or
          ((classes.find? (·.name.name = name)).map fun _ ↦ ⟨none, Table.empty⟩)) := by
  induction classes generalizing registry seen with
  | nil => exact finds_pass fun _ name ↦ by simp
  | cons declared rest ih =>
    rw [repeats, List.map_append]
    by_cases h : declared.name.name ∈ seen
    · have hfails : declareClass declared registry =
          Check.fail (.located (.duplicateClass declared.name.name) declared.name.span)
            registry := by
        rw [declareClass, if_pos ((hseen _).mpr h)]
      rw [if_pos h]
      have hfirst : (declareClass declared).Finds registry [_] fun _ ↦ True :=
        finds_of_eq_fail hfails trivial
      exact hfirst.andThen (fun hnone ↦ absurd hnone (List.cons_ne_nil _ _))
        fun _ _ _ hnone ↦ absurd hnone (List.cons_ne_nil _ _)
    · have hpasses : declareClass declared registry =
          Check.pass (registry.declare declared.name.name) := by
        rw [declareClass, if_neg fun hcontains ↦ h ((hseen _).mp hcontains)]
      have hnext : ∀ name, (registry.declare declared.name.name).contains name ↔
          name ∈ declared.name.name :: seen := by
        intro name
        rw [Registry.declare, Table.contains_insertNew, hseen, List.mem_cons, or_comm,
          eq_comm (a := name)]
      have hfirst : (declareClass declared).Finds registry []
          (· = registry.declare declared.name.name) := finds_of_eq_pass hpasses rfl
      rw [if_neg h]
      refine hfirst.andThen (fun _ state hstate ↦ ?_) fun hsome ↦ absurd rfl hsome
      apply (ih (hstate ▸ hnext)).mono
      intro entered hentered hnone name
      rw [hentered hnone, hstate, Registry.declare, Table.get?_insertNew, Option.or_assoc,
        List.find?_cons]
      by_cases hname : declared.name.name = name <;> simp [hname]

/-- The names in the registry are those that the program knows. -/
def Names (program : Program) (registry : Registry) : Prop :=
  ∀ name, registry.contains name ↔ program.Knows name

/-- What the second pass does for a class. -/
def link (registry : Registry) (declared : ClassDef) : Registry :=
  registry.setParent declared.name.name declared.parent.name

/-- What the third pass does for a class. -/
def fill (registry : Registry) (declared : ClassDef) : Registry :=
  registry.addMethods declared.name.name
    (declared.methods.map fun method ↦ (method.selector, method.arity))

theorem Names.link {program : Program} (h : Names program registry) (declared : ClassDef) :
    Names program (link registry declared) := fun name ↦ by
  rw [Analysis.link, Registry.setParent, Table.contains_modify, h]

theorem Names.fill {program : Program} (h : Names program registry) (declared : ClassDef) :
    Names program (fill registry declared) := fun name ↦ by
  rw [Analysis.fill, Registry.addMethods, Table.contains_modify, h]

theorem Names.foldl_link {program : Program} (h : Names program registry)
    (classes : List ClassDef) : Names program (classes.foldl Analysis.link registry) := by
  induction classes generalizing registry with
  | nil => exact h
  | cons declared rest ih => exact ih (h.link declared)

/-- The second pass finds the parents that are unknown. If there are none, it has settled the parent
of every class. -/
theorem finds_linkClasses {program : Program} (h : Names program registry)
    (classes : List ClassDef) :
    (Check.forEach classes linkClass).Finds registry (classes.flatMap program.parentFaults)
      fun linked ↦ classes.flatMap program.parentFaults = [] →
        linked = classes.foldl link registry := by
  refine Check.finds_forEach_foldl (fun declared _ state hstate ↦ ?_)
    (fun declared state hstate ↦ hstate.link declared) h
  by_cases hparent : program.Knows declared.parent.name
  · have hpasses : linkClass declared state = Check.pass (link state declared) := by
      rw [linkClass, if_pos ((hstate _).mpr hparent), link]
    rw [Program.parentFaults, faultUnless, if_pos hparent]
    exact finds_of_eq_pass hpasses fun _ ↦ rfl
  · have hfails : linkClass declared state =
        Check.fail (.located (.undefinedClass declared.parent.name) declared.parent.span)
          state := by
      rw [linkClass, if_neg fun hcontains ↦ hparent ((hstate _).mp hcontains)]
    rw [Program.parentFaults, faultUnless, if_neg hparent]
    exact finds_of_eq_fail hfails fun hnone ↦ absurd hnone (List.cons_ne_nil _ _)

/-- The third pass finds nothing. -/
theorem finds_addMethods {program : Program} (h : Names program registry)
    {classes : List ClassDef}
    (hknows : ∀ declared ∈ classes, program.Knows declared.name.name) :
    (Check.forEach classes addMethods).Finds registry [] (· = classes.foldl fill registry) := by
  have heach : ∀ declared ∈ classes, ∀ state, Names program state →
      (addMethods declared).Finds state [] fun next ↦
        ([] : List Fault) = [] → next = fill state declared := by
    intro declared hdeclared state hstate
    have hpasses : addMethods declared state = Check.pass (fill state declared) := by
      rw [addMethods, if_pos ((hstate _).mpr (hknows declared hdeclared)), fill]
    exact finds_of_eq_pass hpasses fun _ ↦ rfl
  have hnothing : classes.flatMap (fun _ ↦ ([] : List Fault)) = [] :=
    List.flatMap_eq_nil_iff.mpr fun _ _ ↦ rfl
  have hfinds := Check.finds_forEach_foldl heach (fun declared _ hstate ↦ hstate.fill declared) h
  rw [hnothing] at hfinds
  exact hfinds.mono fun _ hfilled ↦ hfilled rfl

/-! ### The registry of a program -/

theorem contains_builtin_iff (name : String) :
    Registry.builtin.contains name ↔ name ∈ BuiltinClass.all.map BuiltinClass.name := by
  rw [Table.contains, Registry.get?_builtin, Option.isSome_map, BuiltinClass.isSome_ofName?_iff]

variable {classes : List ClassDef}

theorem get?_foldl_link
    (hdistinct : classes.Pairwise fun item other ↦ item.name.name ≠ other.name.name)
    (registry : Registry) (name : String) :
    (classes.foldl link registry).get? name =
      (classes.find? (·.name.name = name)).elim (registry.get? name) fun declared ↦
        (registry.get? name).map fun entry ↦ { entry with parent? := some declared.parent.name } :=
  Table.get?_foldl_modify (fun _ _ ↦ by rfl) hdistinct registry name

theorem get?_foldl_fill
    (hdistinct : classes.Pairwise fun item other ↦ item.name.name ≠ other.name.name)
    (registry : Registry) (name : String) :
    (classes.foldl fill registry).get? name =
      (classes.find? (·.name.name = name)).elim (registry.get? name) fun declared ↦
        (registry.get? name).map fun entry ↦
          { entry with
            methods := entry.methods.insertAll
              (declared.methods.map fun method ↦ (method.selector, method.arity)) } :=
  Table.get?_foldl_modify (fun _ _ ↦ by rfl) hdistinct registry name

/-- After the three passes the registry holds what `Program.registry` holds, provided that all names
are new and different. -/
theorem get?_foldl_fill_foldl_link {program : Program} {declared : Registry}
    (hnew : ∀ item ∈ program.classes,
      item.name.name ∉ BuiltinClass.all.map BuiltinClass.name)
    (hdistinct : program.classes.Pairwise fun item other ↦ item.name.name ≠ other.name.name)
    (hdeclared : ∀ name, declared.get? name = (Registry.builtin.get? name).or
      ((program.declaration? name).map fun _ ↦ ⟨none, Table.empty⟩)) (name : String) :
    (program.classes.foldl fill (program.classes.foldl link declared)).get? name =
      program.registry.get? name := by
  rw [get?_foldl_fill hdistinct, get?_foldl_link hdistinct, Program.get?_registry,
    ← Registry.get?_builtin, hdeclared, Program.declaration?]
  cases hfind : program.classes.find? (·.name.name = name) with
  | none => rfl
  | some item =>
    have hname : item.name.name = name := by simpa using List.find?_some hfind
    have hbuiltin : Registry.builtin.get? name = none := by
      have := hnew item (List.mem_of_find?_eq_some hfind)
      rw [hname, ← contains_builtin_iff, Table.contains, Bool.not_eq_true] at this
      exact Option.isNone_iff_eq_none.mp (Option.isSome_eq_false_iff.mp this)
    rw [hbuiltin]
    rfl

theorem names_of_get? {program : Program} {declared : Registry}
    (hdeclared : ∀ name, declared.get? name = (Registry.builtin.get? name).or
      ((program.declaration? name).map fun _ ↦ ⟨none, Table.empty⟩)) :
    Names program declared := by
  intro name
  rw [Table.contains, hdeclared, Option.isSome_or, Bool.or_eq_true, Option.isSome_map,
    Registry.get?_builtin, Option.isSome_map, Program.Knows]

/-- Entering the classes finds the faults of the names and parents. If there are none, the registry
is that of the program. -/
theorem finds_enterClasses (program : Program) :
    (enterClasses program.classes).Finds Registry.builtin
      (program.nameFaults ++ program.classes.flatMap program.parentFaults) fun entered ↦
        program.nameFaults ++ program.classes.flatMap program.parentFaults = [] →
          program.EnteredIn entered := by
  refine (finds_declareClasses contains_builtin_iff).andThen
    (fun hnone declared hdeclared ↦ ?_) fun hsome _ _ hboth ↦ ?_
  · have hrepeats := List.map_eq_nil_iff.mp hnone
    obtain ⟨hnew, hdistinct⟩ := repeats_eq_nil_iff.mp hrepeats
    have hnames := names_of_get? (hdeclared hrepeats)
    have hknows : ∀ item ∈ program.classes, program.Knows item.name.name := fun item hitem ↦
      Or.inr (List.find?_isSome.mpr ⟨item, hitem, decide_eq_true rfl⟩)
    have hlink := finds_linkClasses hnames program.classes
    rw [← List.append_nil (program.classes.flatMap program.parentFaults)]
    refine hlink.andThen (fun hparents linked hlinked ↦ ?_) fun hsome _ _ hboth ↦ ?_
    · rw [hlinked hparents]
      apply (finds_addMethods (hnames.foldl_link _) hknows).mono
      intro filled hfilled _ name
      rw [hfilled]
      exact get?_foldl_fill_foldl_link hnew hdistinct (hdeclared hrepeats) name
    · rw [List.append_nil] at hboth
      exact absurd (List.append_eq_nil_iff.mp hboth).2 hsome
  · exact absurd (List.append_eq_nil_iff.mp hboth).1 hsome

end Analysis

/-! ### The two halves of an analysis -/

namespace Analyzer

/-- Enters the classes of the program, and leaves the scopes alone. -/
def enter (program : Program) : Check Analyzer := fun analyzer ↦
  let (fault?, registry) := Analysis.enterClasses program.classes analyzer.registry
  (fault?, { analyzer with registry := registry })

/-- Looks into the classes of the program, and leaves the registry alone. -/
def inspect (program : Program) : Check Analyzer := fun analyzer ↦
  let (fault?, scopes) := Analysis.checkClasses analyzer.registry program.classes analyzer.scopes
  (fault?, { analyzer with scopes := scopes })

theorem analyze_eq_andThen (program : Program) :
    Analyzer.analyze program = (enter program).andThen (inspect program) := by
  funext analyzer
  rw [analyze, Check.andThen, enter]
  cases Analysis.enterClasses program.classes analyzer.registry with
  | mk fault? registry => cases fault? <;> rfl

end Analyzer

end Sol25
