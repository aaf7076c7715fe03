import Sol25.Proofs.Analysis.FirstFault

/-!
# Programs that are accepted

A fresh analyzer accepts a program exactly if nothing is wrong with it
(`analyze_fresh_eq_none_iff`), and what that means can be said without an order in which things are
looked at: names, parents, selectors, methods and the class with which the program starts are each
as they should be (`Program.Faultless`). The registry is then that of the program
(`Program.Faultless.enteredIn`).

The parents of an accepted program make a tree (`hierarchy_of_accepted`). Every class has been found
to have an end of the chain above it, at a time when others might still have turned out not to have
one. The only class without a parent is `Object`, so that is where each chain ends. It meets no
class twice, and therefore it is shorter than the list of all classes.
-/

set_option autoImplicit false
set_option relaxedAutoImplicit false

namespace Sol25

open Analysis
open Check (faultUnless_eq_nil_iff)

namespace Program

variable {program : Program} {name : String} {declared : ClassDef}

/-- No two classes that the program declares have the same name. -/
def DistinctNames (program : Program) : Prop :=
  program.classes.Pairwise fun declared other ↦ declared.name.name ≠ other.name.name

/-- Nothing is wrong with the program. -/
structure Faultless (program : Program) : Prop where
  new : ∀ declared ∈ program.classes,
    declared.name.name ∉ BuiltinClass.all.map BuiltinClass.name
  distinct : program.DistinctNames
  parents : ∀ declared ∈ program.classes, program.Knows declared.parent.name
  rooted : ∀ declared ∈ program.classes, program.Rooted declared.name.name
  selectors : ∀ declared ∈ program.classes,
    declared.methods.Pairwise fun method other ↦ method.selector ≠ other.selector
  methods : ∀ declared ∈ program.classes, ∀ method ∈ declared.methods,
    program.methodFaults method = []
  start : ∃ declared ∈ program.classes, declared.name.name = mainClass ∧
    ∃ method ∈ declared.methods, method.selector = mainSelector ∧ method.arity = 0

theorem nameFaults_eq_nil_iff : program.nameFaults = [] ↔
    (∀ declared ∈ program.classes,
        declared.name.name ∉ BuiltinClass.all.map BuiltinClass.name) ∧
      program.DistinctNames := by
  rw [nameFaults, List.map_eq_nil_iff, repeats_eq_nil_iff, DistinctNames]

theorem classFaults_eq_nil_iff : program.classFaults declared = [] ↔
    program.Rooted declared.name.name ∧
      (declared.methods.Pairwise fun method other ↦ method.selector ≠ other.selector) ∧
        ∀ method ∈ declared.methods, program.methodFaults method = [] := by
  rw [classFaults, List.append_eq_nil_iff, List.append_eq_nil_iff, faultUnless_eq_nil_iff,
    List.map_eq_nil_iff, repeats_eq_nil_iff, List.flatMap_eq_nil_iff]
  simp

theorem declaration?_eq_some_iff (hdistinct : program.DistinctNames) :
    program.declaration? name = some declared ↔
      declared ∈ program.classes ∧ declared.name.name = name :=
  find?_eq_some_iff_of_pairwise hdistinct

theorem startFaults_eq_nil_iff (hdistinct : program.DistinctNames) :
    program.startFaults = [] ↔ ∃ declared ∈ program.classes, declared.name.name = mainClass ∧
      ∃ method ∈ declared.methods, method.selector = mainSelector ∧ method.arity = 0 := by
  rw [startFaults]
  constructor
  · intro h
    split at h
    · cases h
    · next declared hdeclared =>
      obtain ⟨hmem, hname⟩ := (declaration?_eq_some_iff hdistinct).mp hdeclared
      exact ⟨declared, hmem, hname, faultUnless_eq_nil_iff.mp h⟩
  · rintro ⟨declared, hmem, hname, hmethod⟩
    rw [(declaration?_eq_some_iff hdistinct).mpr ⟨hmem, hname⟩]
    exact faultUnless_eq_nil_iff.mpr hmethod

theorem faults_eq_nil_iff : program.faults = [] ↔ program.Faultless := by
  rw [faults, List.append_eq_nil_iff, List.append_eq_nil_iff, List.append_eq_nil_iff,
    nameFaults_eq_nil_iff, List.flatMap_eq_nil_iff, List.flatMap_eq_nil_iff]
  constructor
  · rintro ⟨⟨hnew, hdistinct⟩, hparents, hclasses, hstart⟩
    have hclass := fun declared hdeclared ↦ classFaults_eq_nil_iff.mp (hclasses declared hdeclared)
    exact ⟨hnew, hdistinct,
      fun declared hdeclared ↦ faultUnless_eq_nil_iff.mp (hparents declared hdeclared),
      fun declared hdeclared ↦ (hclass declared hdeclared).1,
      fun declared hdeclared ↦ (hclass declared hdeclared).2.1,
      fun declared hdeclared ↦ (hclass declared hdeclared).2.2,
      (startFaults_eq_nil_iff hdistinct).mp hstart⟩
  · intro h
    exact ⟨⟨h.new, h.distinct⟩,
      fun declared hdeclared ↦ faultUnless_eq_nil_iff.mpr (h.parents declared hdeclared),
      fun declared hdeclared ↦ classFaults_eq_nil_iff.mpr
        ⟨h.rooted declared hdeclared, h.selectors declared hdeclared, h.methods declared hdeclared⟩,
      (startFaults_eq_nil_iff h.distinct).mpr h.start⟩

/-- A fresh analyzer accepts the programs with which nothing is wrong. -/
theorem analyze_fresh_eq_none_iff (program : Program) :
    (Analyzer.fresh.analyze program).1 = none ↔ program.Faultless := by
  rw [(Analyzer.finds_analyze_fresh program).fault, List.head?_eq_none_iff, faults_eq_nil_iff]

/-- It then holds the classes of the program. -/
theorem Faultless.enteredIn (h : program.Faultless) :
    program.EnteredIn (Analyzer.fresh.analyze program).2.registry :=
  (Analyzer.finds_analyze_fresh program).state (faults_eq_nil_iff.mpr h)

/-! ### The classes of an accepted program -/

/-- The names of all classes that there are in a program. -/
def classNames (program : Program) : List String :=
  BuiltinClass.all.map BuiltinClass.name ++ program.classes.map (·.name.name)

theorem knows_iff_mem_classNames : program.Knows name ↔ name ∈ program.classNames := by
  rw [Knows, classNames, List.mem_append, BuiltinClass.isSome_ofName?_iff, declaration?,
    List.find?_isSome, List.mem_map]
  simp

theorem Faultless.nodup_classNames (h : program.Faultless) : program.classNames.Nodup := by
  refine List.nodup_append.mpr ⟨by decide, List.pairwise_map.mpr h.distinct, ?_⟩
  rintro name hbuiltin other hother rfl
  obtain ⟨declared, hdeclared, rfl⟩ := List.mem_map.mp hother
  exact h.new declared hdeclared hbuiltin

theorem Faultless.ofName?_eq_none (h : program.Faultless) (hdeclared : declared ∈ program.classes) :
    BuiltinClass.ofName? declared.name.name = none := by
  have hnew := h.new declared hdeclared
  rw [← BuiltinClass.isSome_ofName?_iff, Bool.not_eq_true, Option.isSome_eq_false_iff] at hnew
  exact Option.isNone_iff_eq_none.mp hnew

theorem Faultless.get?_registry (h : program.Faultless) (hdeclared : declared ∈ program.classes) :
    program.registry.get? declared.name.name = some declared.entry := by
  rw [Program.get?_registry, h.ofName?_eq_none hdeclared,
    (declaration?_eq_some_iff h.distinct).mpr ⟨hdeclared, rfl⟩]
  rfl

theorem parentOf?_builtin (program : Program) (which : BuiltinClass) :
    program.parentOf? which.name = which.parent?.map BuiltinClass.name := by
  rw [parentOf?, BuiltinClass.ofName?_name]

theorem Faultless.knows_parent (h : program.Faultless) {parent : String}
    (hparent : program.parentOf? name = some parent) : program.Knows parent := by
  rw [parentOf?] at hparent
  split at hparent
  · obtain ⟨above, -, rfl⟩ := Option.map_eq_some_iff.mp hparent
    exact .inl (by rw [BuiltinClass.ofName?_name, Option.isSome_some])
  · obtain ⟨declared, hdeclared, rfl⟩ := Option.map_eq_some_iff.mp hparent
    exact h.parents declared (List.mem_of_find?_eq_some hdeclared)

theorem Faultless.knows_ancestor (h : program.Faultless) (hname : program.Knows name)
    (steps : Nat) {above : String}
    (hancestor : ancestor program.parentOf? steps name = some above) : program.Knows above := by
  cases steps with
  | zero => exact Option.some.inj hancestor ▸ hname
  | succ steps =>
    cases hbelow : ancestor program.parentOf? steps name with
    | none =>
      rw [ancestor_eq_none_of_le (Nat.le_succ steps) hbelow] at hancestor
      cases hancestor
    | some below =>
      rw [ancestor_succ_of_ancestor hbelow] at hancestor
      exact h.knows_parent hancestor

theorem rooted_builtin (program : Program) (which : BuiltinClass) : program.Rooted which.name := by
  have hobject : ancestor program.parentOf? 1 BuiltinClass.objectClass.name = none := by
    rw [ancestor, parentOf?_builtin]
    rfl
  refine ⟨2, ?_⟩
  rw [ancestor, parentOf?_builtin]
  cases which with
  | objectClass => rfl
  | _ => exact hobject

theorem Faultless.rooted_of_knows (h : program.Faultless) (hname : program.Knows name) :
    program.Rooted name := by
  rcases hname with hbuiltin | hown
  · obtain ⟨which, hwhich⟩ := Option.isSome_iff_exists.mp hbuiltin
    exact BuiltinClass.name_of_ofName?_eq_some hwhich ▸ rooted_builtin program which
  · obtain ⟨declared, hdeclared⟩ := Option.isSome_iff_exists.mp hown
    obtain ⟨hmem, rfl⟩ := (declaration?_eq_some_iff h.distinct).mp hdeclared
    exact h.rooted declared hmem

/-- A class that the program declares has a parent, and so has every built-in class but one. -/
theorem eq_object_of_parentOf?_eq_none (hname : program.Knows name)
    (hend : program.parentOf? name = none) : name = BuiltinClass.objectClass.name := by
  rw [parentOf?] at hend
  split at hend
  · next which hwhich =>
    cases which with
    | objectClass => exact (BuiltinClass.name_of_ofName?_eq_some hwhich).symm
    | _ => cases hend
  · next hwhich =>
    rw [Knows, hwhich, Option.map_eq_none_iff.mp hend] at hname
    simp at hname

/-- The chain above a class ends at `Object`, in fewer steps than there are classes. -/
theorem Faultless.exists_chain (h : program.Faultless) (hname : program.Knows name) :
    ∃ steps < program.classNames.length,
      ancestor program.parentOf? steps name = some BuiltinClass.objectClass.name ∧
        ∀ low high, low < high → high ≤ steps →
          ancestor program.parentOf? low name ≠ ancestor program.parentOf? high name := by
  obtain ⟨beyond, hbeyond⟩ := h.rooted_of_knows hname
  obtain ⟨last, top, htop, hend⟩ := exists_top_of_ancestor_eq_none hbeyond
  have hnames : ∀ steps above, ancestor program.parentOf? steps name = some above →
      above ∈ program.classNames := fun steps above hancestor ↦
    knows_iff_mem_classNames.mp (h.knows_ancestor hname steps hancestor)
  obtain rfl := eq_object_of_parentOf?_eq_none (h.knows_ancestor hname last htop) hend
  exact ⟨last, lt_length_of_ancestor htop hend hnames, htop,
    fun _ _ hlt hle ↦ ancestor_ne_of_lt htop hend hlt hle⟩

/-- A program in which the first class has the second one for its parent. -/
def aheadOfParent : Program :=
  ⟨[⟨⟨"Main", ⟨6, 10⟩⟩, ⟨"Shape", ⟨11, 16⟩⟩,
      [⟨"run", 0, ⟨[], [⟨⟨"x", ⟨22, 23⟩⟩,
        .send (.literal .className "Shape" ⟨25, 30⟩) "at:"
          [.send (.literal .className "Shape" ⟨35, 40⟩) "size" [] ⟨35, 45⟩] ⟨25, 46⟩⟩],
        ⟨20, 48⟩⟩, ⟨17, 48⟩⟩]⟩,
    ⟨⟨"Shape", ⟨55, 60⟩⟩, ⟨"Object", ⟨61, 67⟩⟩,
      [⟨"at:", 1, ⟨[⟨"x", ⟨73, 74⟩⟩], [], ⟨71, 76⟩⟩, ⟨68, 76⟩⟩,
        ⟨"size", 0, ⟨[], [], ⟨80, 83⟩⟩, ⟨76, 83⟩⟩]⟩], none⟩

end Program

/-! ### The registry of an accepted program -/

/-- The registry has the built-in classes and those of the program. Their parents make a tree. -/
structure Registry.HierarchyOf (program : Program) (registry : Registry) : Prop where
  /-- All classes have different names, so there is one entry for each. -/
  nodup : program.classNames.Nodup
  names : ∀ name, registry.contains name ↔ name ∈ program.classNames
  builtin : ∀ which : BuiltinClass, registry.get? which.name = some which.entry
  own : ∀ declared ∈ program.classes, ∃ entry,
    registry.get? declared.name.name = some entry ∧
      entry.parent? = some declared.parent.name ∧
        ∀ selector arity, entry.methods.get? selector = some arity ↔
          ∃ method ∈ declared.methods, method.selector = selector ∧ method.arity = arity
  object : registry.parent? "Object" = none
  chains : ∀ name, registry.contains name → ∃ steps < program.classNames.length,
    ancestor registry.parent? steps name = some "Object" ∧
      ∀ low high, low < high → high ≤ steps →
        ancestor registry.parent? low name ≠ ancestor registry.parent? high name

/-- The methods of a class are those that it declares. -/
theorem ClassDef.get?_methods_entry_iff {declared : ClassDef}
    (hdistinct : declared.methods.Pairwise fun method other ↦ method.selector ≠ other.selector)
    (selector : String) (arity : Nat) :
    declared.entry.methods.get? selector = some arity ↔
      ∃ method ∈ declared.methods, method.selector = selector ∧ method.arity = arity := by
  rw [ClassDef.entry, Table.get?_ofList_map, Option.map_eq_some_iff]
  simp only [find?_eq_some_iff_of_pairwise hdistinct, and_assoc]

/-- What a fresh analyzer has in its registry when it has accepted a program is a hierarchy with
`Object` at its top. -/
theorem hierarchy_of_accepted {program : Program}
    (h : (Analyzer.fresh.analyze program).1 = none) :
    Registry.HierarchyOf program (Analyzer.fresh.analyze program).2.registry := by
  have hfaultless := (Program.analyze_fresh_eq_none_iff program).mp h
  have hentered := hfaultless.enteredIn
  have hparent : (Analyzer.fresh.analyze program).2.registry.parent? = program.parentOf? :=
    (Registry.parent?_congr hentered).trans program.parent?_registry
  refine ⟨hfaultless.nodup_classNames, fun name ↦ ?_, fun which ↦ ?_, fun declared hdeclared ↦ ?_,
    ?_, fun name hname ↦ ?_⟩
  · rw [hentered.contains_iff, Program.knows_iff_mem_classNames]
  · rw [hentered, Program.get?_registry, BuiltinClass.ofName?_name, Option.map_some,
      Option.some_or]
  · refine ⟨declared.entry, ?_, rfl,
      ClassDef.get?_methods_entry_iff (hfaultless.selectors declared hdeclared)⟩
    rw [hentered, hfaultless.get?_registry hdeclared]
  · rw [hparent]
    exact program.parentOf?_builtin .objectClass
  · rw [hparent]
    exact hfaultless.exists_chain ((hentered.contains_iff name).mp hname)

theorem hierarchy_of_aheadOfParent :
    (Analyzer.fresh.analyze Program.aheadOfParent).1 = none ∧
      Registry.HierarchyOf Program.aheadOfParent
        (Analyzer.fresh.analyze Program.aheadOfParent).2.registry := by
  have haccepted : (Analyzer.fresh.analyze Program.aheadOfParent).1 = none := by decide +kernel
  exact ⟨haccepted, hierarchy_of_accepted haccepted⟩

end Sol25
