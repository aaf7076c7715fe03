import Mathlib.Data.List.Perm.Basic
import Sol25.Proofs.Analysis.Accepted

/-!
# The order of classes and methods does not matter

The analysis goes through classes and methods in the order in which they are declared. It stops at
the first fault, and of two classes with the same name it enters the first. Which fault it finds,
and what it has entered by then, does depend on the order. Whether there is a fault does not, and
what is found in the registry of an accepted program does not either (`accepted_rearranged`).

If the names of all classes differ, a name stands for the same class in both programs, up to the
order of its methods (`Program.Rearranged.declaration?_cases`). All that is asked of the classes
from elsewhere is whether there is one, which is its parent and whether it defines a method
(`Program.SameClasses`), and the answers are the same. So every expression has the same faults.
-/

set_option autoImplicit false
set_option relaxedAutoImplicit false

namespace Sol25

open Check (faultUnless)

/-! ### Programs of which the same is known -/

/-- There are the same classes in both programs, with the same parents and selectors. -/
structure Program.SameClasses (program other : Program) : Prop where
  knows_iff : ∀ name, program.Knows name ↔ other.Knows name
  parentOf?_eq : program.parentOf? = other.parentOf?
  defines_iff : ∀ name selector, program.Defines name selector ↔ other.Defines name selector

namespace Program.SameClasses

variable {program other : Program}

theorem rooted_iff (h : program.SameClasses other) (name : String) :
    program.Rooted name ↔ other.Rooted name := by
  rw [Rooted, Rooted, h.parentOf?_eq]

theorem understands_iff (h : program.SameClasses other) (name selector : String) :
    program.Understands name selector ↔ other.Understands name selector := by
  rw [Understands, Understands, h.parentOf?_eq]
  simp only [h.defines_iff]

theorem messageFaults_eq (h : program.SameClasses other) (receiver : Expr) (selector : String)
    (span : Span) :
    program.messageFaults receiver selector span = other.messageFaults receiver selector span := by
  rw [messageFaults, messageFaults]
  cases receiver.className? with
  | none => rfl
  | some name => simp only [faultUnless, h.understands_iff]

mutual

theorem exprFaults_eq (h : program.SameClasses other) : ∀ (expr : Expr) (visible : List String),
    program.exprFaults visible expr = other.exprFaults visible expr
  | .literal kind value span, visible => by
    cases kind with
    | className => simp only [exprFaults, faultUnless, h.knows_iff]
    | _ => rfl
  | .var _ _, _ => rfl
  | .send receiver selector args span, visible => by
    rw [exprFaults, exprFaults, h.exprFaults_eq receiver, h.argsFaults_eq args,
      h.messageFaults_eq]
  | .block content, visible => by
    rw [exprFaults, exprFaults, h.blockFaults_eq content]

theorem argsFaults_eq (h : program.SameClasses other) :
    ∀ (args : List Expr) (visible : List String),
      program.argsFaults visible args = other.argsFaults visible args
  | [], _ => rfl
  | arg :: rest, visible => by
    rw [argsFaults, argsFaults, h.exprFaults_eq arg, h.argsFaults_eq rest]

theorem blockFaults_eq (h : program.SameClasses other) :
    ∀ (block : Block) (visible : List String),
      program.blockFaults visible block = other.blockFaults visible block
  | ⟨params, body, _⟩, visible => by
    rw [blockFaults, blockFaults, h.bodyFaults_eq body]

theorem bodyFaults_eq (h : program.SameClasses other) :
    ∀ (body : List Assignment) (params visible : List String),
      program.bodyFaults params visible body = other.bodyFaults params visible body
  | [], _, _ => rfl
  | ⟨target, value⟩ :: rest, params, visible => by
    rw [bodyFaults, bodyFaults, h.exprFaults_eq value, h.bodyFaults_eq rest]

end

theorem methodFaults_eq (h : program.SameClasses other) (method : Method) :
    program.methodFaults method = other.methodFaults method := by
  rw [methodFaults, methodFaults, h.blockFaults_eq]

end Program.SameClasses

/-! ### Programs in another order -/

/-- The other class is the same but for the order of its methods. -/
structure ClassDef.Rearranged (declared other : ClassDef) : Prop where
  name : declared.name = other.name
  parent : declared.parent = other.parent
  methods : declared.methods.Perm other.methods

/-- The other program has its classes in another order, and so each class its methods. What it is
described as does not matter. -/
def Program.Rearranged (program other : Program) : Prop :=
  ∃ reordered, program.classes.Perm reordered ∧
    List.Forall₂ ClassDef.Rearranged reordered other.classes

theorem ClassDef.Rearranged.symm {declared other : ClassDef} (h : declared.Rearranged other) :
    other.Rearranged declared :=
  ⟨h.name.symm, h.parent.symm, h.methods.symm⟩

namespace Program.Rearranged

variable {program other : Program} {declared : ClassDef}

theorem symm (h : program.Rearranged other) : other.Rearranged program := by
  obtain ⟨reordered, hperm, hclasses⟩ := h
  have hflip : List.Forall₂ (flip ClassDef.Rearranged) reordered other.classes :=
    hclasses.imp fun _ _ ↦ ClassDef.Rearranged.symm
  have hback : Relation.Comp (List.Forall₂ ClassDef.Rearranged) List.Perm
      other.classes program.classes := ⟨reordered, hflip.flip, hperm.symm⟩
  -- To rearrange within the classes and then the classes comes to the same as the other way round.
  rw [List.forall₂_comp_perm_eq_perm_comp_forall₂] at hback
  exact hback

theorem exists_twin (h : program.Rearranged other) (hdeclared : declared ∈ program.classes) :
    ∃ twin ∈ other.classes, declared.Rearranged twin := by
  obtain ⟨reordered, hperm, hclasses⟩ := h
  obtain ⟨index, hindex, rfl⟩ := List.getElem_of_mem (hperm.mem_iff.mp hdeclared)
  have hother : index < other.classes.length := hclasses.length_eq ▸ hindex
  exact ⟨other.classes[index], List.getElem_mem hother, hclasses.get hindex hother⟩

/-- Whether the names of all classes differ is seen in any order. -/
theorem distinctNames (h : program.Rearranged other) (hdistinct : program.DistinctNames) :
    other.DistinctNames := by
  obtain ⟨reordered, hperm, hclasses⟩ := h
  have hnames : reordered.map (·.name.name) = other.classes.map (·.name.name) := by
    rw [← List.forall₂_eq_eq_eq, List.forall₂_map_left_iff, List.forall₂_map_right_iff]
    exact hclasses.imp fun _ _ hclass ↦ congrArg Ident.name hclass.name
  have hpermNames := hperm.map (·.name.name)
  rw [hnames] at hpermNames
  exact List.pairwise_map.mp (hpermNames.nodup_iff.mp (List.pairwise_map.mpr hdistinct))

/-- If the names of all classes differ, a name stands for the same class in any order. -/
theorem declaration?_cases (h : program.Rearranged other) (hdistinct : program.DistinctNames)
    (name : String) :
    program.declaration? name = none ∧ other.declaration? name = none ∨
      ∃ declared twin, program.declaration? name = some declared ∧
        other.declaration? name = some twin ∧ declared.Rearranged twin := by
  cases hdeclared : program.declaration? name with
  | some declared =>
    obtain ⟨hmem, rfl⟩ := (declaration?_eq_some_iff hdistinct).mp hdeclared
    obtain ⟨twin, htwin, hclass⟩ := h.exists_twin hmem
    have hfound : other.declaration? declared.name.name = some twin :=
      (declaration?_eq_some_iff (h.distinctNames hdistinct)).mpr
        ⟨htwin, congrArg Ident.name hclass.name.symm⟩
    exact .inr ⟨declared, twin, rfl, hfound, hclass⟩
  | none =>
    refine .inl ⟨rfl, Option.eq_none_iff_forall_ne_some.mpr fun twin htwin ↦ ?_⟩
    obtain ⟨hmem, rfl⟩ := (declaration?_eq_some_iff (h.distinctNames hdistinct)).mp htwin
    obtain ⟨declared, hdeclaredMem, hclass⟩ := h.symm.exists_twin hmem
    have hfound := (declaration?_eq_some_iff hdistinct).mpr
      ⟨hdeclaredMem, congrArg Ident.name hclass.name.symm⟩
    rw [hdeclared] at hfound
    cases hfound

theorem sameClasses (h : program.Rearranged other) (hdistinct : program.DistinctNames) :
    program.SameClasses other := by
  refine ⟨fun name ↦ ?_, funext fun name ↦ ?_, fun name selector ↦ ?_⟩
  · rw [Knows, Knows]
    rcases h.declaration?_cases hdistinct name with ⟨hnone, hother⟩ | ⟨_, _, hdeclared, htwin, -⟩
    · rw [hnone, hother]
    · rw [hdeclared, htwin, Option.isSome_some, Option.isSome_some]
  · rw [parentOf?, parentOf?]
    rcases h.declaration?_cases hdistinct name with
      ⟨hnone, hother⟩ | ⟨_, _, hdeclared, htwin, hclass⟩
    · rw [hnone, hother]
    · rw [hdeclared, htwin, Option.map_some, Option.map_some, hclass.parent]
  · rw [Defines, Defines]
    rcases h.declaration?_cases hdistinct name with
      ⟨hnone, hother⟩ | ⟨_, _, hdeclared, htwin, hclass⟩
    · rw [hnone, hother]
    · simp only [hdeclared, htwin, Option.some.injEq, exists_eq_left', hclass.methods.mem_iff]

theorem faultless (h : program.Rearranged other) (hfaultless : program.Faultless) :
    other.Faultless := by
  have hsame := h.sameClasses hfaultless.distinct
  -- A class of the other program passes since its twin does.
  have htwins : ∀ declared ∈ other.classes, ∃ twin ∈ program.classes,
      declared.Rearranged twin := fun _ ↦ h.symm.exists_twin
  refine ⟨fun declared hdeclared ↦ ?_, h.distinctNames hfaultless.distinct,
    fun declared hdeclared ↦ ?_, fun declared hdeclared ↦ ?_, fun declared hdeclared ↦ ?_,
    fun declared hdeclared ↦ ?_, ?_⟩
  · obtain ⟨twin, htwin, hclass⟩ := htwins declared hdeclared
    rw [hclass.name]
    exact hfaultless.new twin htwin
  · obtain ⟨twin, htwin, hclass⟩ := htwins declared hdeclared
    rw [hclass.parent, ← hsame.knows_iff]
    exact hfaultless.parents twin htwin
  · obtain ⟨twin, htwin, hclass⟩ := htwins declared hdeclared
    rw [hclass.name, ← hsame.rooted_iff]
    exact hfaultless.rooted twin htwin
  · obtain ⟨twin, htwin, hclass⟩ := htwins declared hdeclared
    exact (hclass.methods.pairwise_iff Ne.symm).mpr (hfaultless.selectors twin htwin)
  · obtain ⟨twin, htwin, hclass⟩ := htwins declared hdeclared
    intro method hmethod
    rw [← hsame.methodFaults_eq]
    exact hfaultless.methods twin htwin method (hclass.methods.mem_iff.mp hmethod)
  · obtain ⟨declared, hdeclared, hname, method, hmethod, hstart⟩ := hfaultless.start
    obtain ⟨twin, htwin, hclass⟩ := h.exists_twin hdeclared
    exact ⟨twin, htwin, hclass.name ▸ hname, method, hclass.methods.mem_iff.mp hmethod, hstart⟩

end Program.Rearranged

/-! ### The registries of accepted programs -/

/-- Two entries have the same parent, and under each selector the same is found in both. -/
structure ClassEntry.Agrees (entry other : ClassEntry) : Prop where
  parent : entry.parent? = other.parent?
  methods : ∀ selector, entry.methods.get? selector = other.methods.get? selector

/-- The registries have the same classes, with the same parents and methods. -/
def Registry.Agrees (registry other : Registry) : Prop :=
  ∀ name, Option.Rel ClassEntry.Agrees (registry.get? name) (other.get? name)

theorem ClassDef.Rearranged.agrees_entry {declared other : ClassDef}
    (h : declared.Rearranged other)
    (hdistinct : declared.methods.Pairwise fun method other ↦ method.selector ≠ other.selector) :
    declared.entry.Agrees other.entry := by
  have hother := (h.methods.pairwise_iff Ne.symm).mp hdistinct
  refine ⟨congrArg (fun parent : Ident ↦ some parent.name) h.parent, fun selector ↦ ?_⟩
  apply Option.ext
  intro arity
  rw [ClassDef.get?_methods_entry_iff hdistinct, ClassDef.get?_methods_entry_iff hother]
  simp only [h.methods.mem_iff]

theorem Program.Rearranged.agrees_registry {program other : Program}
    (h : program.Rearranged other) (hfaultless : program.Faultless) :
    program.registry.Agrees other.registry := by
  intro name
  rw [Program.get?_registry, Program.get?_registry]
  cases BuiltinClass.ofName? name with
  | some which => exact .some ⟨rfl, fun _ ↦ rfl⟩
  | none =>
    rcases h.declaration?_cases hfaultless.distinct name with
      ⟨hnone, hother⟩ | ⟨declared, twin, hdeclared, htwin, hclass⟩
    · rw [hnone, hother]
      exact .none
    · rw [hdeclared, htwin]
      exact .some (hclass.agrees_entry
        (hfaultless.selectors declared (List.mem_of_find?_eq_some hdeclared)))

/-- Classes and methods may be declared in any order: a fresh analyzer accepts a program in all
orders or in none, and in its registry there are the same classes then. -/
theorem accepted_rearranged {program other : Program} (h : program.Rearranged other) :
    ((Analyzer.fresh.analyze program).1 = none ↔ (Analyzer.fresh.analyze other).1 = none) ∧
      ((Analyzer.fresh.analyze program).1 = none → (Analyzer.fresh.analyze other).1 = none →
        (Analyzer.fresh.analyze program).2.registry.Agrees
          (Analyzer.fresh.analyze other).2.registry) := by
  rw [Program.analyze_fresh_eq_none_iff, Program.analyze_fresh_eq_none_iff]
  refine ⟨⟨h.faultless, h.symm.faultless⟩, fun hfaultless hother name ↦ ?_⟩
  rw [hfaultless.enteredIn, hother.enteredIn]
  exact h.agrees_registry hfaultless name

/-- The program with its classes, and the methods of each, the other way round. -/
def Program.reversed (program : Program) : Program :=
  ⟨program.classes.reverse.map fun declared ↦ { declared with methods := declared.methods.reverse },
    program.description?⟩

theorem Program.rearranged_reversed (program : Program) : program.Rearranged program.reversed := by
  refine ⟨program.classes.reverse, (List.reverse_perm _).symm, ?_⟩
  rw [reversed, List.forall₂_map_right_iff, List.forall₂_same]
  exact fun declared _ ↦ ⟨rfl, rfl, (List.reverse_perm _).symm⟩

/-- `class Main:Shape{run[|]} class Shape:Main{}`, where the way up from a class leads back. -/
def Program.circle : Program :=
  ⟨[⟨⟨"Main", ⟨6, 10⟩⟩, ⟨"Shape", ⟨11, 16⟩⟩, [⟨"run", 0, ⟨[], [], ⟨20, 23⟩⟩, ⟨17, 23⟩⟩]⟩,
    ⟨⟨"Shape", ⟨31, 36⟩⟩, ⟨"Main", ⟨37, 41⟩⟩, []⟩], none⟩

/-- The first program is accepted both ways round. The other one is so neither way, though the class
that is blamed is not the same. -/
theorem accepted_rearranged_reversed :
    (Program.aheadOfParent.Rearranged Program.aheadOfParent.reversed ∧
        (Analyzer.fresh.analyze Program.aheadOfParent).1 = none ∧
        (Analyzer.fresh.analyze Program.aheadOfParent.reversed).1 = none ∧
        (Analyzer.fresh.analyze Program.aheadOfParent).2.registry.Agrees
          (Analyzer.fresh.analyze Program.aheadOfParent.reversed).2.registry) ∧
      Program.circle.Rearranged Program.circle.reversed ∧
      (Analyzer.fresh.analyze Program.circle).1 =
        some (.located (.circularInheritance "Main") ⟨6, 10⟩) ∧
      (Analyzer.fresh.analyze Program.circle.reversed).1 ≠ none ∧
      (Analyzer.fresh.analyze Program.circle.reversed).1 ≠
        (Analyzer.fresh.analyze Program.circle).1 := by
  have hrearranged := Program.aheadOfParent.rearranged_reversed
  obtain ⟨haccepted, hagrees⟩ := accepted_rearranged hrearranged
  have hfirst : (Analyzer.fresh.analyze Program.aheadOfParent).1 = none := by decide +kernel
  have hsecond := haccepted.mp hfirst
  refine ⟨⟨hrearranged, hfirst, hsecond, hagrees hfirst hsecond⟩,
    Program.circle.rearranged_reversed, ?_⟩
  have hcircle : (Analyzer.fresh.analyze Program.circle).1 =
      some (.located (.circularInheritance "Main") ⟨6, 10⟩) := by
    decide +kernel
  refine ⟨hcircle, fun haccepted ↦ ?_, by decide +kernel⟩
  rw [(accepted_rearranged Program.circle.rearranged_reversed).1.mpr haccepted] at hcircle
  cases hcircle

end Sol25
