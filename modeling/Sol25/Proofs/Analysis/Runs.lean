import Sol25.Proofs.Analysis.Growth
import Sol25.Proofs.Analysis.Unwinding

/-!
# One analyzer, many programs

An analyzer remembers the classes of the programs that it has been given, those it has rejected too,
since nothing that has been entered is taken back. `analyzer_invariants` says what holds
nevertheless after every program of a run that begins with a fresh analyzer. All scopes but the
outermost have been left. The registry has grown by classes of the program alone, whatever their
names, their parents and the place of the first fault, so the built-in classes are always there as
they were. Every parent is a class of the registry, which is how a class can be entered without fail
once its name has been. And of all programs at most one is accepted: it has declared the class with
which programs start, and from then on that name is taken.

The argument is a step lemma for one program (`yields_analyze`) and an induction over the run, with
`Analyzer.Consistent` as the invariant.
-/

set_option autoImplicit false
set_option relaxedAutoImplicit false

namespace Sol25

open Analysis

namespace Analyzer

/-- The analyzer after it has been given the programs one after the other. -/
def afterAll (analyzer : Analyzer) (programs : List Program) : Analyzer :=
  programs.foldl (fun analyzer program ↦ (analyzer.analyze program).2) analyzer

/-- What an analyzer answers to the programs one after the other. -/
def answers (analyzer : Analyzer) : List Program → List (Option Fault)
  | [] => []
  | program :: rest => (analyzer.analyze program).1 :: (analyzer.analyze program).2.answers rest

variable {analyzer before after : Analyzer} {program : Program} {fault? : Option Fault}

/-! ### One program -/

/-- The checks of the classes end without a fault only if the class is declared with which programs
start. -/
theorem yields_checkClasses_main (registry : Registry) (classes : List ClassDef)
    (scopes : Scopes) : (checkClasses registry classes).Yields scopes fun fault? _ ↦
      fault? = none → ∃ declared ∈ classes, declared.name.name = mainClass := by
  have hclasses : (Check.forEach classes (checkClass registry)).Yields scopes
      fun _ _ ↦ True := trivial
  refine hclasses.andThen (fun state _ ↦ ?_) fun _ _ _ ↦ by rintro ⟨⟩
  rw [checkMain]
  split
  · exact Check.yields_fail (by rintro ⟨⟩)
  · next declared hfind =>
    exact fun _ ↦ ⟨declared, List.mem_of_find?_eq_some hfind, by simpa using List.find?_some hfind⟩

/-- What the analysis of a program has done, and what it may have answered. -/
structure Analyzed (program : Program) (before : Analyzer) (fault? : Option Fault)
    (after : Analyzer) : Prop where
  scopes : after.scopes = before.scopes
  grown : Registry.GrownBy program.classes before.registry after.registry
  parents : before.registry.ParentsKnown → after.registry.ParentsKnown
  meaning : ∀ fault ∈ fault?, fault.category.ofMeaning
  accepted : fault? = none →
    ¬ before.registry.contains mainClass ∧ after.registry.contains mainClass

theorem yields_analyze (hscopes : before.scopes = Scopes.outermost) (program : Program) :
    (Analyzer.analyze program).Yields before (Analyzed program before) := by
  have henter : (enter program).Yields before fun fault? middle ↦
      middle.scopes = before.scopes ∧
        Entered program.classes before.registry fault? middle.registry :=
    ⟨rfl, yields_enterClasses program.classes before.registry⟩
  rw [analyze_eq_andThen]
  refine henter.andThen (fun middle hmiddle ↦ ?_) fun fault middle hmiddle ↦ ?_
  · obtain ⟨hsame, hentered⟩ := hmiddle
    have hrestores : (checkClasses middle.registry program.classes).Restores middle.scopes := by
      rw [hsame, hscopes, Scopes.outermost_eq_ofStack]
      exact restores_checkClasses (List.cons_ne_nil _ _) program.classes
    refine ⟨Eq.trans hrestores hsame, hentered.grown, hentered.parents,
      onlyReports_checkClasses program.classes middle.scopes, fun hnone ↦ ?_⟩
    obtain ⟨declared, hdeclared, hname⟩ :=
      yields_checkClasses_main middle.registry program.classes middle.scopes hnone
    exact hname ▸ hentered.complete rfl declared hdeclared
  · obtain ⟨hsame, hentered⟩ := hmiddle
    exact ⟨hsame, hentered.grown, hentered.parents, hentered.meaning, nofun⟩

/-! ### Runs -/

/-- What holds of an analyzer between two programs. -/
structure Consistent (analyzer : Analyzer) : Prop where
  scopes : analyzer.scopes = Scopes.outermost
  builtin : ∀ which : BuiltinClass, analyzer.registry.get? which.name = some which.entry
  parents : analyzer.registry.ParentsKnown

theorem consistent_fresh : fresh.Consistent := by
  refine ⟨rfl, fun which ↦ ?_, fun name entry parent hentry hparent ↦ ?_⟩
  · change Registry.builtin.get? which.name = _
    rw [Registry.get?_builtin, BuiltinClass.ofName?_name, Option.map_some]
  · change Registry.builtin.get? name = _ at hentry
    change Registry.builtin.contains parent
    rw [Registry.get?_builtin] at hentry
    obtain ⟨which, -, rfl⟩ := Option.map_eq_some_iff.mp hentry
    obtain ⟨above, -, rfl⟩ := Option.map_eq_some_iff.mp hparent
    rw [contains_builtin_iff]
    exact List.mem_map_of_mem (by cases above <;> decide)

theorem Analyzed.consistent (h : Analyzed program before fault? after)
    (hbefore : before.Consistent) : after.Consistent :=
  ⟨h.scopes.trans hbefore.scopes, fun which ↦ h.grown.kept _ _ (hbefore.builtin which),
    h.parents hbefore.parents⟩

theorem Consistent.analyzed (h : analyzer.Consistent) (program : Program) :
    Analyzed program analyzer (analyzer.analyze program).1 (analyzer.analyze program).2 :=
  yields_analyze h.scopes program

theorem Consistent.afterAll (h : analyzer.Consistent) (programs : List Program) :
    (analyzer.afterAll programs).Consistent := by
  induction programs generalizing analyzer with
  | nil => exact h
  | cons program rest ih => exact ih ((h.analyzed program).consistent h)

/-- As soon as the class is known with which programs start, no program is accepted. -/
theorem Consistent.countP_answers_eq_zero (h : analyzer.Consistent)
    (hmain : analyzer.registry.contains mainClass) (programs : List Program) :
    (analyzer.answers programs).countP Option.isNone = 0 := by
  induction programs generalizing analyzer with
  | nil => rfl
  | cons program rest ih =>
    have hanalyzed := h.analyzed program
    obtain ⟨entry, hentry⟩ := Option.isSome_iff_exists.mp hmain
    have hkept : (analyzer.analyze program).2.registry.contains mainClass := by
      rw [Table.contains, hanalyzed.grown.kept _ _ hentry, Option.isSome_some]
    have hrejected : ¬ (analyzer.analyze program).1.isNone := fun hnone ↦
      (hanalyzed.accepted (Option.isNone_iff_eq_none.mp hnone)).1 hmain
    rw [answers, List.countP_cons_of_neg hrejected]
    exact ih (hanalyzed.consistent h) hkept

theorem Consistent.countP_answers_le_one (h : analyzer.Consistent) (programs : List Program) :
    (analyzer.answers programs).countP Option.isNone ≤ 1 := by
  induction programs generalizing analyzer with
  | nil => exact Nat.zero_le 1
  | cons program rest ih =>
    have hanalyzed := h.analyzed program
    have hconsistent := hanalyzed.consistent h
    rw [answers]
    by_cases hnone : (analyzer.analyze program).1.isNone
    · have hmain := (hanalyzed.accepted (Option.isNone_iff_eq_none.mp hnone)).2
      have hrest := hconsistent.countP_answers_eq_zero hmain rest
      rw [List.countP_cons_of_pos hnone]
      omega
    · rw [List.countP_cons_of_neg hnone]
      exact ih hconsistent

theorem get?_pseudoTable (name : String) :
    Scopes.pseudoTable.get? name =
      if name ∈ Scopes.pseudoNames then some .pseudo else none := by
  have hget := Table.get?_ofList_map (fun name ↦ name) (fun _ ↦ Binding.pseudo)
    Scopes.pseudoNames name
  rw [Scopes.pseudoTable, hget]
  split
  · next hname =>
    have hfind : (Scopes.pseudoNames.find? (· = name)).isSome :=
      List.find?_isSome.mpr ⟨name, hname, decide_eq_true rfl⟩
    obtain ⟨found, hfound⟩ := Option.isSome_iff_exists.mp hfind
    rw [hfound, Option.map_some]
  · next hname =>
    have hfind : Scopes.pseudoNames.find? (· = name) = none :=
      List.find?_eq_none.mpr fun other hother ↦ by
        rw [decide_eq_true_eq]
        rintro rfl
        exact hname hother
    rw [hfind, Option.map_none]

/-- What holds after one more program of a run, if this is what the analyzer has answered and what
has become of it. -/
structure Invariants (before : Analyzer) (program : Program) (fault? : Option Fault)
    (after : Analyzer) : Prop where
  depth : after.scopes.depth = 1
  /-- The outermost scope binds the names that are bound everywhere, and no others. -/
  outermost : ∃ frame, after.scopes.frames[0]? = some frame ∧
    ∀ name, frame.names.get? name =
      if name ∈ ["self", "super", "nil", "true", "false"] then some .pseudo else none
  kept : ∀ name entry, before.registry.get? name = some entry →
    after.registry.get? name = some entry
  builtin : ∀ which : BuiltinClass, after.registry.get? which.name = some which.entry
  added : ∀ name, after.registry.contains name →
    before.registry.contains name ∨ ∃ declared ∈ program.classes, declared.name.name = name
  parents : ∀ name entry parent, after.registry.get? name = some entry →
    entry.parent? = some parent → after.registry.contains parent
  notInternal : ∀ reason, fault? ≠ some (.unlocated (.internal reason))

theorem Consistent.invariants (h : analyzer.Consistent) (program : Program) :
    Invariants analyzer program (analyzer.analyze program).1 (analyzer.analyze program).2 := by
  have hanalyzed := h.analyzed program
  have hafter := hanalyzed.consistent h
  refine ⟨?_, ?_, hanalyzed.grown.kept, hafter.builtin, hanalyzed.grown.added, hafter.parents,
    fun reason hfault ↦ ?_⟩
  · rw [hafter.scopes, Scopes.outermost_eq_ofStack, Scopes.depth_ofStack, List.length_singleton]
  · rw [hafter.scopes]
    exact ⟨_, rfl, get?_pseudoTable⟩
  · have hmeaning := hanalyzed.meaning _ hfault
    cases hmeaning

end Analyzer

/-- Whatever programs a fresh analyzer is given, the invariants hold after each of them, and at most
one of them is accepted. -/
theorem analyzer_invariants (programs : List Program) :
    (∀ earlier program later, programs = earlier ++ program :: later →
      Analyzer.Invariants (Analyzer.fresh.afterAll earlier) program
        ((Analyzer.fresh.afterAll earlier).analyze program).1
        ((Analyzer.fresh.afterAll earlier).analyze program).2) ∧
      (Analyzer.fresh.answers programs).countP Option.isNone ≤ 1 := by
  refine ⟨fun earlier program _ _ ↦ ?_, Analyzer.consistent_fresh.countP_answers_le_one programs⟩
  exact (Analyzer.consistent_fresh.afterAll earlier).invariants program

end Sol25
