import Sol25.Proofs.Analysis.Entering
import Sol25.Proofs.Category

/-!
# What entering classes leaves behind

Entering the classes of a program may break off at any class, and what has been entered by then
stays. Nothing else has changed: the entries that were there before are as they were, and all others
are named like classes of the program (`GrownBy`). Names are all new when the first of their classes
is linked to its parent, since otherwise the first pass has not come to its end, so neither linking
nor filling touches an older entry (`GrownBy.modify`). In the same way a class is never missing when
its methods are entered.

All this is said of one pass at a time, of its answer and of the registry that it leaves
(`Entered`), and `yields_enterClasses` puts the passes together.
-/

set_option autoImplicit false
set_option relaxedAutoImplicit false

namespace Sol25

/-- Every parent that has been settled is a class of the registry. -/
def Registry.ParentsKnown (registry : Registry) : Prop :=
  ∀ name entry parent, registry.get? name = some entry → entry.parent? = some parent →
    registry.contains parent

/-- A registry that had been `before` when the classes began to be entered. -/
structure Registry.GrownBy (classes : List ClassDef) (before registry : Registry) : Prop where
  kept : ∀ name entry, before.get? name = some entry → registry.get? name = some entry
  added : ∀ name, registry.contains name →
    before.contains name ∨ ∃ declared ∈ classes, declared.name.name = name

namespace Registry

variable {classes : List ClassDef} {before registry : Registry} {name : String}

theorem GrownBy.refl (classes : List ClassDef) (registry : Registry) :
    GrownBy classes registry registry :=
  ⟨fun _ _ hentry ↦ hentry, fun _ hcontains ↦ .inl hcontains⟩

theorem GrownBy.declare (h : GrownBy classes before registry) {declared : ClassDef}
    (hdeclared : declared ∈ classes) :
    GrownBy classes before (registry.declare declared.name.name) := by
  refine ⟨fun name entry hentry ↦ ?_, fun name hcontains ↦ ?_⟩
  · rw [Registry.declare, Table.get?_insertNew, h.kept name entry hentry, Option.some_or]
  · rcases (Table.contains_insertNew _ _ _ _).mp hcontains with hold | rfl
    · exact h.added name hold
    · exact .inr ⟨declared, hdeclared, rfl⟩

/-- A change of an entry that is new leaves the older ones alone. -/
theorem GrownBy.modify (h : GrownBy classes before registry) (hnew : ¬ before.contains name)
    (change : ClassEntry → ClassEntry) :
    GrownBy classes before (registry.modify name change) := by
  refine ⟨fun other entry hentry ↦ ?_, fun other hcontains ↦ ?_⟩
  · have hne : name ≠ other := by
      rintro rfl
      rw [Table.contains, hentry] at hnew
      exact hnew rfl
    rw [Table.get?_modify, if_neg hne, h.kept other entry hentry]
  · rw [Table.contains_modify] at hcontains
    exact h.added other hcontains

theorem ParentsKnown.declare (h : registry.ParentsKnown) (name : String) :
    (registry.declare name).ParentsKnown := by
  intro other entry parent hentry hparent
  rw [Registry.declare, Table.get?_insertNew, Option.or_eq_some_iff] at hentry
  rw [Registry.declare, Table.contains_insertNew]
  rcases hentry with hold | ⟨-, hnew⟩
  · exact .inl (h other entry parent hold hparent)
  · split at hnew
    · obtain rfl := Option.some.inj hnew
      cases hparent
    · cases hnew

theorem ParentsKnown.setParent (h : registry.ParentsKnown) {parent : String}
    (hparent : registry.contains parent) (name : String) :
    (registry.setParent name parent).ParentsKnown := by
  intro other entry settled hentry hsettled
  rw [Registry.setParent, Table.get?_modify] at hentry
  rw [Registry.setParent, Table.contains_modify]
  split at hentry
  · obtain ⟨old, -, rfl⟩ := Option.map_eq_some_iff.mp hentry
    obtain rfl := Option.some.inj hsettled
    exact hparent
  · exact h other entry settled hentry hsettled

theorem ParentsKnown.addMethods (h : registry.ParentsKnown) (name : String)
    (methods : List (String × Nat)) : (registry.addMethods name methods).ParentsKnown := by
  intro other entry parent hentry hparent
  rw [Registry.addMethods, Table.get?_modify] at hentry
  rw [Registry.addMethods, Table.contains_modify]
  split at hentry
  · obtain ⟨old, hold, rfl⟩ := Option.map_eq_some_iff.mp hentry
    exact h other old parent hold hparent
  · exact h other entry parent hentry hparent

end Registry

namespace Analysis

open Check (onlyReports_forEach yields_forEach)
open Registry (GrownBy)

variable {classes : List ClassDef} {before registry : Registry} {fault? : Option Fault}

/-- Entering the classes has come as far as this, with this answer. -/
structure Entered (classes : List ClassDef) (before : Registry) (fault? : Option Fault)
    (registry : Registry) : Prop where
  grown : GrownBy classes before registry
  parents : before.ParentsKnown → registry.ParentsKnown
  meaning : ∀ fault ∈ fault?, fault.category.ofMeaning
  complete : fault? = none → ∀ declared ∈ classes,
    ¬ before.contains declared.name.name ∧ registry.contains declared.name.name

/-- The first pass comes to its end only if all names are new. -/
theorem complete_declareClasses
    (h : (Check.forEach classes declareClass before).1 = none) :
    ∀ declared ∈ classes, ¬ before.contains declared.name.name ∧
      (Check.forEach classes declareClass before).2.contains declared.name.name := by
  obtain ⟨hfault, hstate⟩ : (Check.forEach classes declareClass).Finds before _ _ :=
    finds_declareClasses (Table.contains_iff_mem_keys before)
  rw [h] at hfault
  have hrepeats := List.map_eq_nil_iff.mp (List.head?_eq_none_iff.mp hfault.symm)
  intro declared hdeclared
  refine ⟨fun hcontains ↦ ?_, ?_⟩
  · exact (repeats_eq_nil_iff.mp hrepeats).1 declared hdeclared
      ((Table.contains_iff_mem_keys _ _).mp hcontains)
  · rw [Table.contains, hstate hrepeats, Option.isSome_or, Option.isSome_map, Bool.or_eq_true]
    exact .inr (List.find?_isSome.mpr ⟨declared, hdeclared, decide_eq_true rfl⟩)

theorem yields_declareClasses (classes : List ClassDef) (before : Registry) :
    (Check.forEach classes declareClass).Yields before (Entered classes before) := by
  have hloop : (Check.forEach classes declareClass).Yields before fun _ registry ↦
      GrownBy classes before registry ∧ (before.ParentsKnown → registry.ParentsKnown) := by
    refine yields_forEach (fun declared hdeclared registry hregistry ↦ ?_)
      ⟨GrownBy.refl classes before, id⟩
    rw [Check.Yields, declareClass]
    split
    · exact hregistry
    · exact ⟨hregistry.1.declare hdeclared, fun hbefore ↦ (hregistry.2 hbefore).declare _⟩
  exact ⟨hloop.1, hloop.2, onlyReports_forEach onlyReports_declareClass classes before,
    complete_declareClasses⟩

/-- A class that is being entered may be changed, if that leaves all parents known. -/
theorem Entered.modify (h : Entered classes before none registry) {declared : ClassDef}
    (hdeclared : declared ∈ classes) {change : ClassEntry → ClassEntry}
    (hparents : registry.ParentsKnown →
      Registry.ParentsKnown (registry.modify declared.name.name change)) :
    Entered classes before none (registry.modify declared.name.name change) where
  grown := h.grown.modify (h.complete rfl declared hdeclared).1 change
  parents hbefore := hparents (h.parents hbefore)
  meaning := nofun
  complete _ other hother := by
    rw [Table.contains_modify]
    exact h.complete rfl other hother

theorem yields_linkClass (h : Entered classes before none registry) {declared : ClassDef}
    (hdeclared : declared ∈ classes) :
    (linkClass declared).Yields registry (Entered classes before) := by
  rw [Check.Yields, linkClass]
  split
  · next hparent => exact h.modify hdeclared fun hknown ↦ hknown.setParent hparent _
  · exact ⟨h.grown, h.parents, by rintro _ ⟨⟩; rfl, by rintro ⟨⟩⟩

/-- No class is missing when its methods are entered. -/
theorem yields_addMethods (h : Entered classes before none registry) {declared : ClassDef}
    (hdeclared : declared ∈ classes) :
    (addMethods declared).Yields registry (Entered classes before) := by
  rw [Check.Yields, addMethods, if_pos (h.complete rfl declared hdeclared).2]
  exact h.modify hdeclared fun hknown ↦ hknown.addMethods _ _

/-- Wherever entering the classes breaks off, the registry has only grown. -/
theorem yields_enterClasses (classes : List ClassDef) (before : Registry) :
    (enterClasses classes).Yields before (Entered classes before) := by
  refine (yields_declareClasses classes before).andThen (fun declared hdeclared ↦ ?_)
    fun _ _ hstopped ↦ hstopped
  have hlink : (Check.forEach classes linkClass).Yields declared (Entered classes before) :=
    yields_forEach (fun _ hmem _ hregistry ↦ yields_linkClass hregistry hmem) hdeclared
  exact hlink.andThen (fun _ hlinked ↦
    yields_forEach (fun _ hmem _ hregistry ↦ yields_addMethods hregistry hmem) hlinked)
    fun _ _ hstopped ↦ hstopped

end Analysis

end Sol25
