import Sol25.Proofs.Analysis.Runs

/-!
# The nearest definition

An analyzer keeps what it has entered for programs that it has rejected. So there may be classes in
its registry whose parent has never been settled, and classes whose parents lead in a circle. The
way up from a class comes to an end nevertheless, since it passes no class twice
(`ancestor_ne_of_lt_length`), and this hides nothing: what is found under a selector is the method
of the nearest ancestor that defines one (`lookupMethod_eq_some_iff`), and a class is refused as
circular exactly if there is no end to the chain of its parents (`isCircular_eq_false_iff`).

`climbs_afterAll` says so of every registry to which a run of an analyzer can lead. There the parent
of a class is a class itself (`Registry.ParentsKnown`), so a chain that has an end does not come to
it at a name that stands for nothing.
-/

set_option autoImplicit false
set_option relaxedAutoImplicit false

namespace Sol25

namespace Registry

variable {registry : Registry} {unvisited : List (String × ClassEntry)} {visited : List String}
  {name above selector : String} {steps arity : Nat}

/-! ### No class is passed twice -/

/-- These are the classes of the registry apart from those that have been visited. -/
def LeftOf (registry : Registry) (visited : List String) (unvisited : List (String × ClassEntry)) :
    Prop :=
  ∀ name, unvisited.find? (·.1 = name) =
    if name ∈ visited then none else registry.entries.find? (·.1 = name)

theorem leftOf_entries (registry : Registry) : registry.LeftOf [] registry.entries :=
  fun name ↦ by rw [if_neg List.not_mem_nil]

theorem LeftOf.without (h : registry.LeftOf visited unvisited) (name : String) :
    registry.LeftOf (name :: visited) (without unvisited name) := by
  intro other
  rw [find?_without, h]
  by_cases hother : other = name <;> simp [hother]

theorem LeftOf.not_mem (h : registry.LeftOf visited unvisited) {found : String × ClassEntry}
    (hfound : unvisited.find? (·.1 = name) = some found) : name ∉ visited := by
  intro hvisited
  rw [h, if_pos hvisited] at hfound
  cases hfound

theorem LeftOf.parent?_eq (h : registry.LeftOf visited unvisited) {found : String}
    {entry : ClassEntry} (hfound : unvisited.find? (·.1 = name) = some (found, entry)) :
    registry.parent? name = entry.parent? := by
  rw [parent?, get?_of_find?_eq_some h hfound, Option.bind_some]

/-- No class that the way up passes has been visited before. -/
theorem not_mem_of_ancestor_climb (h : registry.LeftOf visited unvisited) :
    ∀ steps < (climb unvisited name).entries.length, ∀ above,
      ancestor registry.parent? steps name = some above → above ∉ visited := by
  fun_induction climb unvisited name generalizing visited
  case case1 unvisited name hnone => exact fun steps hsteps ↦ absurd hsteps (Nat.not_lt_zero steps)
  case case2 unvisited name found entry hfound hparent =>
    intro steps hsteps above habove
    obtain rfl : steps = 0 := Nat.lt_one_iff.mp hsteps
    obtain rfl := Option.some.inj habove
    exact h.not_mem hfound
  case case3 unvisited name found entry hfound parent hparent hlt others ih =>
    intro steps hsteps above habove
    cases steps with
    | zero =>
      obtain rfl := Option.some.inj habove
      exact h.not_mem hfound
    | succ steps =>
      rw [ancestor_succ_of_parent ((h.parent?_eq hfound).trans hparent)] at habove
      exact List.not_mem_of_not_mem_cons
        (ih (h.without name) steps (Nat.lt_of_succ_lt_succ hsteps) above habove)

theorem ancestor_ne_of_lt_climb (h : registry.LeftOf visited unvisited) :
    ∀ low high, low < high → high < (climb unvisited name).entries.length →
      ancestor registry.parent? low name ≠ ancestor registry.parent? high name := by
  fun_induction climb unvisited name generalizing visited
  case case1 unvisited name hnone => exact fun _ high _ hhigh ↦ absurd hhigh (Nat.not_lt_zero high)
  case case2 unvisited name found entry hfound hparent =>
    intro low high hlt hhigh
    exact absurd (Nat.lt_one_iff.mp hhigh) (Nat.ne_zero_of_lt hlt)
  case case3 unvisited name found entry hfound parent hparent hshorter others ih =>
    intro low high hlt hhigh
    have hleft := h.without name
    have hstep := (h.parent?_eq hfound).trans hparent
    obtain ⟨high, rfl⟩ := Nat.exists_eq_add_one_of_ne_zero (Nat.ne_zero_of_lt hlt)
    have hbound : high < others.entries.length := Nat.lt_of_succ_lt_succ hhigh
    rw [ancestor_succ_of_parent hstep]
    cases low with
    | zero =>
      -- Further up the class itself counts as visited.
      exact fun heq ↦ not_mem_of_ancestor_climb hleft high hbound name heq.symm List.mem_cons_self
    | succ low =>
      rw [ancestor_succ_of_parent hstep]
      exact ih hleft low high (Nat.lt_of_succ_lt_succ hlt) hbound

/-- A lineage passes every class at most once. -/
theorem ancestor_ne_of_lt_length (registry : Registry) (name : String) {low high : Nat}
    (hlt : low < high) (hhigh : high < (registry.lineage name).entries.length) :
    ancestor registry.parent? low name ≠ ancestor registry.parent? high name :=
  ancestor_ne_of_lt_climb (leftOf_entries registry) low high hlt hhigh

/-! ### What is found -/

/-- The ancestor so many steps up is a class that has a method under the selector, and nearer to the
class there is none. -/
structure NearestDefines (registry : Registry) (name selector : String) (arity steps : Nat) :
    Prop where
  defines : ∃ above entry, ancestor registry.parent? steps name = some above ∧
    registry.get? above = some entry ∧ entry.methods.get? selector = some arity
  nearest : ∀ lower < steps, ∀ below, ancestor registry.parent? lower name = some below →
    ¬ registry.Defines below selector

/-- The nearest ancestor that defines a method is passed: if the chain had come back to a class by
then, that class would be nearer. -/
theorem NearestDefines.lt_length (h : registry.NearestDefines name selector arity steps) :
    steps < (registry.lineage name).entries.length := by
  obtain ⟨above, entry, hancestor, hentry, hmethod⟩ := h.defines
  obtain ⟨passed, hpassed, hagain⟩ := exists_lt_of_ancestor_known hancestor hentry
  refine Nat.lt_of_le_of_lt (Nat.le_of_not_lt fun hlt ↦ ?_) hpassed
  exact h.nearest passed hlt above hagain ⟨entry, hentry, by rw [hmethod, Option.isSome_some]⟩

/-- The class and its ancestors in order are those whose entries a lineage has passed. -/
theorem nearestDefines_iff_getElem? :
    registry.NearestDefines name selector arity steps ↔
      (∃ entry, (registry.lineage name).entries[steps]? = some entry ∧
        entry.methods.get? selector = some arity) ∧
      ∀ lower < steps, ∀ entry, (registry.lineage name).entries[lower]? = some entry →
        entry.methods.get? selector = none := by
  have hpassed := (follows_lineage registry name).passed
  constructor
  · intro h
    have hlt := h.lt_length
    obtain ⟨above, entry, hancestor, hentry, hmethod⟩ := h.defines
    refine ⟨⟨_, List.getElem?_eq_getElem hlt, ?_⟩, fun lower hlower other hother ↦ ?_⟩
    · obtain ⟨again, hagain, hget⟩ := exists_ancestor_eq_some_of_lt hlt
      obtain rfl := Option.some.inj (hancestor.symm.trans hagain)
      rwa [← Option.some.inj (hentry.symm.trans hget)]
    · obtain ⟨below, hbelow, hget⟩ := hpassed lower other hother
      rw [← Option.not_isSome_iff_eq_none]
      exact fun hdefines ↦ h.nearest lower hlower below hbelow ⟨other, hget, hdefines⟩
  · rintro ⟨⟨entry, hentry, hmethod⟩, hnearer⟩
    obtain ⟨above, hancestor, hget⟩ := hpassed steps entry hentry
    refine ⟨⟨above, entry, hancestor, hget, hmethod⟩, ?_⟩
    rintro lower hlower below hbelow ⟨other, hother, hdefines⟩
    have hlt : lower < (registry.lineage name).entries.length :=
      Nat.lt_trans hlower (List.getElem?_eq_some_iff.mp hentry).1
    obtain ⟨again, hagain, hget⟩ := exists_ancestor_eq_some_of_lt hlt
    obtain rfl := Option.some.inj (hbelow.symm.trans hagain)
    obtain rfl := Option.some.inj (hother.symm.trans hget)
    rw [hnearer lower hlower _ (List.getElem?_eq_getElem hlt)] at hdefines
    cases hdefines

/-- The search answers with what the first item has that has anything. -/
theorem findSome?_eq_some_iff_first {α β : Type} {f : α → Option β} {items : List α} {found : β} :
    items.findSome? f = some found ↔
      ∃ index : Nat, (∃ item, items[index]? = some item ∧ f item = some found) ∧
        ∀ lower < index, ∀ item, items[lower]? = some item → f item = none := by
  rw [List.findSome?_eq_some_iff]
  constructor
  · rintro ⟨nearer, item, further, rfl, hfound, hnone⟩
    refine ⟨nearer.length, ⟨item, by simp, hfound⟩, ?_⟩
    intro lower hlower other hother
    rw [List.getElem?_append_left hlower] at hother
    exact hnone other (List.mem_of_getElem? hother)
  · rintro ⟨index, ⟨item, hitem, hfound⟩, hnone⟩
    obtain ⟨hlt, rfl⟩ := List.getElem?_eq_some_iff.mp hitem
    refine ⟨items.take index, items[index], items.drop (index + 1), ?_, hfound, ?_⟩
    · rw [← List.drop_eq_getElem_cons hlt, List.take_append_drop]
    · intro other hother
      obtain ⟨lower, hlower, rfl⟩ := List.mem_take_iff_getElem.mp hother
      exact hnone lower (by omega) _ (List.getElem?_eq_getElem _)

theorem lookupMethod_eq_some_iff (registry : Registry) (name selector : String) (arity : Nat) :
    registry.lookupMethod name selector = some arity ↔
      ∃ steps, registry.NearestDefines name selector arity steps := by
  simp only [nearestDefines_iff_getElem?]
  rw [lookupMethod, findSome?_eq_some_iff_first]

/-! ### What is refused -/

theorem length_climb_le (unvisited : List (String × ClassEntry)) (name : String) :
    (climb unvisited name).entries.length ≤ unvisited.length := by
  fun_induction climb unvisited name
  case case1 unvisited name hnone => exact Nat.zero_le _
  case case2 unvisited name found entry hfound hparent =>
    exact List.length_pos_of_mem (List.mem_of_find?_eq_some hfound)
  case case3 unvisited name found entry hfound parent hparent hshorter others ih =>
    exact Nat.succ_le_of_lt (Nat.lt_of_le_of_lt ih hshorter)

/-- Going up from the class one comes to a class that has no parent. -/
def ReachesTop (registry : Registry) (name : String) : Prop :=
  ∃ steps top, ancestor registry.parent? steps name = some top ∧ registry.parent? top = none

theorem isCircular_eq_false_iff (registry : Registry) (name : String) :
    registry.isCircular name = false ↔ registry.ReachesTop name := by
  rw [← Bool.not_eq_true, isCircular_iff, Classical.not_forall]
  constructor
  · rintro ⟨steps, hsteps⟩
    exact exists_top_of_ancestor_eq_none (Classical.not_not.mp hsteps)
  · rintro ⟨steps, top, htop, hend⟩
    exact ⟨steps + 1, Classical.not_not.mpr ((ancestor_succ_of_ancestor htop).trans hend)⟩

theorem checkLineage_eq (registry : Registry) (declared : ClassDef) (scopes : Scopes) :
    Analysis.checkLineage registry declared scopes =
      (if registry.isCircular declared.name.name then
        some (.located (.circularInheritance declared.name.name) declared.name.span)
      else none, scopes) := by
  rw [Analysis.checkLineage]
  cases registry.isCircular declared.name.name <;> rfl

theorem ParentsKnown.contains_ancestor (h : registry.ParentsKnown)
    (hknown : registry.contains name)
    (hancestor : ancestor registry.parent? steps name = some above) :
    registry.contains above := by
  refine of_ancestor (P := fun name ↦ registry.contains name = true)
    (fun name parent _ hparent ↦ ?_) hknown hancestor
  obtain ⟨entry, hentry, hsettled⟩ := Option.bind_eq_some_iff.mp hparent
  exact h name entry parent hentry hsettled

/-- What the way up from a class leads to. -/
structure Climbs (registry : Registry) (name : String) : Prop where
  passed : ∀ steps entry, (registry.lineage name).entries[steps]? = some entry →
    ∃ above, ancestor registry.parent? steps name = some above ∧ registry.get? above = some entry
  once : ∀ low high, low < high → high < (registry.lineage name).entries.length →
    ancestor registry.parent? low name ≠ ancestor registry.parent? high name
  bounded : (registry.lineage name).entries.length ≤ registry.entries.length
  found : ∀ selector arity, registry.lookupMethod name selector = some arity ↔
    ∃ steps, registry.NearestDefines name selector arity steps
  refused : ∀ declared : ClassDef, declared.name.name = name → ∀ scopes : Scopes,
    Analysis.checkLineage registry declared scopes =
        (some (.located (.circularInheritance name) declared.name.span), scopes) ↔
      ¬ registry.ReachesTop name
  accepted : ∀ declared : ClassDef, declared.name.name = name → ∀ scopes : Scopes,
    Analysis.checkLineage registry declared scopes = (none, scopes) ↔ registry.ReachesTop name
  /-- A class without a parent that is reached from a class is a class too. -/
  known : registry.contains name →
    ∀ steps above, ancestor registry.parent? steps name = some above → registry.contains above

theorem ParentsKnown.climbs (h : registry.ParentsKnown) (name : String) : registry.Climbs name where
  passed := (follows_lineage registry name).passed
  once _ _ := ancestor_ne_of_lt_length registry name
  bounded := length_climb_le registry.entries name
  found := lookupMethod_eq_some_iff registry name
  refused := by
    rintro declared rfl scopes
    rw [checkLineage_eq, ← isCircular_eq_false_iff]
    cases registry.isCircular declared.name.name <;> simp
  accepted := by
    rintro declared rfl scopes
    rw [checkLineage_eq, ← isCircular_eq_false_iff]
    cases registry.isCircular declared.name.name <;> simp
  known hknown _ _ := h.contains_ancestor hknown

/-- Whatever programs a fresh analyzer has been given and whatever it has made of them, the way up
from every name comes to an end, and misses nothing. -/
theorem climbs_afterAll (programs : List Program) (name : String) :
    (Analyzer.fresh.afterAll programs).registry.Climbs name :=
  (Analyzer.consistent_fresh.afterAll programs).parents.climbs name

end Registry

end Sol25
