import Sol25.Class.Registry

/-!
# The way up from a class

Parents make a chain above every class: its ancestors at step 0, which is the class itself, at step
1, and so on (`ancestor`). The chain may end at a class without a parent, or run in a circle. The
registry follows it only as far as it meets no class twice (`Registry.lineage`).

`follows_lineage` says what the registry sees of the chain. Its entries are those of the first
ancestors in order, and it ends for one of three reasons: there is no further ancestor, the next one
is unknown, or the next one has been passed. In the last case nothing is hidden behind the end,
since from there on the chain only repeats what was passed (`exists_lt_ancestor_eq`). So a class is
in a circle, or below one, exactly if its chain never ends (`isCircular_iff`), and a method is found
exactly if some ancestor defines it (`isSome_lookupMethod_iff`).

A chain that does end meets no class twice on its way (`ancestor_ne_of_lt`), so it is no longer than
there are classes (`lt_length_of_ancestor`).
-/

set_option autoImplicit false
set_option relaxedAutoImplicit false

namespace Sol25

/-- The ancestor of a class so many steps up, where `parent?` tells the parents. -/
def ancestor (parent? : String → Option String) : (steps : Nat) → (name : String) → Option String
  | 0, name => some name
  | steps + 1, name => (parent? name).bind (ancestor parent? steps)

section Chain

variable {parent? : String → Option String} {name : String}

theorem ancestor_add (first second : Nat) (name : String) :
    ancestor parent? (first + second) name =
      (ancestor parent? first name).bind (ancestor parent? second) := by
  induction first generalizing name with
  | zero => rw [Nat.zero_add]; rfl
  | succ first ih =>
    rw [Nat.succ_add, ancestor, ancestor, Option.bind_assoc]
    exact congrArg _ (funext ih)

theorem ancestor_succ_of_parent {parent : String} (h : parent? name = some parent)
    (steps : Nat) : ancestor parent? (steps + 1) name = ancestor parent? steps parent := by
  rw [ancestor, h, Option.bind_some]

/-- What holds of a class and passes on to parents holds of every ancestor. -/
theorem of_ancestor {P : String → Prop} {steps : Nat} {above : String}
    (hparent : ∀ name parent, P name → parent? name = some parent → P parent) (h : P name)
    (hancestor : ancestor parent? steps name = some above) : P above := by
  induction steps generalizing name with
  | zero => exact Option.some.inj hancestor ▸ h
  | succ steps ih =>
    obtain ⟨parent, hfound, habove⟩ := Option.bind_eq_some_iff.mp hancestor
    exact ih (hparent name parent h hfound) habove

/-- Above the end of a chain there is nothing. -/
theorem ancestor_eq_none_of_le {low high : Nat} (hle : low ≤ high)
    (h : ancestor parent? low name = none) : ancestor parent? high name = none := by
  obtain ⟨more, rfl⟩ := Nat.exists_eq_add_of_le hle
  rw [ancestor_add, h, Option.bind_none]

/-- A chain that comes back to a class goes on with what it has been through. -/
theorem exists_lt_ancestor_eq {low high : Nat} (hlt : low < high)
    (h : ancestor parent? high name = ancestor parent? low name) (steps : Nat) :
    ∃ passed < high, ancestor parent? steps name = ancestor parent? passed name := by
  induction steps using Nat.strongRecOn with
  | _ steps ih =>
    rcases Nat.lt_or_ge steps high with hsteps | hsteps
    · exact ⟨steps, hsteps, rfl⟩
    · obtain ⟨more, rfl⟩ := Nat.exists_eq_add_of_le hsteps
      have hback : ancestor parent? (high + more) name = ancestor parent? (low + more) name := by
        rw [ancestor_add, ancestor_add, h]
      obtain ⟨passed, hpassed, heq⟩ := ih (low + more) (by omega)
      exact ⟨passed, hpassed, hback.trans heq⟩

theorem ancestor_succ_of_ancestor {above : String} {steps : Nat}
    (h : ancestor parent? steps name = some above) :
    ancestor parent? (steps + 1) name = parent? above := by
  rw [ancestor_add, h, Option.bind_some, ancestor]
  cases parent? above <;> rfl

/-- A chain that comes to an end ends at a class without a parent. -/
theorem exists_top_of_ancestor_eq_none {steps : Nat}
    (h : ancestor parent? steps name = none) :
    ∃ last top, ancestor parent? last name = some top ∧ parent? top = none := by
  induction steps with
  | zero => cases h
  | succ steps ih =>
    cases hancestor : ancestor parent? steps name with
    | none => exact ih hancestor
    | some above =>
      exact ⟨steps, above, hancestor, (ancestor_succ_of_ancestor hancestor).symm.trans h⟩

variable {last : Nat} {top : String}

/-- If it met a class twice, it would go round for ever. -/
theorem ancestor_ne_of_lt (htop : ancestor parent? last name = some top)
    (hend : parent? top = none) {low high : Nat} (hlt : low < high) (hle : high ≤ last) :
    ancestor parent? low name ≠ ancestor parent? high name := by
  intro heq
  obtain ⟨passed, hpassed, hback⟩ := exists_lt_ancestor_eq hlt heq.symm (last + 1)
  rw [ancestor_succ_of_ancestor htop, hend] at hback
  have hnone := ancestor_eq_none_of_le (Nat.le_of_lt (Nat.lt_of_lt_of_le hpassed hle)) hback.symm
  rw [htop] at hnone
  cases hnone

theorem lt_length_of_ancestor (htop : ancestor parent? last name = some top)
    (hend : parent? top = none) {names : List String}
    (hnames : ∀ steps above, ancestor parent? steps name = some above → above ∈ names) :
    last < names.length := by
  have hnodup : ((List.range (last + 1)).map (ancestor parent? · name)).Nodup := by
    rw [List.Nodup, List.pairwise_map]
    refine List.pairwise_lt_range.imp_of_mem fun _ hhigh hlt ↦ ?_
    exact ancestor_ne_of_lt htop hend hlt (Nat.lt_succ_iff.mp (List.mem_range.mp hhigh))
  have hsubset : (List.range (last + 1)).map (ancestor parent? · name) ⊆ names.map some := by
    intro above? habove
    obtain ⟨steps, hsteps, rfl⟩ := List.mem_map.mp habove
    cases hancestor : ancestor parent? steps name with
    | some above => exact List.mem_map_of_mem (hnames steps above hancestor)
    | none =>
      have hlast := ancestor_eq_none_of_le (Nat.lt_succ_iff.mp (List.mem_range.mp hsteps)) hancestor
      rw [htop] at hlast
      cases hlast
  have hlength := hnodup.length_le_of_subset hsubset
  rw [List.length_map, List.length_range, List.length_map] at hlength
  exact hlength

end Chain

namespace Registry

/-- The parent of a class, if the class is known and has one. -/
def parent? (registry : Registry) (name : String) : Option String :=
  (registry.get? name).bind ClassEntry.parent?

/-- What a lineage that starts at `name` tells of its ancestors, if the classes in `visited` are not
passed any more. -/
structure Follows (registry : Registry) (visited : List String) (name : String)
    (lineage : Lineage) : Prop where
  passed : ∀ steps entry, lineage.entries[steps]? = some entry →
    ∃ above, ancestor registry.parent? steps name = some above ∧
      registry.get? above = some entry
  ended : lineage.blockedAt? = none →
    ancestor registry.parent? lineage.entries.length name = none
  blocked : ∀ above, lineage.blockedAt? = some above →
    ancestor registry.parent? lineage.entries.length name = some above ∧
      (registry.get? above = none ∨ above ∈ visited ∨
        ∃ steps < lineage.entries.length, ancestor registry.parent? steps name = some above)

theorem find?_without (classes : List (String × ClassEntry)) (name other : String) :
    (without classes name).find? (·.1 = other) =
      if other = name then none else classes.find? (·.1 = other) := by
  rw [without, List.find?_filter]
  split
  · next h =>
    subst h
    simp
  · next h =>
    congr 1
    funext entry
    by_cases hentry : entry.1 = other <;> simp [hentry, h]

/-- A class that is still unvisited is found with what the registry knows of it. -/
theorem get?_of_find?_eq_some {registry : Registry} {unvisited : List (String × ClassEntry)}
    {visited : List String} {name found : String} {entry : ClassEntry}
    (hunvisited : ∀ other, unvisited.find? (·.1 = other) =
      if other ∈ visited then none else registry.entries.find? (·.1 = other))
    (hfound : unvisited.find? (·.1 = name) = some (found, entry)) :
    registry.get? name = some entry := by
  rw [hunvisited] at hfound
  split at hfound
  · cases hfound
  · rw [Table.get?, hfound, Option.map_some]

/-- By induction on what is unvisited: each step up moves one class to the visited ones. -/
theorem follows_climb (registry : Registry) (unvisited : List (String × ClassEntry))
    (name : String) (visited : List String)
    (hunvisited : ∀ other, unvisited.find? (·.1 = other) =
      if other ∈ visited then none else registry.entries.find? (·.1 = other)) :
    registry.Follows visited name (climb unvisited name) := by
  fun_induction climb unvisited name generalizing visited with
  | case1 unvisited name hnone =>
    refine ⟨by simp, by simp, ?_⟩
    rintro above ⟨⟩
    refine ⟨rfl, ?_⟩
    rw [hunvisited] at hnone
    split at hnone
    · next hvisited => exact .inr (.inl hvisited)
    · exact .inl (by rw [Table.get?, hnone, Option.map_none])
  | case2 unvisited name found entry hfound hparent =>
    have hget : registry.get? name = some entry := get?_of_find?_eq_some hunvisited hfound
    refine ⟨fun steps other hother ↦ ?_, fun _ ↦ ?_, by simp⟩
    · obtain ⟨rfl, rfl⟩ : steps = 0 ∧ entry = other := by
        cases steps <;> simp_all
      exact ⟨name, rfl, hget⟩
    · show (registry.parent? name).bind _ = none
      rw [parent?, hget, Option.bind_some, hparent, Option.bind_none]
  | case3 unvisited name found entry hfound parent hparent hlt above ih =>
    have hget : registry.get? name = some entry := get?_of_find?_eq_some hunvisited hfound
    have hstep : registry.parent? name = some parent := by
      rw [parent?, hget, Option.bind_some, hparent]
    have hfollows : registry.Follows (name :: visited) parent above := by
      apply ih (name :: visited)
      intro other
      rw [find?_without, hunvisited]
      by_cases h : other = name <;> simp [h]
    refine ⟨fun steps other hother ↦ ?_, fun hended ↦ ?_, fun blocked hblocked ↦ ?_⟩
    · cases steps with
      | zero => exact ⟨name, rfl, by rw [hget]; exact hother⟩
      | succ steps =>
        rw [ancestor_succ_of_parent hstep]
        exact hfollows.passed steps other hother
    · rw [List.length_cons, ancestor_succ_of_parent hstep]
      exact hfollows.ended hended
    · obtain ⟨hnext, hwhy⟩ := hfollows.blocked blocked hblocked
      rw [List.length_cons, ancestor_succ_of_parent hstep]
      refine ⟨hnext, ?_⟩
      rcases hwhy with hunknown | hvisited | ⟨steps, hsteps, hpassed⟩
      · exact .inl hunknown
      · rcases List.mem_cons.mp hvisited with rfl | hvisited
        · exact .inr (.inr ⟨0, Nat.succ_pos _, rfl⟩)
        · exact .inr (.inl hvisited)
      · refine .inr (.inr ⟨steps + 1, Nat.succ_lt_succ hsteps, ?_⟩)
        rw [ancestor_succ_of_parent hstep, hpassed]

theorem follows_lineage (registry : Registry) (name : String) :
    registry.Follows [] name (registry.lineage name) :=
  follows_climb registry registry.entries name [] fun other ↦ by simp

/-- Where the way is blocked in front of a class that is known, the chain has come back to a class
that it has been through. -/
theorem exists_ancestor_eq_of_blocked {registry : Registry} {name above : String}
    (hblocked : (registry.lineage name).blockedAt? = some above)
    (hknown : registry.contains above) :
    ∃ steps < (registry.lineage name).entries.length,
      ancestor registry.parent? (registry.lineage name).entries.length name =
        ancestor registry.parent? steps name := by
  obtain ⟨hnext, hwhy⟩ := (follows_lineage registry name).blocked above hblocked
  rcases hwhy with hunknown | hvisited | ⟨steps, hsteps, hpassed⟩
  · rw [Table.contains, hunknown] at hknown
    cases hknown
  · cases hvisited
  · exact ⟨steps, hsteps, hnext.trans hpassed.symm⟩

/-- The ancestors that a lineage has passed are known. -/
theorem exists_ancestor_eq_some_of_lt {registry : Registry} {name : String} {steps : Nat}
    (h : steps < (registry.lineage name).entries.length) :
    ∃ above, ancestor registry.parent? steps name = some above ∧
      registry.get? above = some (registry.lineage name).entries[steps] :=
  (follows_lineage registry name).passed steps _ (List.getElem?_eq_getElem h)

/-- Above an unknown class there is nothing. -/
theorem ancestor_succ_eq_none {registry : Registry} {name above : String} {steps : Nat}
    (hancestor : ancestor registry.parent? steps name = some above)
    (hunknown : registry.get? above = none) :
    ancestor registry.parent? (steps + 1) name = none := by
  rw [ancestor_add, hancestor, Option.bind_some, ancestor, parent?, hunknown]
  rfl

/-- The way up from a class leads in a circle exactly if it has no end. -/
theorem isCircular_iff (registry : Registry) (name : String) :
    registry.isCircular name ↔ ∀ steps, ancestor registry.parent? steps name ≠ none := by
  have hfollows := follows_lineage registry name
  rw [isCircular, Option.any_eq_true]
  constructor
  · rintro ⟨above, hblocked, hknown⟩ steps hnone
    obtain ⟨low, hlow, hback⟩ := exists_ancestor_eq_of_blocked hblocked hknown
    obtain ⟨passed, hpassed, heq⟩ := exists_lt_ancestor_eq hlow hback steps
    obtain ⟨other, hother, -⟩ := exists_ancestor_eq_some_of_lt hpassed
    rw [heq, hother] at hnone
    cases hnone
  · intro hendless
    cases hblocked : (registry.lineage name).blockedAt? with
    | none => exact absurd (hfollows.ended hblocked) (hendless _)
    | some above =>
      refine ⟨above, rfl, Decidable.byContradiction fun hunknown ↦ ?_⟩
      rw [Table.contains, Bool.not_eq_true, Option.isSome_eq_false_iff, Option.isNone_iff_eq_none]
        at hunknown
      exact hendless _ (ancestor_succ_eq_none (hfollows.blocked above hblocked).1 hunknown)

/-- A lineage passes every ancestor that is known. That it passes no class twice hides none. -/
theorem exists_lt_of_ancestor_known {registry : Registry} {name above : String} {steps : Nat}
    {entry : ClassEntry} (hancestor : ancestor registry.parent? steps name = some above)
    (hknown : registry.get? above = some entry) :
    ∃ passed < (registry.lineage name).entries.length,
      ancestor registry.parent? passed name = some above := by
  have hfollows := follows_lineage registry name
  rcases Nat.lt_or_ge steps (registry.lineage name).entries.length with hlt | hge
  · exact ⟨steps, hlt, hancestor⟩
  cases hblocked : (registry.lineage name).blockedAt? with
  | none =>
    rw [ancestor_eq_none_of_le hge (hfollows.ended hblocked)] at hancestor
    cases hancestor
  | some blocked =>
    obtain ⟨hnext, -⟩ := hfollows.blocked blocked hblocked
    cases hget : registry.get? blocked with
    | none =>
      rcases Nat.eq_or_lt_of_le hge with rfl | hlt
      · rw [hnext, Option.some.injEq] at hancestor
        rw [← hancestor, hget] at hknown
        cases hknown
      · rw [ancestor_eq_none_of_le hlt (ancestor_succ_eq_none hnext hget)] at hancestor
        cases hancestor
    | some other =>
      obtain ⟨low, hlow, hback⟩ := exists_ancestor_eq_of_blocked hblocked
        (by rw [Table.contains, hget, Option.isSome_some])
      obtain ⟨passed, hpassed, heq⟩ := exists_lt_ancestor_eq hlow hback steps
      exact ⟨passed, hpassed, heq.symm.trans hancestor⟩

/-- What is found under a selector is a method of a class that is known. -/
theorem exists_entry_of_lookupMethod {registry : Registry} {name selector : String} {arity : Nat}
    (h : registry.lookupMethod name selector = some arity) :
    ∃ above entry, registry.get? above = some entry ∧ entry.methods.get? selector = some arity := by
  obtain ⟨entry, hentry, hmethod⟩ := List.exists_of_findSome?_eq_some h
  obtain ⟨steps, hsteps⟩ := List.getElem?_of_mem hentry
  obtain ⟨above, -, hget⟩ := (follows_lineage registry name).passed steps entry hsteps
  exact ⟨above, entry, hget, hmethod⟩

/-- The class is known and has a method of its own under this selector. -/
def Defines (registry : Registry) (name selector : String) : Prop :=
  ∃ entry, registry.get? name = some entry ∧ (entry.methods.get? selector).isSome

/-- A method is found exactly if the class or one of its ancestors defines it. -/
theorem isSome_lookupMethod_iff (registry : Registry) (name selector : String) :
    (registry.lookupMethod name selector).isSome ↔
      ∃ steps above, ancestor registry.parent? steps name = some above ∧
        registry.Defines above selector := by
  rw [lookupMethod, List.findSome?_isSome_iff]
  constructor
  · rintro ⟨entry, hentry, hdefines⟩
    obtain ⟨steps, hsteps⟩ := List.getElem?_of_mem hentry
    obtain ⟨above, hancestor, hget⟩ := (follows_lineage registry name).passed steps entry hsteps
    exact ⟨steps, above, hancestor, entry, hget, hdefines⟩
  · rintro ⟨steps, above, hancestor, entry, hget, hdefines⟩
    obtain ⟨passed, hpassed, hpassedAncestor⟩ := exists_lt_of_ancestor_known hancestor hget
    obtain ⟨other, hother, hentry⟩ := exists_ancestor_eq_some_of_lt hpassed
    rw [hpassedAncestor, Option.some.injEq] at hother
    rw [← hother, hget, Option.some.injEq] at hentry
    exact ⟨entry, hentry ▸ List.getElem_mem hpassed, hdefines⟩

end Registry

end Sol25
