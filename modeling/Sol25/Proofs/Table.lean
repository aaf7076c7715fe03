import Sol25.Table

/-!
# What is found in a table

Looking up a name tells all there is to know of a table. The lemmas here say what is found after
names have been added one after the other: what was there before, and otherwise the first of the
values that were added under the name.
-/

set_option autoImplicit false
set_option relaxedAutoImplicit false

namespace Sol25.Table

variable {α : Type}

theorem contains_iff_mem_keys (table : Table α) (name : String) :
    table.contains name ↔ name ∈ table.entries.map Prod.fst := by
  rw [contains, get?, Option.isSome_map, List.find?_isSome, List.mem_map]
  simp only [decide_eq_true_eq]

theorem contains_insertNew (table : Table α) (name other : String) (value : α) :
    (table.insertNew name value).contains other ↔ table.contains other ∨ name = other := by
  rw [contains, contains, get?_insertNew, Option.isSome_or, Bool.or_eq_true]
  by_cases h : name = other <;> simp [h]

theorem get?_insertAll (table : Table α) (entries : List (String × α)) (name : String) :
    (table.insertAll entries).get? name =
      (table.get? name).or ((entries.find? (·.1 = name)).map (·.2)) := by
  induction entries generalizing table with
  | nil => simp [insertAll]
  | cons entry rest ih =>
    have hstep : table.insertAll (entry :: rest) =
        (table.insertNew entry.1 entry.2).insertAll rest := rfl
    rw [hstep, ih, get?_insertNew, List.find?_cons]
    by_cases h : entry.1 = name <;> simp [h]

theorem get?_ofList (entries : List (String × α)) (name : String) :
    (ofList entries).get? name = (entries.find? (·.1 = name)).map (·.2) := by
  rw [ofList, get?_insertAll, get?_empty, Option.none_or]

theorem mem_of_get?_ofList {entries : List (String × α)} {name : String} {value : α}
    (h : (ofList entries).get? name = some value) : (name, value) ∈ entries := by
  rw [get?_ofList] at h
  obtain ⟨entry, hfind, rfl⟩ := Option.map_eq_some_iff.mp h
  have hname : entry.1 = name := by simpa using List.find?_some hfind
  exact hname ▸ List.mem_of_find?_eq_some hfind

/-- A name is found in a table that is made of items exactly if it is the name of one of them, and
then with the value of the first. -/
theorem get?_ofList_map {β : Type} (key : β → String) (value : β → α) (items : List β)
    (name : String) :
    (ofList (items.map fun item ↦ (key item, value item))).get? name =
      (items.find? (key · = name)).map value := by
  rw [get?_ofList, List.find?_map, Option.map_map]
  rfl

theorem contains_modify (table : Table α) (name other : String) (change : α → α) :
    (table.modify name change).contains other = table.contains other := by
  rw [contains, contains, get?_modify]
  by_cases h : name = other <;> simp [h]

/-- If each item changes the value of its own name, and no two items have the same name, then every
value is changed at most once. -/
theorem get?_foldl_modify {β : Type} {key : β → String} {change : β → α → α}
    {step : Table α → β → Table α}
    (hstep : ∀ table item, step table item = table.modify (key item) (change item))
    {items : List β} (hdistinct : items.Pairwise fun item other ↦ key item ≠ key other)
    (table : Table α) (name : String) :
    (items.foldl step table).get? name =
      (items.find? (key · = name)).elim (table.get? name) fun item ↦
        (table.get? name).map (change item) := by
  induction items generalizing table with
  | nil => rfl
  | cons item rest ih =>
    obtain ⟨hitem, hrest⟩ := List.pairwise_cons.mp hdistinct
    rw [List.foldl_cons, ih hrest, hstep, get?_modify, List.find?_cons]
    by_cases h : key item = name
    · have hnone : rest.find? (key · = name) = none :=
        List.find?_eq_none.mpr fun other hother ↦ by
          simpa [← h] using (hitem other hother).symm
      simp [h, hnone]
    · simp [h]

end Sol25.Table
