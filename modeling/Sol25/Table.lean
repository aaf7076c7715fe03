/-!
Tables from names to values, in the order in which the names came in. A name that is there keeps its
place and, unless it is changed on purpose, its value.
-/

set_option autoImplicit false
set_option relaxedAutoImplicit false

namespace Sol25

structure Table (α : Type) where
  entries : List (String × α)

namespace Table

variable {α : Type}

def empty : Table α := ⟨[]⟩

def get? (table : Table α) (name : String) : Option α :=
  (table.entries.find? (·.1 = name)).map (·.2)

def contains (table : Table α) (name : String) : Bool := (table.get? name).isSome

/-- Adds a name, unless it is there already. -/
def insertNew (table : Table α) (name : String) (value : α) : Table α :=
  if table.contains name then table else ⟨table.entries ++ [(name, value)]⟩

/-- Changes the value of a name, if the name is there. -/
def modify (table : Table α) (name : String) (change : α → α) : Table α :=
  ⟨table.entries.map fun entry ↦ if entry.1 = name then (entry.1, change entry.2) else entry⟩

/-- Adds names one after the other. Of two equal names the first counts. -/
def insertAll (table : Table α) (entries : List (String × α)) : Table α :=
  entries.foldl (fun table entry ↦ table.insertNew entry.1 entry.2) table

def ofList (entries : List (String × α)) : Table α := empty.insertAll entries

@[simp] theorem get?_empty (name : String) : (empty : Table α).get? name = none := rfl

/-- A new name is found with its value; what was there before is found as before. -/
theorem get?_insertNew (table : Table α) (name other : String) (value : α) :
    (table.insertNew name value).get? other =
      (table.get? other).or (if name = other then some value else none) := by
  unfold insertNew
  split
  · next h =>
    by_cases heq : name = other
    · subst heq
      obtain ⟨found, hfound⟩ := Option.isSome_iff_exists.1 h
      simp [hfound]
    · simp [heq]
  · by_cases heq : name = other
    · subst heq
      cases hfound : table.entries.find? (·.1 = name) <;>
        simp [get?, List.find?_append, hfound]
    · simp [get?, List.find?_append, heq]

/-- A change reaches the name it is meant for and no other. -/
theorem get?_modify (table : Table α) (name other : String) (change : α → α) :
    (table.modify name change).get? other =
      if name = other then (table.get? other).map change else table.get? other := by
  obtain ⟨entries⟩ := table
  induction entries with
  | nil => simp [modify, get?]
  | cons entry rest ih =>
    simp only [modify, get?, List.map_cons, List.find?_cons] at ih ⊢
    by_cases hother : entry.1 = other
    · by_cases hname : entry.1 = name
      · have : name = other := hname ▸ hother
        simp [this, hother]
      · have : ¬ name = other := fun h ↦ hname (hother.trans h.symm)
        rw [if_neg hname, if_neg this]
        simp [hother]
    · by_cases hname : entry.1 = name
      · have : ¬ name = other := fun h ↦ hother (hname.trans h)
        simp only [hname, this, if_true, if_false, decide_false] at ih ⊢
        exact ih
      · simp only [hname, hother, if_false, decide_false] at ih ⊢
        exact ih

end Table

end Sol25
