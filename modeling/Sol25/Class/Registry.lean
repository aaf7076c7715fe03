import Sol25.Class.Builtin
import Sol25.Table

/-!
The classes that are known by name, each with its parent and the methods it defines itself, and the
way up from a class through its parents. Nothing keeps the parents from leading in a circle, so the
way up ends in front of a class that has been passed already.
-/

set_option autoImplicit false
set_option relaxedAutoImplicit false

namespace Sol25

/-- What is known of one class. -/
structure ClassEntry where
  /-- The parent, as soon as it is settled. `Object` never has one. -/
  parent? : Option String
  /-- The number of arguments by selector. -/
  methods : Table Nat

/-- The way up from a class. -/
structure Lineage where
  /-- The classes that were passed, the nearest first. -/
  entries : List ClassEntry
  /-- The name in front of which the way ended, unless it ended at a class without a parent. -/
  blockedAt? : Option String

abbrev Registry := Table ClassEntry

/-- The entry of a built-in class. -/
def BuiltinClass.entry (which : BuiltinClass) : ClassEntry :=
  ⟨which.parent?.map BuiltinClass.name, Table.ofList which.methods⟩

namespace Registry

/-- The registry that holds the built-in classes alone. -/
def builtin : Registry := Table.ofList (BuiltinClass.all.map fun which ↦ (which.name, which.entry))

/-- Adds a class of which nothing but its name is known. -/
def declare (registry : Registry) (name : String) : Registry :=
  registry.insertNew name ⟨none, Table.empty⟩

def setParent (registry : Registry) (name parent : String) : Registry :=
  registry.modify name fun entry ↦ { entry with parent? := some parent }

/-- Adds methods to a class. Of two equal selectors the first counts. -/
def addMethods (registry : Registry) (name : String) (methods : List (String × Nat)) : Registry :=
  registry.modify name fun entry ↦ { entry with methods := entry.methods.insertAll methods }

/-- The classes of other names. -/
def without (classes : List (String × ClassEntry)) (name : String) : List (String × ClassEntry) :=
  classes.filter (·.1 ≠ name)

theorem length_without_lt {classes : List (String × ClassEntry)} {name : String}
    {found : String × ClassEntry} (h : classes.find? (·.1 = name) = some found) :
    (without classes name).length < classes.length :=
  List.length_filter_lt_length_iff_exists.2
    ⟨found, List.mem_of_find?_eq_some h, by simpa using List.find?_some h⟩

/-- The way up from `name` through the classes in `unvisited`, each of which is passed at most
once. -/
def climb (unvisited : List (String × ClassEntry)) (name : String) : Lineage :=
  match h : unvisited.find? (·.1 = name) with
  | none => ⟨[], some name⟩
  | some (_, entry) =>
    match entry.parent? with
    | none => ⟨[entry], none⟩
    | some parent =>
      have := length_without_lt h
      let above := climb (without unvisited name) parent
      ⟨entry :: above.entries, above.blockedAt?⟩
termination_by unvisited.length

/-- The way up from `name` through all classes of the registry. -/
def lineage (registry : Registry) (name : String) : Lineage := climb registry.entries name

/-- Whether the way up from `name` leads back to a class on it. Then it ends in front of a class
that is known, and not because there is none. -/
def isCircular (registry : Registry) (name : String) : Bool :=
  (registry.lineage name).blockedAt?.any registry.contains

/-- The number of arguments of the method that a class has under this selector: its own, or that of
its nearest ancestor to define one. -/
def lookupMethod (registry : Registry) (name selector : String) : Option Nat :=
  (registry.lineage name).entries.findSome? (·.methods.get? selector)

end Registry

end Sol25
