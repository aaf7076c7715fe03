import Sol25.Program.Basic
import Sol25.Proofs.Registry.Ancestry
import Sol25.Proofs.Table

/-!
# The classes of a program

What classes there are in a program, which class is the parent of which, and which methods a class
understands can be told from the program itself, without entering anything anywhere. A name stands
for a built-in class or else for the first class that the program declares under it. The parent of
a class may be declared above or below it, and nothing keeps the parents from making a circle:
`Rooted` says that the chain of parents comes to an end, and `Understands` that some class on the
chain defines a method.

Whether they hold can be computed: `Program.registry` lists the classes, and the way up in a
registry decides both (`isCircular_iff`, `isSome_lookupMethod_iff`).
-/

set_option autoImplicit false
set_option relaxedAutoImplicit false

namespace Sol25

namespace BuiltinClass

theorem ofName?_name (which : BuiltinClass) : ofName? which.name = some which := by
  cases which <;> rfl

theorem name_of_ofName?_eq_some {word : String} {which : BuiltinClass}
    (h : ofName? word = some which) : which.name = word := by
  simpa using List.find?_some h

theorem isSome_ofName?_iff (word : String) : (ofName? word).isSome ↔ word ∈ all.map name := by
  rw [ofName?, List.find?_isSome, List.mem_map]
  simp

end BuiltinClass

namespace Program

/-- The class that the program declares under a name, the first if there are several. -/
def declaration? (program : Program) (name : String) : Option ClassDef :=
  program.classes.find? (·.name.name = name)

/-- The name is that of a built-in class or of a class that the program declares anywhere. -/
def Knows (program : Program) (name : String) : Prop :=
  (BuiltinClass.ofName? name).isSome ∨ (program.declaration? name).isSome

instance (program : Program) (name : String) : Decidable (program.Knows name) :=
  inferInstanceAs (Decidable (_ ∨ _))

/-- The name of the parent of a class. -/
def parentOf? (program : Program) (name : String) : Option String :=
  match BuiltinClass.ofName? name with
  | some which => which.parent?.map BuiltinClass.name
  | none => (program.declaration? name).map (·.parent.name)

/-- The class itself, and not only a class above it, has a method under the selector. -/
def Defines (program : Program) (name selector : String) : Prop :=
  match BuiltinClass.ofName? name with
  | some which => ∃ method ∈ which.methods, method.1 = selector
  | none => ∃ declared, program.declaration? name = some declared ∧
      ∃ method ∈ declared.methods, method.selector = selector

/-- The chain of parents above the class comes to an end. -/
def Rooted (program : Program) (name : String) : Prop :=
  ∃ steps, ancestor program.parentOf? steps name = none

/-- The class or one of its ancestors defines a method under the selector. -/
def Understands (program : Program) (name selector : String) : Prop :=
  ∃ steps above, ancestor program.parentOf? steps name = some above ∧
    program.Defines above selector

end Program

/-- The entry of a class whose declaration has been taken in as a whole. -/
def ClassDef.entry (declared : ClassDef) : ClassEntry :=
  ⟨some declared.parent.name,
    Table.ofList (declared.methods.map fun method ↦ (method.selector, method.arity))⟩

/-- The built-in classes and, behind them, those that the program declares. -/
def Program.registry (program : Program) : Registry :=
  ⟨Registry.builtin.entries ++
    program.classes.map fun declared ↦ (declared.name.name, declared.entry)⟩

namespace Registry

theorem get?_builtin (name : String) :
    builtin.get? name = (BuiltinClass.ofName? name).map BuiltinClass.entry := by
  rw [builtin, Table.get?_ofList_map, BuiltinClass.ofName?]

/-- Two registries in which the same is found have the same chains and definitions. -/
theorem parent?_congr {first second : Registry} (h : ∀ name, first.get? name = second.get? name) :
    first.parent? = second.parent? :=
  funext fun name ↦ by rw [parent?, parent?, h]

theorem isCircular_congr {first second : Registry}
    (h : ∀ name, first.get? name = second.get? name) (name : String) :
    first.isCircular name = second.isCircular name := by
  rw [Bool.eq_iff_iff, isCircular_iff, isCircular_iff, parent?_congr h]

theorem isSome_lookupMethod_congr {first second : Registry}
    (h : ∀ name, first.get? name = second.get? name) (name selector : String) :
    (first.lookupMethod name selector).isSome = (second.lookupMethod name selector).isSome := by
  rw [Bool.eq_iff_iff, isSome_lookupMethod_iff, isSome_lookupMethod_iff, parent?_congr h]
  simp only [Defines, h]

end Registry

namespace Program

theorem get?_registry (program : Program) (name : String) :
    program.registry.get? name =
      ((BuiltinClass.ofName? name).map BuiltinClass.entry).or
        ((program.declaration? name).map ClassDef.entry) := by
  rw [← Registry.get?_builtin, registry, Table.get?, Table.get?, List.find?_append, Option.map_or,
    List.find?_map, Option.map_map]
  rfl

theorem contains_registry_iff (program : Program) (name : String) :
    program.registry.contains name ↔ program.Knows name := by
  rw [Table.contains, get?_registry, Option.isSome_or, Bool.or_eq_true, Option.isSome_map,
    Option.isSome_map, Knows]

theorem parent?_registry (program : Program) : program.registry.parent? = program.parentOf? := by
  funext name
  rw [Registry.parent?, get?_registry, parentOf?]
  cases BuiltinClass.ofName? name with
  | some which => rfl
  | none => cases program.declaration? name <;> rfl

theorem defines_registry_iff (program : Program) (name selector : String) :
    program.registry.Defines name selector ↔ program.Defines name selector := by
  rw [Registry.Defines, Defines, get?_registry]
  cases BuiltinClass.ofName? name with
  | some which => simp [BuiltinClass.entry, Table.get?_ofList]
  | none =>
    cases program.declaration? name with
    | none => simp
    | some declared => simp [ClassDef.entry, Table.get?_ofList_map]

theorem isCircular_registry_iff (program : Program) (name : String) :
    program.registry.isCircular name ↔ ¬ program.Rooted name := by
  rw [Registry.isCircular_iff, parent?_registry, Rooted, not_exists]

theorem isSome_lookupMethod_registry_iff (program : Program) (name selector : String) :
    (program.registry.lookupMethod name selector).isSome ↔ program.Understands name selector := by
  rw [Registry.isSome_lookupMethod_iff, parent?_registry, Understands]
  simp only [defines_registry_iff]

instance (program : Program) (name : String) : Decidable (program.Rooted name) :=
  decidable_of_iff (¬ program.registry.isCircular name) (by simp [isCircular_registry_iff])

instance (program : Program) (name selector : String) :
    Decidable (program.Understands name selector) :=
  decidable_of_iff _ (isSome_lookupMethod_registry_iff program name selector)

/-- In the registry the same is found as in that of the program. -/
def EnteredIn (program : Program) (registry : Registry) : Prop :=
  ∀ name, registry.get? name = program.registry.get? name

variable {program : Program} {registry : Registry}

theorem EnteredIn.contains_iff (h : program.EnteredIn registry) (name : String) :
    registry.contains name ↔ program.Knows name := by
  rw [← contains_registry_iff, Table.contains, Table.contains, h]

theorem EnteredIn.isCircular_iff (h : program.EnteredIn registry) (name : String) :
    registry.isCircular name ↔ ¬ program.Rooted name := by
  rw [Registry.isCircular_congr h, isCircular_registry_iff]

theorem EnteredIn.isSome_lookupMethod_iff (h : program.EnteredIn registry)
    (name selector : String) :
    (registry.lookupMethod name selector).isSome ↔ program.Understands name selector := by
  rw [Registry.isSome_lookupMethod_congr h, isSome_lookupMethod_registry_iff]

end Program

end Sol25
