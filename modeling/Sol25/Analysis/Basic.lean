import Sol25.Analysis.Body

/-!
The analysis of a program. Its classes are entered in the registry before anything else, so a class
may be used above the place where it is declared. What has been entered stays in the registry even
when a fault is found later.
-/

set_option autoImplicit false
set_option relaxedAutoImplicit false

namespace Sol25

/-- What programs are checked against, and what they add to it. -/
structure Analyzer (σ : Type := Scopes) where
  registry : Registry
  scopes : σ

/-- An analyzer that has seen no program. -/
def Analyzer.fresh : Analyzer := ⟨Registry.builtin, Scopes.outermost⟩

namespace Analysis

variable {σ : Type}

/-- Enters a class under its name, which must be new. -/
def declareClass (declared : ClassDef) : Check Registry := fun registry ↦
  if registry.contains declared.name.name then
    Check.fail (.located (.duplicateClass declared.name.name) declared.name.span) registry
  else Check.pass (registry.declare declared.name.name)

/-- Settles the parent of a class, which must be known. -/
def linkClass (declared : ClassDef) : Check Registry := fun registry ↦
  if registry.contains declared.parent.name then
    Check.pass (registry.setParent declared.name.name declared.parent.name)
  else Check.fail (.located (.undefinedClass declared.parent.name) declared.parent.span) registry

/-- Enters the methods of a class. -/
def addMethods (declared : ClassDef) : Check Registry := fun registry ↦
  if registry.contains declared.name.name then
    Check.pass (registry.addMethods declared.name.name
      (declared.methods.map fun method ↦ (method.selector, method.arity)))
  else
    Check.fail (.unlocated (.internal
      ("class " ++ declared.name.name ++ " vanished from registry"))) registry

/-- Enters the classes of a program in the registry. -/
def enterClasses (classes : List ClassDef) : Check Registry :=
  (Check.forEach classes declareClass).andThen
    ((Check.forEach classes linkClass).andThen (Check.forEach classes addMethods))

/-- The first method whose selector is in `seen` or is that of a method in front of it. -/
def repeatedMethod? (seen : List String) : List Method → Option Method
  | [] => none
  | method :: rest =>
    if method.selector ∈ seen then some method
    else repeatedMethod? (method.selector :: seen) rest

/-- The way up from a class must not lead back. -/
def checkLineage (registry : Registry) (declared : ClassDef) : Check σ :=
  Check.demand (!registry.isCircular declared.name.name)
    (.located (.circularInheritance declared.name.name) declared.name.span)

/-- No selector may have two methods in one class. -/
def checkSelectors (declared : ClassDef) : Check σ :=
  match repeatedMethod? [] declared.methods with
  | none => Check.pass
  | some method =>
    Check.fail (.located (.duplicateMethod declared.name.name method.selector) method.span)

/-- The body takes as many arguments as the selector. -/
def checkMethod [Scoping σ] (registry : Registry) (method : Method) : Check σ :=
  (Check.demand (method.arity = method.body.arity)
    (.located (.arityMismatch method.selector method.arity method.body.arity) method.span)).andThen
    (checkBlock registry method.body)

def checkClass [Scoping σ] (registry : Registry) (declared : ClassDef) : Check σ :=
  (checkLineage registry declared).andThen
    ((checkSelectors declared).andThen (Check.forEach declared.methods (checkMethod registry)))

/-- The name of the class with which a program starts. -/
def mainClass : String := "Main"

/-- The selector of the message with which a program starts. -/
def mainSelector : String := "run"

/-- The program declares the class it starts with, and that class defines the method itself. -/
def checkMain (registry : Registry) (classes : List ClassDef) : Check σ :=
  match classes.find? (·.name.name = mainClass) with
  | none => Check.fail (.unlocated .missingMain)
  | some declared =>
    Check.demand
      ((registry.get? mainClass).bind (·.methods.get? mainSelector) = some 0)
      (.located .missingRun declared.name.span)

/-- The checks that need all classes to be known. -/
def checkClasses [Scoping σ] (registry : Registry) (classes : List ClassDef) : Check σ :=
  (Check.forEach classes (checkClass registry)).andThen (checkMain registry classes)

end Analysis

/-- Checks a program, and finds the first fault in it. -/
def Analyzer.analyze {σ : Type} [Scoping σ] (program : Program) : Check (Analyzer σ) :=
  fun analyzer ↦
  match Analysis.enterClasses program.classes analyzer.registry with
  | (some fault, registry) => (some fault, { analyzer with registry := registry })
  | (none, registry) =>
    let (fault?, scopes) := Analysis.checkClasses registry program.classes analyzer.scopes
    (fault?, ⟨registry, scopes⟩)

end Sol25
