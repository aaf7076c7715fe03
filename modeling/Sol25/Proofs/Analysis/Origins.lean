import Sol25.Proofs.Analysis.Faults
import Sol25.Proofs.Parts

/-!
# Where the faults of a program come from

Here is said once what a fault of a program can be. It is found right at an expression that stands
anywhere in the body of a method (`Expr.Blamed`), or it is about a class, a method or the way in
which the program starts (`Program.Blamed`). Which names are visible and which classes are known
decides whether there is a fault, but not what it looks like, so whatever holds of the names in a
program goes over to its faults by `Program.blamed_of_mem_faults`.
-/

set_option autoImplicit false
set_option relaxedAutoImplicit false

namespace Sol25

open Check (faultUnless)

/-- What can be wrong right at an expression, apart from what is wrong further inside. -/
inductive Expr.Blamed : Expr → Fault → Prop where
  | className (value : String) (span : Span) :
    Blamed (.literal .className value span) (.located (.undefinedClass value) span)
  | name (name : String) (span : Span) :
    Blamed (.var name span) (.located (.undefinedVariable name) span)
  | message {receiver : Expr} {name : String} (hname : receiver.className? = some name)
    (selector : String) (args : List Expr) (span : Span) :
    Blamed (.send receiver selector args span) (.located (.undefinedMethod name selector) span)
  | param {params : List Ident} {param : Ident} (hparam : param ∈ params) (body : List Assignment)
    (span : Span) :
    Blamed (.block ⟨params, body, span⟩) (.located (.duplicateParameter param.name) param.span)
  | target {body : List Assignment} {assignment : Assignment} (hassignment : assignment ∈ body)
    (params : List Ident) (span : Span) :
    Blamed (.block ⟨params, body, span⟩)
      (.located (.variableCollision assignment.target.name) assignment.target.span)

/-- The fault is found right at an expression that is this one or stands anywhere inside it. -/
def Expr.Traces (whole : Expr) (fault : Fault) : Prop :=
  ∃ part : Expr, part.PartOf whole ∧ part.Blamed fault

variable {program : Program} {fault : Fault}

theorem Expr.Blamed.traces {expr : Expr} (h : expr.Blamed fault) : expr.Traces fault :=
  ⟨expr, .whole, h⟩

theorem Expr.Traces.of_child {child whole : Expr} (h : child.Traces fault)
    (hchild : child ∈ whole.children) : whole.Traces fault := by
  obtain ⟨part, hpart, hblamed⟩ := h
  exact ⟨part, .inside hchild hpart, hblamed⟩

namespace Program

theorem blamed_of_mem_messageFaults {receiver : Expr} {selector : String} {span : Span}
    (args : List Expr) : ∀ fault ∈ program.messageFaults receiver selector span,
      (Expr.send receiver selector args span).Blamed fault := by
  unfold messageFaults
  split
  · exact List.forall_mem_nil _
  · next name hname => exact Check.forall_mem_faultUnless (.message hname selector args span)

mutual

theorem traces_of_mem_exprFaults : ∀ (expr : Expr) (visible : List String),
    ∀ fault ∈ program.exprFaults visible expr, expr.Traces fault
  | .literal .className value span, visible => by
    rw [exprFaults]
    exact Check.forall_mem_faultUnless (Expr.Blamed.className value span).traces
  | .literal .integer _ _, _ | .literal .string _ _, _ | .literal .nilValue _ _, _
  | .literal .trueValue _ _, _ | .literal .falseValue _ _, _ => List.forall_mem_nil _
  | .var name span, visible => by
    rw [exprFaults]
    exact Check.forall_mem_faultUnless (Expr.Blamed.name name span).traces
  | .send receiver selector args span, visible => by
    have hreceiver := traces_of_mem_exprFaults receiver visible
    have hargs := exists_traces_of_mem_argsFaults args visible
    rw [exprFaults, List.forall_mem_append, List.forall_mem_append]
    refine ⟨fun fault hfault ↦ ?_, fun fault hfault ↦ ?_, fun fault hfault ↦ ?_⟩
    · exact (hreceiver fault hfault).of_child List.mem_cons_self
    · obtain ⟨arg, harg, htraces⟩ := hargs fault hfault
      exact htraces.of_child (List.mem_cons_of_mem _ harg)
    · exact (blamed_of_mem_messageFaults args fault hfault).traces
  | .block content, visible => by
    rw [exprFaults]
    exact traces_of_mem_blockFaults content visible

theorem exists_traces_of_mem_argsFaults : ∀ (args : List Expr) (visible : List String),
    ∀ fault ∈ program.argsFaults visible args, ∃ arg ∈ args, arg.Traces fault
  | [], visible => by
    rw [argsFaults]
    exact List.forall_mem_nil _
  | arg :: rest, visible => by
    have harg := traces_of_mem_exprFaults arg visible
    have hrest := exists_traces_of_mem_argsFaults rest visible
    rw [argsFaults, List.forall_mem_append]
    refine ⟨fun fault hfault ↦ ⟨arg, List.mem_cons_self, harg fault hfault⟩,
      fun fault hfault ↦ ?_⟩
    obtain ⟨other, hother, htraces⟩ := hrest fault hfault
    exact ⟨other, List.mem_cons_of_mem _ hother, htraces⟩

theorem traces_of_mem_blockFaults : ∀ (block : Block) (visible : List String),
    ∀ fault ∈ program.blockFaults visible block, (Expr.block block).Traces fault
  | ⟨params, body, span⟩, visible => by
    have hbody := exists_traces_of_mem_bodyFaults body (params.map Ident.name)
      (params.map Ident.name ++ visible)
    rw [blockFaults, List.forall_mem_append, List.forall_mem_map]
    refine ⟨fun param hparam ↦ ?_, fun fault hfault ↦ ?_⟩
    · exact (Expr.Blamed.param (mem_of_mem_repeats hparam) body span).traces
    · obtain ⟨assignment, hassignment, rfl | htraces⟩ := hbody fault hfault
      · exact (Expr.Blamed.target hassignment params span).traces
      · exact htraces.of_child (List.mem_map_of_mem hassignment)

/-- What is wrong in the body of a block is wrong with a target or in a value. -/
theorem exists_traces_of_mem_bodyFaults : ∀ (body : List Assignment)
    (params visible : List String), ∀ fault ∈ program.bodyFaults params visible body,
      ∃ assignment ∈ body,
        fault = .located (.variableCollision assignment.target.name) assignment.target.span ∨
          assignment.value.Traces fault
  | [], params, visible => by
    rw [bodyFaults]
    exact List.forall_mem_nil _
  | ⟨target, value⟩ :: rest, params, visible => by
    have hvalue := traces_of_mem_exprFaults value (target.name :: visible)
    have hrest := exists_traces_of_mem_bodyFaults rest params (target.name :: visible)
    rw [bodyFaults, List.forall_mem_append, List.forall_mem_append]
    refine ⟨Check.forall_mem_faultUnless ⟨_, List.mem_cons_self, .inl rfl⟩,
      fun fault hfault ↦ ⟨_, List.mem_cons_self, .inr (hvalue fault hfault)⟩,
      fun fault hfault ↦ ?_⟩
    obtain ⟨assignment, hassignment, horigin⟩ := hrest fault hfault
    exact ⟨assignment, List.mem_cons_of_mem _ hassignment, horigin⟩

end

/-- All that can be wrong with a program. -/
inductive Blamed (program : Program) : Fault → Prop where
  | className {declared : ClassDef} (hdeclared : declared ∈ program.classes) :
    Blamed program (.located (.duplicateClass declared.name.name) declared.name.span)
  | parent {declared : ClassDef} (hdeclared : declared ∈ program.classes) :
    Blamed program (.located (.undefinedClass declared.parent.name) declared.parent.span)
  | lineage {declared : ClassDef} (hdeclared : declared ∈ program.classes) :
    Blamed program (.located (.circularInheritance declared.name.name) declared.name.span)
  | selector {declared : ClassDef} {method : Method} (hdeclared : declared ∈ program.classes)
    (hmethod : method ∈ declared.methods) :
    Blamed program (.located (.duplicateMethod declared.name.name method.selector) method.span)
  | arity {declared : ClassDef} {method : Method} (hdeclared : declared ∈ program.classes)
    (hmethod : method ∈ declared.methods) :
    Blamed program
      (.located (.arityMismatch method.selector method.arity method.body.arity) method.span)
  | part {part : Expr} {fault : Fault} (hpart : program.HasPart part)
    (hblamed : part.Blamed fault) : Blamed program fault
  | main : Blamed program (.unlocated .missingMain)
  | run {declared : ClassDef} (hdeclared : declared ∈ program.classes) :
    Blamed program (.located .missingRun declared.name.span)

theorem blamed_of_mem_methodFaults {declared : ClassDef} {method : Method}
    (hdeclared : declared ∈ program.classes) (hmethod : method ∈ declared.methods) :
    ∀ fault ∈ program.methodFaults method, program.Blamed fault := by
  rw [methodFaults, List.forall_mem_append]
  refine ⟨Check.forall_mem_faultUnless (.arity hdeclared hmethod), fun fault hfault ↦ ?_⟩
  obtain ⟨part, hpart, hblamed⟩ := traces_of_mem_blockFaults method.body _ fault hfault
  exact .part ⟨declared, hdeclared, method, hmethod, hpart⟩ hblamed

theorem blamed_of_mem_classFaults {declared : ClassDef} (hdeclared : declared ∈ program.classes) :
    ∀ fault ∈ program.classFaults declared, program.Blamed fault := by
  rw [classFaults, List.forall_mem_append, List.forall_mem_append, List.forall_mem_map,
    List.forall_mem_flatMap]
  exact ⟨Check.forall_mem_faultUnless (.lineage hdeclared),
    fun method hmethod ↦ .selector hdeclared (mem_of_mem_repeats hmethod),
    fun method hmethod ↦ blamed_of_mem_methodFaults hdeclared hmethod⟩

theorem blamed_of_mem_startFaults : ∀ fault ∈ program.startFaults, program.Blamed fault := by
  unfold startFaults
  split
  · exact List.forall_mem_singleton.mpr .main
  · next declared hmain =>
    exact Check.forall_mem_faultUnless (.run (List.mem_of_find?_eq_some hmain))

/-- Every fault of a program comes from somewhere in it. -/
theorem blamed_of_mem_faults : ∀ fault ∈ program.faults, program.Blamed fault := by
  rw [faults, nameFaults, List.forall_mem_append, List.forall_mem_append, List.forall_mem_append,
    List.forall_mem_map, List.forall_mem_flatMap, List.forall_mem_flatMap]
  exact ⟨fun declared hdeclared ↦ .className (mem_of_mem_repeats hdeclared),
    fun declared hdeclared ↦ Check.forall_mem_faultUnless (.parent hdeclared),
    fun declared hdeclared ↦ blamed_of_mem_classFaults hdeclared, blamed_of_mem_startFaults⟩

end Program

end Sol25
