import Sol25.Proofs.Analysis.Accepted
import Sol25.Proofs.Grammar.Arity
import Sol25.Proofs.Grammar.Producible
import Sol25.Proofs.Parts

/-!
# Messages have as many arguments as methods take

When an accepted program comes from a text, each message in it has the number of arguments that its
selector asks for, and a message to a class that is named finds a method that takes as many
(`aritiesAgree_of_accepted`). The analysis does not compare the two numbers anywhere. Both are the
number of colons in the selector: that of the message because an argument stands behind each part of
a selector (`IsSelector.eq_count`), and that of the method because this holds of every method there
is, built-in or declared (`Program.countsColons_registry`), from whichever class it is inherited.

What holds of the body of a method is carried to the expressions inside it step by step
(`Expr.PartOf`). Being well-formed goes from an expression to those directly inside it, and so does
being without a fault, although more names are visible further inside.
-/

set_option autoImplicit false
set_option relaxedAutoImplicit false

namespace Sol25

open Check (faultUnless_eq_nil_iff)

/-! ### Well-formed messages -/

theorem Expr.allWellFormed_iff {exprs : List Expr} :
    Expr.AllWellFormed exprs ↔ ∀ expr ∈ exprs, expr.WellFormed := by
  induction exprs with
  | nil => simp [Expr.AllWellFormed]
  | cons expr rest ih => rw [Expr.AllWellFormed, List.forall_mem_cons, ih]

theorem Assignment.allWellFormed_iff {body : List Assignment} :
    Assignment.AllWellFormed body ↔ ∀ assignment ∈ body, assignment.WellFormed := by
  induction body with
  | nil => simp [Assignment.AllWellFormed]
  | cons assignment rest ih => rw [Assignment.AllWellFormed, List.forall_mem_cons, ih]

theorem Expr.WellFormed.children {whole : Expr} (h : whole.WellFormed) :
    ∀ child ∈ whole.children, child.WellFormed := by
  cases whole with
  | literal _ _ _ | var _ _ => exact fun _ hchild ↦ absurd hchild List.not_mem_nil
  | send receiver selector args span =>
    rw [Expr.WellFormed] at h
    exact List.forall_mem_cons.mpr ⟨h.1, Expr.allWellFormed_iff.mp h.2.2⟩
  | block content =>
    obtain ⟨params, body, span⟩ := content
    rw [Expr.WellFormed, Block.WellFormed] at h
    refine List.forall_mem_map.mpr fun assignment hassignment ↦ ?_
    have hwell := Assignment.allWellFormed_iff.mp h.2 assignment hassignment
    obtain ⟨target, value⟩ := assignment
    rw [Assignment.WellFormed] at hwell
    exact hwell.2

theorem Program.WellFormed.of_hasPart {program : Program} {part : Expr} (h : program.WellFormed)
    (hpart : program.HasPart part) : part.WellFormed := by
  obtain ⟨declared, hdeclared, method, hmethod, hpart⟩ := hpart
  refine hpart.of_children (fun _ ↦ Expr.WellFormed.children) ?_
  exact ((h.classes declared hdeclared).methods method hmethod).body

theorem Lexis.SelectorPart.count_colon {part : String} (h : SelectorPart part) :
    part.toList.count ':' = 1 := by
  obtain ⟨word, hword, rfl⟩ := h
  rw [String.toList_append, List.count_append, hword.count_colon]
  rfl

/-- What goes with a selector are as many arguments as it has colons. -/
theorem IsSelector.eq_count {selector : String} {count : Nat} (h : IsSelector selector count) :
    count = selector.toList.count ':' := by
  rcases h with ⟨rfl, hname⟩ | ⟨first, others, rfl, rfl, hparts⟩
  · exact hname.1.count_colon.symm
  · rw [count_colon_join fun part hpart ↦ (hparts part hpart).count_colon, List.length_cons]

/-! ### Messages that are understood -/

namespace Program

variable {program : Program} {visible params : List String}

/-- With some names visible there is no fault in the expression. -/
def Admits (program : Program) (expr : Expr) : Prop :=
  ∃ visible, program.exprFaults visible expr = []

theorem argsFaults_eq_flatMap (args : List Expr) :
    program.argsFaults visible args = args.flatMap (program.exprFaults visible) := by
  induction args with
  | nil => rw [argsFaults, List.flatMap_nil]
  | cons arg rest ih => rw [argsFaults, ih, List.flatMap_cons]

/-- What is visible grows from one assignment to the next, but something is visible to each. -/
theorem admits_of_bodyFaults_eq_nil {body : List Assignment}
    (h : program.bodyFaults params visible body = []) :
    ∀ assignment ∈ body, program.Admits assignment.value := by
  induction body generalizing visible with
  | nil => exact fun _ hassignment ↦ absurd hassignment List.not_mem_nil
  | cons assignment rest ih =>
    obtain ⟨target, value⟩ := assignment
    rw [bodyFaults, List.append_eq_nil_iff, List.append_eq_nil_iff] at h
    exact List.forall_mem_cons.mpr ⟨⟨_, h.2.1⟩, ih h.2.2⟩

theorem Admits.children {whole : Expr} (h : program.Admits whole) :
    ∀ child ∈ whole.children, program.Admits child := by
  obtain ⟨visible, h⟩ := h
  cases whole with
  | literal _ _ _ | var _ _ => exact fun _ hchild ↦ absurd hchild List.not_mem_nil
  | send receiver selector args span =>
    rw [exprFaults, List.append_eq_nil_iff, List.append_eq_nil_iff, argsFaults_eq_flatMap,
      List.flatMap_eq_nil_iff] at h
    exact List.forall_mem_cons.mpr ⟨⟨visible, h.1⟩, fun arg harg ↦ ⟨visible, h.2.1 arg harg⟩⟩
  | block content =>
    obtain ⟨blockParams, body, span⟩ := content
    rw [exprFaults, blockFaults, List.append_eq_nil_iff] at h
    exact List.forall_mem_map.mpr (admits_of_bodyFaults_eq_nil h.2)

theorem methodFaults_eq_nil_iff {method : Method} : program.methodFaults method = [] ↔
    method.arity = method.body.arity ∧
      program.blockFaults Scopes.pseudoNames method.body = [] := by
  rw [methodFaults, List.append_eq_nil_iff, faultUnless_eq_nil_iff]

theorem Faultless.admits_of_hasPart {part : Expr} (h : program.Faultless)
    (hpart : program.HasPart part) : program.Admits part := by
  obtain ⟨declared, hdeclared, method, hmethod, hpart⟩ := hpart
  refine hpart.of_children (fun _ ↦ Admits.children) ⟨Scopes.pseudoNames, ?_⟩
  rw [exprFaults]
  exact (methodFaults_eq_nil_iff.mp (h.methods declared hdeclared method hmethod)).2

theorem Admits.understands {name selector : String} {args : List Expr} {place span : Span}
    (h : program.Admits (.send (.literal .className name place) selector args span)) :
    program.Understands name selector := by
  obtain ⟨visible, h⟩ := h
  rw [exprFaults, List.append_eq_nil_iff, List.append_eq_nil_iff, messageFaults] at h
  exact faultUnless_eq_nil_iff.mp h.2.2

/-! ### Methods that are found -/

theorem count_colon_builtin (which : BuiltinClass) :
    ∀ method ∈ which.methods, method.2 = method.1.toList.count ':' := by
  cases which <;> decide

/-- Every method of every class takes as many arguments as its selector has colons, if this holds of
those that the program declares. -/
theorem countsColons_registry
    (h : ∀ declared ∈ program.classes, ∀ method ∈ declared.methods, method.CountsColons)
    {name selector : String} {arity : Nat} {entry : ClassEntry}
    (hentry : program.registry.get? name = some entry)
    (hmethod : entry.methods.get? selector = some arity) : arity = selector.toList.count ':' := by
  rw [get?_registry, Option.or_eq_some_iff] at hentry
  rcases hentry with hbuiltin | ⟨-, hown⟩
  · obtain ⟨which, -, rfl⟩ := Option.map_eq_some_iff.mp hbuiltin
    exact count_colon_builtin which _ (Table.mem_of_get?_ofList hmethod)
  · obtain ⟨declared, hdeclared, rfl⟩ := Option.map_eq_some_iff.mp hown
    obtain ⟨method, hmem, hpair⟩ := List.mem_map.mp (Table.mem_of_get?_ofList hmethod)
    obtain ⟨rfl, rfl⟩ := Prod.mk.inj hpair
    exact h declared (List.mem_of_find?_eq_some hdeclared) method hmem

/-- The numbers of arguments of messages, selectors and methods go together. -/
structure AritiesAgree (program : Program) (registry : Registry) : Prop where
  messages : ∀ receiver selector args span,
    program.HasPart (.send receiver selector args span) →
      args.length = selector.toList.count ':'
  methods : ∀ declared ∈ program.classes, ∀ method ∈ declared.methods,
    method.arity = method.selector.toList.count ':' ∧ method.arity = method.body.params.length
  classMessages : ∀ name place selector args span,
    program.HasPart (.send (.literal .className name place) selector args span) →
      registry.lookupMethod name selector = some args.length

/-- In a program that comes from a text and is accepted, every message has as many arguments as its
selector has colons, every method takes as many, and a message to a class that is named finds such a
method. -/
theorem aritiesAgree_of_accepted {text : List Char} {program : Program}
    (htext : ofText text = .ok program)
    (haccepted : (Analyzer.fresh.analyze program).1 = none) :
    program.AritiesAgree (Analyzer.fresh.analyze program).2.registry := by
  have hwell := wellFormed_of_ofText_eq_ok htext
  have hcolons := countsColons_of_ofText_eq_ok htext
  have hfaultless := (analyze_fresh_eq_none_iff program).mp haccepted
  have hentered := hfaultless.enteredIn
  have hmessages : ∀ receiver selector args span,
      program.HasPart (.send receiver selector args span) →
        args.length = selector.toList.count ':' := by
    intro receiver selector args span hpart
    have hsend := hwell.of_hasPart hpart
    rw [Expr.WellFormed] at hsend
    exact hsend.2.1.eq_count
  refine ⟨hmessages, fun declared hdeclared method hmethod ↦ ⟨hcolons _ hdeclared _ hmethod, ?_⟩,
    fun name place selector args span hpart ↦ ?_⟩
  · exact (methodFaults_eq_nil_iff.mp (hfaultless.methods declared hdeclared method hmethod)).1
  · -- That there is a method has been checked, and how many arguments it takes its colons tell.
    have hunderstands := (hfaultless.admits_of_hasPart hpart).understands
    obtain ⟨arity, hlookup⟩ := Option.isSome_iff_exists.mp
      ((hentered.isSome_lookupMethod_iff name selector).mpr hunderstands)
    obtain ⟨above, entry, hentry, hmethod⟩ := Registry.exists_entry_of_lookupMethod hlookup
    have harity := countsColons_registry hcolons ((hentered above).symm.trans hentry) hmethod
    rw [hlookup, harity, hmessages _ _ _ _ hpart]

/-- Messages to classes whose methods are inherited, from a class that is declared below and from
one that is built in, one of them in a block that is an argument of the other. -/
def inheritedMessages : List Char :=
  ("class Main:Shape\x7brun[|x:=Main at:[|y:=Integer new.].]\x7d" ++
    "class Shape:Object\x7bat:[:x|]\x7d").toList

theorem aritiesAgree_of_inheritedMessages :
    ∃ program, ofText inheritedMessages = .ok program ∧
      (Analyzer.fresh.analyze program).1 = none ∧
        program.AritiesAgree (Analyzer.fresh.analyze program).2.registry := by
  obtain ⟨document, hdocument⟩ : ∃ document, documentOf inheritedMessages = .ok document :=
    exists_eq_ok_of_isOk (by decide +kernel)
  obtain ⟨program, htext, haccepted, -⟩ := exists_accepted_of_documentOf_eq_ok hdocument
  exact ⟨program, htext, haccepted, aritiesAgree_of_accepted htext haccepted⟩

end Program

end Sol25
