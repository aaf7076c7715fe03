import Sol25.Proofs.Document.Tags
import Sol25.Proofs.Grammar.Arity

/-!
# A document loses nothing

Reading the document of a program gives the program back, without the places in which its parts were
written and without the number of arguments of its methods (`read_document`). Nothing is assumed of
the program: its names, selectors, literals and description may be any texts. So two programs with
the same document differ in nothing else. In a program that comes from a text the number of
arguments is the number of colons in a selector, which the document keeps, so then nothing but the
places is lost (`Program.document_loses_nothing`).
-/

set_option autoImplicit false
set_option relaxedAutoImplicit false

namespace Sol25.Document

/-! ### The names in the document of a program -/

theorem isName_of_all {name : String}
    (h : (!name.toList.isEmpty && name.toList.all Char.isAlpha) = true) : IsName name := by
  rw [Bool.and_eq_true, Bool.not_eq_true', List.isEmpty_eq_false_iff, List.all_eq_true] at h
  exact h

theorem allWellNamed_iff {children : List Element} :
    Element.AllWellNamed children ↔ ∀ child ∈ children, child.WellNamed := by
  induction children with
  | nil => exact ⟨fun _ ↦ List.forall_mem_nil _, fun _ ↦ trivial⟩
  | cons child children ih => rw [Element.AllWellNamed, ih, List.forall_mem_cons]

theorem wellNamed_mk {name : String} {attributes : List Attribute} {children : List Element}
    (hname : IsName name) (hattributes : ∀ self ∈ attributes, IsName self.name)
    (hchildren : Element.AllWellNamed children) :
    (Element.mk name attributes children).WellNamed := by
  rw [Element.WellNamed]
  exact ⟨hname, hattributes, hchildren⟩

theorem allWellNamed_singleton {child : Element} (h : child.WellNamed) :
    Element.AllWellNamed [child] :=
  allWellNamed_iff.mpr (List.forall_mem_singleton.mpr h)

theorem allNamed_cons {name value : String} {others : List Attribute} (hname : IsName name)
    (hothers : ∀ self ∈ others, IsName self.name) :
    ∀ self ∈ (⟨name, value⟩ : Attribute) :: others, IsName self.name :=
  List.forall_mem_cons.mpr ⟨hname, hothers⟩

theorem allNamed_singleton {name value : String} (hname : IsName name) :
    ∀ self ∈ [(⟨name, value⟩ : Attribute)], IsName self.name :=
  allNamed_cons hname (List.forall_mem_nil _)

theorem allNamed_orderAttribute (index : Nat) :
    ∀ self ∈ [orderAttribute index], IsName self.name :=
  allNamed_singleton (isName_of_all rfl)

theorem wellNamed_variableElement (name : String) : (variableElement name).WellNamed :=
  wellNamed_mk (isName_of_all rfl) (allNamed_singleton (isName_of_all rfl)) trivial

theorem wellNamed_paramElement (index : Nat) (param : Ident) :
    (paramElement index param).WellNamed :=
  wellNamed_mk (isName_of_all rfl)
    (allNamed_cons (isName_of_all rfl) (allNamed_orderAttribute index)) trivial

/-- Every expression is wrapped in an element of its own. -/
theorem wellNamed_wrapped {child : Element} (h : child.WellNamed) :
    (Element.mk "expr" [] [child]).WellNamed :=
  wellNamed_mk (isName_of_all rfl) (List.forall_mem_nil _) (allWellNamed_singleton h)

mutual

theorem wellNamed_exprElement : ∀ expr : Expr, (exprElement expr).WellNamed
  | .literal kind value span => by
    rw [exprElement]
    apply wellNamed_wrapped
    have hattributes : ∀ self ∈ [Attribute.mk "class" (literalClass kind), ⟨"value", value⟩],
        IsName self.name :=
      allNamed_cons (isName_of_all rfl) (allNamed_singleton (isName_of_all rfl))
    exact wellNamed_mk (isName_of_all rfl) hattributes trivial
  | .var name span => by
    rw [exprElement]
    exact wellNamed_wrapped (wellNamed_variableElement name)
  | .send receiver selector args span => by
    have hargs := wellNamed_argElements args 0
    rw [exprElement]
    apply wellNamed_wrapped
    apply wellNamed_mk (isName_of_all rfl) (allNamed_singleton (isName_of_all rfl))
    rw [Element.AllWellNamed]
    exact ⟨wellNamed_exprElement receiver, hargs⟩
  | .block content => by
    rw [exprElement]
    exact wellNamed_wrapped (wellNamed_blockElement content)

theorem wellNamed_argElements : ∀ (args : List Expr) (index : Nat),
    Element.AllWellNamed (argElements index args)
  | [], index => by
    rw [argElements]
    trivial
  | arg :: rest, index => by
    have hvalue := allWellNamed_singleton (wellNamed_exprElement arg)
    rw [argElements, Element.AllWellNamed]
    exact ⟨wellNamed_mk (isName_of_all rfl) (allNamed_orderAttribute index) hvalue,
      wellNamed_argElements rest (index + 1)⟩

theorem wellNamed_blockElement : ∀ block : Block, (blockElement block).WellNamed
  | ⟨params, body, span⟩ => by
    have hbody := allWellNamed_iff.mp (wellNamed_assignmentElements body 0)
    have hparams : ∀ child ∈ params.mapIdx paramElement, child.WellNamed := by
      intro child hchild
      obtain ⟨index, hindex, rfl⟩ := List.mem_mapIdx.mp hchild
      exact wellNamed_paramElement index _
    rw [blockElement]
    apply wellNamed_mk (isName_of_all rfl) (allNamed_singleton (isName_of_all rfl))
    exact allWellNamed_iff.mpr (List.forall_mem_append.mpr ⟨hparams, hbody⟩)

theorem wellNamed_assignmentElements : ∀ (body : List Assignment) (index : Nat),
    Element.AllWellNamed (assignmentElements index body)
  | [], index => by
    rw [assignmentElements]
    trivial
  | ⟨target, value⟩ :: rest, index => by
    have hvalue := allWellNamed_singleton (wellNamed_exprElement value)
    rw [assignmentElements, assignmentElement, Element.AllWellNamed]
    constructor
    · apply wellNamed_mk (isName_of_all rfl) (allNamed_orderAttribute index)
      rw [Element.AllWellNamed]
      exact ⟨wellNamed_variableElement target.name, hvalue⟩
    · exact wellNamed_assignmentElements rest (index + 1)

end

theorem wellNamed_methodElement (method : Method) : (methodElement method).WellNamed :=
  wellNamed_mk (isName_of_all rfl) (allNamed_singleton (isName_of_all rfl))
    (allWellNamed_singleton (wellNamed_blockElement method.body))

theorem wellNamed_classElement (declared : ClassDef) : (classElement declared).WellNamed := by
  have hmethods : ∀ child ∈ declared.methods.map methodElement, child.WellNamed := by
    intro child hchild
    obtain ⟨method, -, rfl⟩ := List.mem_map.mp hchild
    exact wellNamed_methodElement method
  exact wellNamed_mk (isName_of_all rfl)
    (allNamed_cons (isName_of_all rfl) (allNamed_singleton (isName_of_all rfl)))
    (allWellNamed_iff.mpr hmethods)

theorem wellNamed_programElement (program : Program) : (programElement program).WellNamed := by
  have hclasses : ∀ child ∈ program.classes.map classElement, child.WellNamed := by
    intro child hchild
    obtain ⟨declared, -, rfl⟩ := List.mem_map.mp hchild
    exact wellNamed_classElement declared
  have hdescription : ∀ self ∈ (program.description?.map (Attribute.mk "description")).toList,
      IsName self.name := by
    cases program.description? with
    | none => exact List.forall_mem_nil _
    | some description => exact allNamed_singleton (isName_of_all rfl)
  exact wellNamed_mk (isName_of_all rfl) (allNamed_cons (isName_of_all rfl) hdescription)
    (allWellNamed_iff.mpr hclasses)

/-! ### Taking the elements for a program -/

theorem literalKind?_literalClass (kind : LiteralKind) :
    literalKind? (literalClass kind) = some kind := by
  cases kind <;> rfl

theorem attribute?_cons_self {name value : String} {others : List Attribute} :
    attribute? name (⟨name, value⟩ :: others) = some value := by
  rw [attribute?, List.find?_cons_of_pos (by simp), Option.map_some]

theorem attribute?_cons_of_ne {name wanted value : String} {others : List Attribute}
    (h : name ≠ wanted) :
    attribute? wanted (⟨name, value⟩ :: others) = attribute? wanted others := by
  rw [attribute?, List.find?_cons_of_neg (by simpa using h), attribute?]

theorem blockParts?_numbered_append (params : List Ident) (number : Nat → Nat)
    {children : List Element} {body : List Assignment}
    (h : blockParts? children = some ([], body)) :
    blockParts? (params.mapIdx (fun index ↦ paramElement (number index)) ++ children) =
      some (params.map Ident.placeless, body) := by
  induction params generalizing number with
  | nil => exact h
  | cons param params ih =>
    have hothers := ih fun index ↦ number (index + 1)
    rw [List.mapIdx_cons, List.cons_append, paramElement, blockParts?, hothers,
      attribute?_cons_self]
    rfl

/-- Parameters stand in front of the assignments. -/
theorem blockParts?_params_append (params : List Ident) {children : List Element}
    {body : List Assignment} (h : blockParts? children = some ([], body)) :
    blockParts? (params.mapIdx paramElement ++ children) =
      some (params.map Ident.placeless, body) :=
  blockParts?_numbered_append params id h

mutual

/-- An expression is read back from its element. -/
theorem expr?_exprElement : ∀ expr : Expr, expr? (exprElement expr) = some expr.placeless
  | .literal kind value span => by
    have hvalue : attribute? "value" [⟨"class", literalClass kind⟩, ⟨"value", value⟩] =
        some value := by
      rw [attribute?_cons_of_ne (by decide), attribute?_cons_self]
    rw [exprElement, expr?, attribute?_cons_self, hvalue, Option.bind_some,
      literalKind?_literalClass]
    rfl
  | .var name span => by
    rw [exprElement, variableElement, expr?, attribute?_cons_self]
    rfl
  | .send receiver selector args span => by
    rw [exprElement, expr?, expr?_exprElement receiver, args?_argElements args 0,
      attribute?_cons_self]
    rfl
  | .block ⟨params, body, span⟩ => by
    have hbody := blockParts?_assignmentElements body 0
    rw [exprElement, blockElement, expr?, blockParts?_params_append params hbody]
    rfl

theorem args?_argElements : ∀ (args : List Expr) (index : Nat),
    args? (argElements index args) = some (Expr.placelessAll args)
  | [], index => by
    rw [argElements, args?, Expr.placelessAll]
  | arg :: rest, index => by
    rw [argElements, args?, expr?_exprElement arg, args?_argElements rest (index + 1),
      Expr.placelessAll]
    rfl

theorem blockParts?_assignmentElements : ∀ (body : List Assignment) (index : Nat),
    blockParts? (assignmentElements index body) = some ([], Assignment.placelessAll body)
  | [], index => by
    rw [assignmentElements, blockParts?, Assignment.placelessAll]
  | ⟨target, value⟩ :: rest, index => by
    rw [assignmentElements, assignmentElement, variableElement, blockParts?,
      attribute?_cons_self, expr?_exprElement value,
      blockParts?_assignmentElements rest (index + 1), Assignment.placelessAll]
    rfl

end

/-- A method is read back, but for the number of its arguments. -/
theorem method?_methodElement (method : Method) :
    method? (methodElement method) = some method.bare := by
  obtain ⟨selector, arity, ⟨params, body, blockSpan⟩, span⟩ := method
  have hbody := blockParts?_assignmentElements body 0
  rw [methodElement, blockElement, method?, blockParts?_params_append params hbody,
    attribute?_cons_self]
  rfl

theorem class?_classElement (declared : ClassDef) :
    class? (classElement declared) = some declared.bare := by
  have hparent : attribute? "parent"
      [⟨"name", declared.name.name⟩, ⟨"parent", declared.parent.name⟩] =
        some declared.parent.name := by
    rw [attribute?_cons_of_ne (by decide), attribute?_cons_self]
  have hmethods : (declared.methods.map methodElement).mapM method? =
      some (declared.methods.map Method.bare) := by
    rw [List.mapM_map]
    exact mapM_eq_some_map fun method _ ↦ method?_methodElement method
  rw [classElement, class?, attribute?_cons_self, hparent, hmethods]
  rfl

/-- A program is read back from its element. That it has no description is told from an empty one,
since then there is no such attribute. -/
theorem program?_programElement (program : Program) :
    program? (programElement program) = some program.bare := by
  have hdescription : attribute? "description" (⟨"language", language⟩ ::
      (program.description?.map (Attribute.mk "description")).toList) = program.description? := by
    rw [attribute?_cons_of_ne (by decide)]
    cases program.description? with
    | none => rfl
    | some description => exact attribute?_cons_self
  have hclasses : (program.classes.map classElement).mapM class? =
      some (program.classes.map ClassDef.bare) := by
    rw [List.mapM_map]
    exact mapM_eq_some_map fun declared _ ↦ class?_classElement declared
  rw [programElement, program?, hdescription, hclasses]
  rfl

/-! ### Reading documents of programs -/

/-- The document of a program is read as the program. -/
theorem read_document (program : Program) : read program.document = some program.bare := by
  have htags : tags? program.document.toList = some (tagsOf (programElement program)) :=
    tags?_document (wellNamed_programElement program) Writer.fresh
  have hassembled := assembled_tagsOf_root (programElement program)
  rw [read, htags]
  change (assembled (tagsOf (programElement program)) [] []).bind _ = _
  rw [hassembled]
  exact program?_programElement program

end Sol25.Document

namespace Sol25

/-- The method with one argument for every colon of its selector. -/
def Method.withArity (method : Method) : Method :=
  { method with arity := method.selector.toList.count ':' }

def ClassDef.withArities (declared : ClassDef) : ClassDef :=
  { declared with methods := declared.methods.map Method.withArity }

def Program.withArities (program : Program) : Program :=
  { program with classes := program.classes.map ClassDef.withArities }

theorem Method.CountsColons.withArity_bare {method : Method} (h : method.CountsColons) :
    method.bare.withArity = method.placeless := by
  rw [Method.CountsColons] at h
  rw [Method.placeless, h]
  rfl

theorem ClassDef.withArities_bare {declared : ClassDef}
    (h : ∀ method ∈ declared.methods, method.CountsColons) :
    declared.bare.withArities = declared.placeless := by
  have hmethods : (declared.methods.map Method.bare).map Method.withArity =
      declared.methods.map Method.placeless := by
    rw [List.map_map]
    exact List.map_congr_left fun method hmethod ↦ (h method hmethod).withArity_bare
  rw [ClassDef.placeless, ← hmethods]
  rfl

/-- The number of arguments is read off the selectors if they count it. -/
theorem Program.withArities_bare {program : Program}
    (h : ∀ declared ∈ program.classes, ∀ method ∈ declared.methods, method.CountsColons) :
    program.bare.withArities = program.placeless := by
  have hclasses : (program.classes.map ClassDef.bare).map ClassDef.withArities =
      program.classes.map ClassDef.placeless := by
    rw [List.map_map]
    exact List.map_congr_left fun declared hdeclared ↦
      ClassDef.withArities_bare (h declared hdeclared)
  rw [Program.placeless, ← hclasses]
  rfl

/-- A document loses nothing. The reader finds every program in its document, whatever its names,
literals and description are, but for the places and the number of arguments of a method, and so
programs with the same document differ in nothing else. If the program comes from a text, the number
of arguments is found too. -/
theorem Program.document_loses_nothing :
    (∀ program : Program, Document.read program.document = some program.bare) ∧
    (∀ first second : Program, first.document = second.document → first.bare = second.bare) ∧
    (∀ (text : List Char) (program : Program), Program.ofText text = .ok program →
      (Document.read program.document).map Program.withArities = some program.placeless) := by
  refine ⟨Document.read_document, ?_, ?_⟩
  · intro first second h
    have hread : some first.bare = some second.bare := by
      rw [← Document.read_document first, ← Document.read_document second, h]
    exact Option.some.inj hread
  · intro text program h
    rw [Document.read_document, Option.map_some,
      Program.withArities_bare (countsColons_of_ofText_eq_ok h)]

end Sol25
