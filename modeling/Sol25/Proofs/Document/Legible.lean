import Sol25.Compile
import Sol25.Proofs.Document.RoundTrip
import Sol25.Proofs.Document.Xml
import Sol25.Proofs.Grammar.Producible
import Sol25.Proofs.Grammar.Strings
import Sol25.Proofs.Lexis.Places

/-!
# When the document of a text is XML

In a program that comes from a text every name, selector and number is spelled with printable
characters, and so are the numbers that a document adds. Only what is quoted is free: the strings,
and the first comment, which is the description (`Program.strings`). It stands in the text like this
(`Program.isInfix_of_mem_strings`) and is put into the document.

So the document of a text always follows the grammar of XML, but it is well-formed only if XML
admits every character of the strings and of the description (`wellFormed_documentOf_iff`). A
control character among them is neither refused nor replaced
(`not_wellFormed_of_control_character`).
-/

set_option autoImplicit false
set_option relaxedAutoImplicit false

namespace Sol25

/-! ### What is quoted in a program -/

/-- The description and the values of all strings. -/
def Program.strings (program : Program) : List String :=
  program.description?.toList ++ program.classes.flatMap ClassDef.strings

open Lexis

theorem isInfix_of_string?_eq_some {text : List Char} {token : Token} {value : String}
    (hplaced : Placed text token) (h : token.string? = some value) : value.toList <:+: text := by
  obtain ⟨kind, span⟩ := token
  cases kind with
  | stringLit body =>
    obtain rfl := Option.some.inj h
    exact List.IsInfix.trans ⟨['\''], ['\''], rfl⟩ hplaced.stands.isInfix
  | keyword _ | builtin _ | ident _ | classIdent _ | selector _ | intLit _ | mark _ | eof => cases h

/-- What is quoted in a program stands like this in the text. -/
theorem Program.isInfix_of_mem_strings {text : List Char} {program : Program}
    (h : Program.ofText text = .ok program) :
    ∀ value ∈ program.strings, value.toList <:+: text := by
  obtain ⟨tokens, comments, hsplits, hclasses, hdescription⟩ := Program.ofText_eq_ok_iff.mp h
  have hplaced := hsplits.placed [] rfl
  rw [Program.strings, hdescription, Reading.strings_eq_of_classes_eq_ok hclasses,
    List.forall_mem_append]
  constructor
  · intro value hvalue
    obtain ⟨body, hbody, rfl⟩ := Option.map_eq_some_iff.mp (Option.mem_toList.mp hvalue)
    rw [String.toList_ofList]
    exact hsplits.isInfix_of_mem_comments body (List.mem_of_head? hbody)
  · intro value hvalue
    obtain ⟨token, htoken, hstring⟩ := List.mem_filterMap.mp hvalue
    exact isInfix_of_string?_eq_some (hplaced token htoken) hstring

namespace Document

/-! ### What is spelled with printable characters -/

theorem isChar_of_isNameChar {c : Char} (h : IsNameChar c) : Xml.IsChar c := by
  rcases h with h | rfl | rfl
  · exact Xml.isChar_of_isAlphanum h
  · decide
  · decide

/-- Names and selectors are legible. -/
theorem legible_of_isNameChar {word : String} (h : ∀ c ∈ word.toList, IsNameChar c) :
    Legible word :=
  fun c hc ↦ isChar_of_isNameChar (h c hc)

theorem isChar_of_isDigit {c : Char} (h : c.isDigit) : Xml.IsChar c :=
  Xml.isChar_of_isAlphanum (by rw [Char.isAlphanum, h, Bool.or_true])

theorem legible_of_numeral {digits : String} (h : Numeral digits) : Legible digits := by
  obtain ⟨sign, first, tail, rfl, hsign, hfirst, htail⟩ := h
  have hsigned : ∀ c ∈ sign, Xml.IsChar c := by
    rcases hsign with rfl | rfl | rfl <;> exact Xml.isChar_of_all rfl
  rw [Legible, String.toList_ofList, List.forall_mem_append, List.forall_mem_cons]
  exact ⟨hsigned, isChar_of_isDigit hfirst, fun c hc ↦ isChar_of_isDigit (htail c hc)⟩

theorem legible_toString (number : Nat) : Legible (toString number) := by
  intro c hc
  rw [Nat.toString_eq_repr, Nat.toList_repr] at hc
  exact isChar_of_isDigit (Nat.isDigit_of_mem_toDigits (by decide) (by decide) hc)

theorem legible_literalClass (kind : LiteralKind) : Legible (literalClass kind) := by
  cases kind <;> exact Xml.isChar_of_all rfl

/-- Only in a string is the text of a literal free. -/
theorem legible_of_admits {kind : LiteralKind} {value : String} (h : kind.Admits value)
    (hkind : kind ≠ .string) : Legible value := by
  cases kind with
  | integer => exact legible_of_numeral h
  | string => exact absurd rfl hkind
  | nilValue =>
    rw [show value = "nil" from h]
    exact Xml.isChar_of_all rfl
  | trueValue =>
    rw [show value = "true" from h]
    exact Xml.isChar_of_all rfl
  | falseValue =>
    rw [show value = "false" from h]
    exact Xml.isChar_of_all rfl
  | className => exact legible_of_isNameChar h.isNameChar

/-! ### No attribute twice -/

theorem distinct_mk {name : String} {attributes : List Attribute} {children : List Element}
    (hattributes : Distinct attributes) (hchildren : ∀ child ∈ children, child.Every Distinct) :
    (Element.mk name attributes children).Every Distinct :=
  every_mk_iff.mpr ⟨hattributes, hchildren⟩

theorem distinct_single {name : String} {only : Attribute} {children : List Element}
    (hchildren : ∀ child ∈ children, child.Every Distinct) :
    (Element.mk name [only] children).Every Distinct :=
  distinct_mk (List.pairwise_singleton _ _) hchildren

theorem distinct_variableElement (name : String) : (variableElement name).Every Distinct :=
  distinct_single (List.forall_mem_nil _)

theorem distinct_paramElement (index : Nat) (param : Ident) :
    (paramElement index param).Every Distinct :=
  distinct_mk (by decide : ["name", "order"].Nodup) (List.forall_mem_nil _)

theorem distinct_wrapped {child : Element} (h : child.Every Distinct) :
    (Element.mk "expr" [] [child]).Every Distinct :=
  distinct_mk List.nodup_nil (List.forall_mem_singleton.mpr h)

mutual

theorem distinct_exprElement : ∀ expr : Expr, (exprElement expr).Every Distinct
  | .literal kind value span => by
    rw [exprElement]
    exact distinct_wrapped
      (distinct_mk (by decide : ["class", "value"].Nodup) (List.forall_mem_nil _))
  | .var name span => by
    rw [exprElement]
    exact distinct_wrapped (distinct_variableElement name)
  | .send receiver selector args span => by
    have hargs := distinct_argElements args 0
    rw [exprElement]
    exact distinct_wrapped (distinct_single
      (List.forall_mem_cons.mpr ⟨distinct_exprElement receiver, hargs⟩))
  | .block content => by
    rw [exprElement]
    exact distinct_wrapped (distinct_blockElement content)

theorem distinct_argElements : ∀ (args : List Expr) (index : Nat),
    ∀ child ∈ argElements index args, child.Every Distinct
  | [], index => by
    rw [argElements]
    exact List.forall_mem_nil _
  | arg :: rest, index => by
    have hvalue := List.forall_mem_singleton.mpr (distinct_exprElement arg)
    rw [argElements, List.forall_mem_cons]
    exact ⟨distinct_single hvalue, distinct_argElements rest (index + 1)⟩

theorem distinct_blockElement : ∀ block : Block, (blockElement block).Every Distinct
  | ⟨params, body, span⟩ => by
    have hbody := distinct_assignmentElements body 0
    have hparams : ∀ child ∈ params.mapIdx paramElement, child.Every Distinct := by
      intro child hchild
      obtain ⟨index, hindex, rfl⟩ := List.mem_mapIdx.mp hchild
      exact distinct_paramElement index _
    rw [blockElement]
    exact distinct_single (List.forall_mem_append.mpr ⟨hparams, hbody⟩)

theorem distinct_assignmentElements : ∀ (body : List Assignment) (index : Nat),
    ∀ child ∈ assignmentElements index body, child.Every Distinct
  | [], index => by
    rw [assignmentElements]
    exact List.forall_mem_nil _
  | ⟨target, value⟩ :: rest, index => by
    have hvalue := List.forall_mem_singleton.mpr (distinct_exprElement value)
    have htarget := distinct_variableElement target.name
    rw [assignmentElements, assignmentElement, List.forall_mem_cons]
    exact ⟨distinct_single (List.forall_mem_cons.mpr ⟨htarget, hvalue⟩),
      distinct_assignmentElements rest (index + 1)⟩

end

theorem distinct_classElement (declared : ClassDef) : (classElement declared).Every Distinct := by
  have hmethods : ∀ child ∈ declared.methods.map methodElement, child.Every Distinct := by
    intro child hchild
    obtain ⟨method, -, rfl⟩ := List.mem_map.mp hchild
    exact distinct_single (List.forall_mem_singleton.mpr (distinct_blockElement method.body))
  exact distinct_mk (by decide : ["name", "parent"].Nodup) hmethods

theorem distinct_programElement (program : Program) : (programElement program).Every Distinct := by
  have hclasses : ∀ child ∈ program.classes.map classElement, child.Every Distinct := by
    intro child hchild
    obtain ⟨declared, -, rfl⟩ := List.mem_map.mp hchild
    exact distinct_classElement declared
  have hnames : Distinct (⟨"language", language⟩ ::
      (program.description?.map (Attribute.mk "description")).toList) := by
    cases program.description? with
    | none => exact List.pairwise_singleton _ _
    | some description => exact (by decide : ["language", "description"].Nodup)
  exact distinct_mk hnames hclasses

/-! ### The values in the document of a program -/

theorem allLegible_nil : AllLegible [] := List.forall_mem_nil _

theorem allLegible_cons_iff {name value : String} {others : List Attribute} :
    AllLegible (⟨name, value⟩ :: others) ↔ Legible value ∧ AllLegible others :=
  List.forall_mem_cons

theorem legible_wrapped_iff {child : Element} :
    (Element.mk "expr" [] [child]).Every AllLegible ↔ child.Every AllLegible := by
  rw [every_mk_iff, List.forall_mem_singleton, and_iff_right allLegible_nil]

theorem legible_singleton_iff {name value : String} :
    AllLegible [⟨name, value⟩] ↔ Legible value :=
  List.forall_mem_singleton

theorem legible_pair_iff {name value otherName otherValue : String} :
    AllLegible [⟨name, value⟩, ⟨otherName, otherValue⟩] ↔
      Legible value ∧ Legible otherValue := by
  rw [allLegible_cons_iff, legible_singleton_iff]

theorem legible_variableElement {name : String} (h : Legible name) :
    (variableElement name).Every AllLegible :=
  every_mk_iff.mpr ⟨legible_singleton_iff.mpr h, List.forall_mem_nil _⟩

theorem legible_paramElement {param : Ident} (h : Legible param.name) (index : Nat) :
    (paramElement index param).Every AllLegible :=
  every_mk_iff.mpr ⟨legible_pair_iff.mpr ⟨h, legible_toString _⟩, List.forall_mem_nil _⟩

mutual

theorem legible_exprElement_iff : ∀ expr : Expr, expr.WellFormed →
    ((exprElement expr).Every AllLegible ↔ ∀ value ∈ expr.strings, Legible value)
  | .literal kind value span, h => by
    rw [Expr.WellFormed] at h
    have hliteral : (exprElement (.literal kind value span)).Every AllLegible ↔ Legible value := by
      rw [exprElement, legible_wrapped_iff, every_mk_iff, legible_pair_iff,
        and_iff_right (legible_literalClass kind), and_iff_left (List.forall_mem_nil _)]
    rw [hliteral, Expr.strings]
    by_cases hkind : kind = .string
    · rw [if_pos hkind, List.forall_mem_singleton]
    · rw [if_neg hkind]
      exact iff_of_true (legible_of_admits h hkind) (List.forall_mem_nil _)
  | .var name span, h => by
    rw [Expr.WellFormed] at h
    have hname : Legible name := by
      rcases h with h | rfl | rfl
      · exact legible_of_isNameChar h.1.isNameChar
      · exact Xml.isChar_of_all rfl
      · exact Xml.isChar_of_all rfl
    rw [exprElement, legible_wrapped_iff, Expr.strings]
    exact iff_of_true (legible_variableElement hname) (List.forall_mem_nil _)
  | .send receiver selector args span, h => by
    rw [Expr.WellFormed] at h
    obtain ⟨hreceiver, hselector, hargs⟩ := h
    rw [exprElement, legible_wrapped_iff, every_mk_iff, legible_singleton_iff,
      and_iff_right (legible_of_isNameChar hselector.isNameChar), List.forall_mem_cons,
      ← allEvery_iff,
      legible_exprElement_iff receiver hreceiver, legible_argElements_iff args 0 hargs,
      Expr.strings, List.forall_mem_append]
  | .block content, h => by
    rw [Expr.WellFormed] at h
    rw [exprElement, legible_wrapped_iff, legible_blockElement_iff content h, Expr.strings]

theorem legible_argElements_iff : ∀ (args : List Expr) (index : Nat), Expr.AllWellFormed args →
    (Element.AllEvery AllLegible (argElements index args) ↔
      ∀ value ∈ Expr.stringsOfArgs args, Legible value)
  | [], index, _ => by
    rw [argElements, Expr.stringsOfArgs]
    exact iff_of_true trivial (List.forall_mem_nil _)
  | arg :: rest, index, h => by
    rw [Expr.AllWellFormed] at h
    have horder : AllLegible [orderAttribute index] :=
      legible_singleton_iff.mpr (legible_toString _)
    rw [argElements, Element.AllEvery, every_mk_iff, and_iff_right horder,
      List.forall_mem_singleton, legible_exprElement_iff arg h.1,
      legible_argElements_iff rest (index + 1) h.2, Expr.stringsOfArgs, List.forall_mem_append]

theorem legible_blockElement_iff : ∀ block : Block, block.WellFormed →
    ((blockElement block).Every AllLegible ↔ ∀ value ∈ block.strings, Legible value)
  | ⟨params, body, span⟩, h => by
    rw [Block.WellFormed] at h
    have hparams : ∀ child ∈ params.mapIdx paramElement, child.Every AllLegible := by
      intro child hchild
      obtain ⟨index, hindex, rfl⟩ := List.mem_mapIdx.mp hchild
      have hname := (h.1 _ (List.getElem_mem hindex)).1.isNameChar
      exact legible_paramElement (legible_of_isNameChar hname) index
    rw [blockElement, every_mk_iff, legible_singleton_iff, and_iff_right (legible_toString _),
      List.forall_mem_append, and_iff_right hparams, ← allEvery_iff,
      legible_assignmentElements_iff body 0 h.2, Block.strings]

theorem legible_assignmentElements_iff : ∀ (body : List Assignment) (index : Nat),
    Assignment.AllWellFormed body →
      (Element.AllEvery AllLegible (assignmentElements index body) ↔
        ∀ value ∈ Assignment.stringsOfAll body, Legible value)
  | [], index, _ => by
    rw [assignmentElements, Assignment.stringsOfAll]
    exact iff_of_true trivial (List.forall_mem_nil _)
  | ⟨target, value⟩ :: rest, index, h => by
    rw [Assignment.AllWellFormed, Assignment.WellFormed] at h
    obtain ⟨⟨htarget, hvalue⟩, hrest⟩ := h
    have horder : AllLegible [orderAttribute index] :=
      legible_singleton_iff.mpr (legible_toString _)
    have hname := legible_variableElement (legible_of_isNameChar htarget.1.isNameChar)
    rw [assignmentElements, assignmentElement, Element.AllEvery, every_mk_iff,
      and_iff_right horder, List.forall_mem_cons, and_iff_right hname, List.forall_mem_singleton,
      legible_exprElement_iff value hvalue, legible_assignmentElements_iff rest (index + 1) hrest,
      Assignment.stringsOfAll, Assignment.strings, List.forall_mem_append]

end

theorem legible_methodElement_iff {method : Method} (h : method.WellFormed) :
    (methodElement method).Every AllLegible ↔ ∀ value ∈ method.body.strings, Legible value := by
  rw [methodElement, every_mk_iff, legible_singleton_iff,
    and_iff_right (legible_of_isNameChar h.selector.isNameChar), List.forall_mem_singleton,
    legible_blockElement_iff method.body h.body]

theorem legible_classElement_iff {declared : ClassDef} (h : declared.WellFormed) :
    (classElement declared).Every AllLegible ↔ ∀ value ∈ declared.strings, Legible value := by
  have hname := legible_of_isNameChar h.name.1.isNameChar
  have hparent := legible_of_isNameChar h.parent.isNameChar
  rw [classElement, every_mk_iff, legible_pair_iff, and_iff_right ⟨hname, hparent⟩,
    List.forall_mem_map, ClassDef.strings, List.forall_mem_flatMap]
  exact forall₂_congr fun method hmethod ↦ legible_methodElement_iff (h.methods method hmethod)

/-- The values in the document of a well-formed program are legible if the strings are. -/
theorem legible_programElement_iff {program : Program} (h : program.WellFormed) :
    (programElement program).Every AllLegible ↔ ∀ value ∈ program.strings, Legible value := by
  have hlanguage : Legible language := Xml.isChar_of_all rfl
  have hdescription :
      AllLegible (program.description?.map (Attribute.mk "description")).toList ↔
        ∀ value ∈ program.description?.toList, Legible value := by
    cases program.description? with
    | none => exact iff_of_true (List.forall_mem_nil _) (List.forall_mem_nil _)
    | some description => exact legible_singleton_iff.trans List.forall_mem_singleton.symm
  rw [programElement, every_mk_iff, allLegible_cons_iff, and_iff_right hlanguage, hdescription,
    List.forall_mem_map, Program.strings, List.forall_mem_append, List.forall_mem_flatMap]
  exact and_congr_right fun _ ↦ forall₂_congr fun declared hdeclared ↦
    legible_classElement_iff (h.classes declared hdeclared)

end Document

/-! ### The documents of texts -/

variable {text : List Char} {document : String}

theorem exists_of_documentOf_eq_ok (h : documentOf text = .ok document) :
    ∃ program, Program.ofText text = .ok program ∧ document = program.document := by
  obtain ⟨program, hread, -, hdocument⟩ := exists_accepted_of_documentOf_eq_ok h
  exact ⟨program, hread, hdocument⟩

/-- The document of a text follows the grammar of XML. It is well-formed if XML admits the
characters of the strings and of the description, and only then; so it is if XML admits those of the
text. -/
theorem wellFormed_documentOf_iff (h : documentOf text = .ok document) :
    Xml.Document document.toList ∧
      (∃ program, Program.ofText text = .ok program ∧
        (Xml.WellFormed document.toList ↔
          ∀ value ∈ program.strings, ∀ c ∈ value.toList, Xml.IsChar c)) ∧
      ((∀ c ∈ text, Xml.IsChar c) → Xml.WellFormed document.toList) := by
  obtain ⟨program, hread, rfl⟩ := exists_of_documentOf_eq_ok h
  have hnamed := Document.wellNamed_programElement program
  have hdistinct := Document.distinct_programElement program
  have hlegible :=
    Document.legible_programElement_iff (Program.wellFormed_of_ofText_eq_ok hread)
  have hiff : Xml.WellFormed program.document.toList ↔
      ∀ value ∈ program.strings, ∀ c ∈ value.toList, Xml.IsChar c :=
    (Document.wellFormed_document_iff hnamed hdistinct .fresh).trans hlegible
  refine ⟨Document.xml_document hnamed hdistinct .fresh, ⟨program, hread, hiff⟩, fun htext ↦ ?_⟩
  refine hiff.mpr fun value hvalue c hc ↦ htext c ?_
  exact (Program.isInfix_of_mem_strings hread value hvalue).subset hc

/-- A program that does nothing. Its description is a single character. -/
def describedText (c : Char) : List Char :=
  '"' :: c :: '"' :: "class Main:Object\x7brun[|]\x7d".toList

/-- The text has a document with the character in it. -/
def documentHas (c : Char) (text : List Char) : Bool :=
  match documentOf text with
  | .ok document => document.toList.contains c
  | .error _ => false

theorem exists_of_documentHas {c : Char} (h : documentHas c text) :
    ∃ document, documentOf text = .ok document ∧ c ∈ document.toList := by
  unfold documentHas at h
  split at h
  · next document hdocument => exact ⟨document, hdocument, List.contains_iff_mem.mp h⟩
  · cases h

theorem wellFormed_documentOf_describedText :
    ∃ document, documentOf (describedText 'a') = .ok document ∧
      Xml.WellFormed document.toList := by
  have hhas : documentHas 'a' (describedText 'a') := by decide +kernel
  obtain ⟨document, hdocument, -⟩ := exists_of_documentHas hhas
  exact ⟨document, hdocument, (wellFormed_documentOf_iff hdocument).2.2 (Xml.isChar_of_all rfl)⟩

/-- Not every document is well-formed: a control character is written as it is. -/
theorem not_wellFormed_of_control_character :
    ¬ ∀ (text : List Char) (document : String), documentOf text = .ok document →
      Xml.WellFormed document.toList := by
  intro h
  have hhas : documentHas '\x01' (describedText '\x01') := by decide +kernel
  obtain ⟨document, hdocument, hcontrol⟩ := exists_of_documentHas hhas
  have hchar : Xml.IsChar '\x01' := (h _ document hdocument).chars _ hcontrol
  exact absurd hchar (by decide)

end Sol25
