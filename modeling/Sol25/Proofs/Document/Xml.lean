import Sol25.Proofs.Document.Tags

/-!
# What is written is XML

A small part of XML 1.0 is enough to describe every document: names of letters, values with the
references of a writer in them, tags that name no attribute twice, and elements that are closed
under the name they were opened with (`Xml.Element`, `Xml.Document`). Apart from this grammar every
character of a text has to be one that XML 1.0 admits (`Xml.IsChar`), and with both the text is
well-formed (`Xml.WellFormed`).

Whatever its values are, the document of a well-named element follows the grammar
(`xml_document`). The characters are another matter. A writer escapes what means something to a
reader, and a character that XML does not admit is none of that, so it is written as it is. The
characters of a document are admitted exactly if those of all the values are
(`isChar_document_iff`).
-/

set_option autoImplicit false
set_option relaxedAutoImplicit false

namespace Sol25.Xml

open Document (IsName)

/-! ### A part of XML 1.0 -/

/-- The characters that a text may contain at all. -/
def IsChar (c : Char) : Prop :=
  c = '\t' ∨ c = '\n' ∨ c = '\r' ∨ 0x20 ≤ c.toNat ∧ c.toNat ≤ 0xD7FF ∨
    0xE000 ≤ c.toNat ∧ c.toNat ≤ 0xFFFD ∨ 0x10000 ≤ c.toNat ∧ c.toNat ≤ 0x10FFFF

instance (c : Char) : Decidable (IsChar c) := inferInstanceAs (Decidable (_ ∨ _))

def IsBlank (c : Char) : Prop := c = ' ' ∨ c = '\t' ∨ c = '\r' ∨ c = '\n'

/-- The references that stand in values. There are more of them in XML. -/
def references : List (List Char) :=
  ["&amp;".toList, "&lt;".toList, "&gt;".toList, "&quot;".toList, "&#10;".toList, "&#13;".toList,
    "&#9;".toList]

/-- What may stand between the quotes of an attribute. -/
inductive Value : List Char → Prop
  | nil : Value []
  | plain {c : Char} {rest : List Char} (hc : c ≠ '<' ∧ c ≠ '&' ∧ c ≠ '"') (hrest : Value rest) :
    Value (c :: rest)
  | reference {reference rest : List Char} (hreference : reference ∈ references)
      (hrest : Value rest) :
    Value (reference ++ rest)

/-- Attributes with these names, none of them twice. -/
inductive Attributes : List String → List Char → Prop
  | nil : Attributes [] []
  | cons {name : String} {names : List String} {value others : List Char} (hname : IsName name)
      (hvalue : Value value) (hnew : name ∉ names) (hothers : Attributes names others) :
    Attributes (name :: names)
      (' ' :: (name.toList ++ '=' :: '"' :: (value ++ '"' :: others)))

mutual

/-- An element, from its first bracket to its last. -/
inductive Element : List Char → Prop
  | empty {name : String} {names : List String} {attributes : List Char} (hname : IsName name)
      (hattributes : Attributes names attributes) :
    Element ('<' :: (name.toList ++ attributes ++ ['/', '>']))
  | nested {name : String} {names : List String} {attributes content : List Char}
      (hname : IsName name) (hattributes : Attributes names attributes)
      (hcontent : Content content) :
    Element ('<' :: (name.toList ++ attributes ++ '>' ::
      (content ++ '<' :: '/' :: (name.toList ++ ['>']))))

/-- Elements with blanks around them. -/
inductive Content : List Char → Prop
  | nil : Content []
  | blank {c : Char} {rest : List Char} (hc : IsBlank c) (hrest : Content rest) :
    Content (c :: rest)
  | element {element rest : List Char} (helement : Element element) (hrest : Content rest) :
    Content (element ++ rest)

end

/-- The declaration and one element. -/
def Document (text : List Char) : Prop :=
  ∃ before root after, text = Document.Writer.declaration.toList ++ (before ++ (root ++ after)) ∧
    (∀ c ∈ before, IsBlank c) ∧ Element root ∧ ∀ c ∈ after, IsBlank c

structure WellFormed (text : List Char) : Prop where
  chars : ∀ c ∈ text, IsChar c
  document : Document text

theorem Content.blanks_append {blanks rest : List Char} (hblanks : ∀ c ∈ blanks, IsBlank c)
    (hrest : Content rest) : Content (blanks ++ rest) := by
  induction blanks with
  | nil => exact hrest
  | cons c blanks ih =>
    obtain ⟨hc, hblanks⟩ := List.forall_mem_cons.mp hblanks
    exact .blank hc (ih hblanks)

theorem isChar_of_all {text : List Char} (h : (text.all fun c ↦ decide (IsChar c)) = true) :
    ∀ c ∈ text, IsChar c :=
  fun c hc ↦ of_decide_eq_true (List.all_eq_true.mp h c hc)

theorem isChar_of_mem_references {reference : List Char} (h : reference ∈ references) :
    ∀ c ∈ reference, IsChar c := by
  have hall : (references.all fun reference ↦ reference.all fun c ↦ decide (IsChar c)) = true := rfl
  exact isChar_of_all (List.all_eq_true.mp hall reference h)

/-- There is nothing but printable characters from the blank to the tilde. -/
theorem isChar_of_le {c : Char} (hlow : 0x20 ≤ c.toNat) (hhigh : c.toNat ≤ 0x7E) : IsChar c :=
  .inr (.inr (.inr (.inl ⟨hlow, by omega⟩)))

theorem isChar_of_isAlphanum {c : Char} (h : c.isAlphanum) : IsChar c := by
  delta Char.isAlphanum Char.isAlpha Char.isUpper Char.isLower Char.isDigit at h
  simp only [Bool.or_eq_true, Bool.and_eq_true, decide_eq_true_eq, ge_iff_le,
    UInt32.le_iff_toNat_le] at h
  change (((65 ≤ c.toNat ∧ c.toNat ≤ 90) ∨ (97 ≤ c.toNat ∧ c.toNat ≤ 122)) ∨
    (48 ≤ c.toNat ∧ c.toNat ≤ 57)) at h
  exact isChar_of_le (by omega) (by omega)

theorem isChar_of_isAlpha {c : Char} (h : c.isAlpha) : IsChar c :=
  isChar_of_isAlphanum (by rw [Char.isAlphanum, h, Bool.true_or])

end Sol25.Xml

namespace Sol25.Document

/-! ### What holds of every tag -/

mutual

/-- The attributes of every tag of an element are like this. -/
def Element.Every (p : List Attribute → Prop) : Element → Prop
  | ⟨_, attributes, children⟩ => p attributes ∧ Element.AllEvery p children

def Element.AllEvery (p : List Attribute → Prop) : List Element → Prop
  | [] => True
  | child :: others => child.Every p ∧ Element.AllEvery p others

end

theorem allEvery_iff {p : List Attribute → Prop} {children : List Element} :
    Element.AllEvery p children ↔ ∀ child ∈ children, child.Every p := by
  induction children with
  | nil => exact ⟨fun _ ↦ List.forall_mem_nil _, fun _ ↦ trivial⟩
  | cons child children ih => rw [Element.AllEvery, ih, List.forall_mem_cons]

theorem every_mk_iff {p : List Attribute → Prop} {name : String} {attributes : List Attribute}
    {children : List Element} :
    (Element.mk name attributes children).Every p ↔
      p attributes ∧ ∀ child ∈ children, child.Every p := by
  rw [Element.Every, allEvery_iff]

/-- No name stands twice among the attributes. -/
def Distinct (attributes : List Attribute) : Prop := (attributes.map Attribute.name).Nodup

/-- Every character of a value is admitted in XML. -/
def Legible (value : String) : Prop := ∀ c ∈ value.toList, Xml.IsChar c

/-- All values of the attributes are legible. -/
def AllLegible (attributes : List Attribute) : Prop := ∀ self ∈ attributes, Legible self.value

/-! ### Values and attributes -/

/-- A character becomes a reference, or it stays as it is and may stand in a value. -/
theorem escaped_cases (c : Char) :
    (escaped c).toList ∈ Xml.references ∧ Xml.IsChar c ∨
      (escaped c).toList = [c] ∧ c ≠ '<' ∧ c ≠ '&' ∧ c ≠ '"' := by
  unfold escaped
  split
  · exact .inl (by decide)
  · exact .inl (by decide)
  · exact .inl (by decide)
  · exact .inl (by decide)
  · exact .inl (by decide)
  · exact .inl (by decide)
  · exact .inl (by decide)
  · next hamp hlt _ hquote _ _ _ =>
    refine .inr ⟨?_, hlt, hamp, hquote⟩
    rw [Char.toString_eq_singleton, String.toList_singleton]

theorem value_escapedText (value : String) : Xml.Value (escapedText value) := by
  unfold escapedText
  induction value.toList with
  | nil => exact .nil
  | cons c rest ih =>
    rw [List.flatMap_cons]
    rcases escaped_cases c with ⟨hreference, -⟩ | ⟨hplain, hc⟩
    · exact .reference hreference ih
    · rw [hplain]
      exact .plain hc ih

theorem isChar_escaped_iff (c : Char) :
    (∀ other ∈ (escaped c).toList, Xml.IsChar other) ↔ Xml.IsChar c := by
  rcases escaped_cases c with ⟨hreference, hc⟩ | ⟨hplain, -⟩
  · exact iff_of_true (Xml.isChar_of_mem_references hreference) hc
  · rw [hplain, List.forall_mem_singleton]

/-- No character that XML lacks is escaped. -/
theorem isChar_escapedText_iff (value : String) :
    (∀ c ∈ escapedText value, Xml.IsChar c) ↔ Legible value := by
  rw [escapedText, List.forall_mem_flatMap, Legible]
  simp only [isChar_escaped_iff]

theorem IsName.isChar {name : String} (h : IsName name) : ∀ c ∈ name.toList, Xml.IsChar c :=
  fun c hc ↦ Xml.isChar_of_isAlpha (h.2 c hc)

theorem attributes_attributesText {attributes : List Attribute}
    (h : ∀ self ∈ attributes, IsName self.name) (hdistinct : Distinct attributes) :
    Xml.Attributes (attributes.map Attribute.name) (attributesText attributes).toList := by
  rw [toList_attributesText]
  induction attributes with
  | nil => exact .nil
  | cons self others ih =>
    obtain ⟨hself, hothers⟩ := List.forall_mem_cons.mp h
    obtain ⟨hnew, hrest⟩ := List.nodup_cons.mp hdistinct
    have hcons := Xml.Attributes.cons hself (value_escapedText self.value) hnew (ih hothers hrest)
    rw [List.flatMap_cons, toList_text]
    simpa using hcons

theorem isChar_attributesText_iff {attributes : List Attribute}
    (h : ∀ self ∈ attributes, IsName self.name) :
    (∀ c ∈ (attributesText attributes).toList, Xml.IsChar c) ↔ AllLegible attributes := by
  rw [toList_attributesText, List.forall_mem_flatMap]
  refine forall₂_congr fun self hself ↦ ?_
  have hsigns : Xml.IsChar ' ' ∧ Xml.IsChar '=' ∧ Xml.IsChar '"' := by decide
  rw [toList_text, List.forall_mem_cons, List.forall_mem_append, List.forall_mem_cons,
    List.forall_mem_cons, List.forall_mem_append, List.forall_mem_singleton,
    isChar_escapedText_iff, and_iff_right hsigns.1, and_iff_right (h self hself).isChar,
    and_iff_right hsigns.2.1, and_iff_right hsigns.2.2, and_iff_left hsigns.2.2]

/-! ### The text of an element -/

/-- A tag without its last bracket. -/
def openText (name : String) (attributes : List Attribute) : List Char :=
  '<' :: (name.toList ++ (attributesText attributes).toList)

def closeText (name : String) : List Char := '<' :: '/' :: (name.toList ++ ['>'])

mutual

/-- What a writer with that many open elements adds for an element. -/
def elementText (depth : Nat) : Element → List Char
  | ⟨name, attributes, []⟩ =>
    (Writer.indentation depth).toList ++ (openText name attributes ++ ['/', '>', '\n'])
  | ⟨name, attributes, child :: children⟩ =>
    (Writer.indentation depth).toList ++ (openText name attributes ++ '>' :: '\n' ::
      (elementText (depth + 1) child ++ (elementsText (depth + 1) children ++
        ((Writer.indentation depth).toList ++ (closeText name ++ ['\n'])))))

def elementsText (depth : Nat) : List Element → List Char
  | [] => []
  | child :: children => elementText depth child ++ elementsText depth children

end

theorem toList_leaf (name : String) (attributes : List Attribute) (writer : Writer) :
    (writer.leaf name attributes).text.toList = writer.text.toList ++
      ((Writer.indentation writer.depth).toList ++
        (openText name attributes ++ ['/', '>', '\n'])) := by
  have hput := toList_put writer (.leaf name attributes)
  rw [Tag.text, List.append_assoc] at hput
  rwa [openText, List.cons_append]

theorem toList_opening (name : String) (attributes : List Attribute) (writer : Writer) :
    (writer.opening name attributes).text.toList = writer.text.toList ++
      ((Writer.indentation writer.depth).toList ++ (openText name attributes ++ ['>', '\n'])) :=
  toList_put writer (.opening name attributes)

theorem toList_closing (name : String) (writer : Writer) :
    (writer.closing name).text.toList = writer.text.toList ++
      ((Writer.indentation (writer.depth - 1)).toList ++ (closeText name ++ ['\n'])) := by
  have hput := toList_put writer (.closing name)
  rw [closeText, List.cons_append, List.cons_append, List.append_assoc]
  exact hput

mutual

/-- As many elements are open behind an element as in front of it. -/
theorem depth_element : ∀ (root : Element) (writer : Writer),
    (Writer.element root writer).depth = writer.depth
  | ⟨name, attributes, []⟩, writer => by
    rw [Writer.element]
    rfl
  | ⟨name, attributes, child :: children⟩, writer => by
    have hdepth : (Writer.elements children
        (Writer.element child (writer.opening name attributes))).depth = writer.depth + 1 := by
      rw [depth_elements children, depth_element child]
      rfl
    rw [Writer.element]
    change (Writer.elements _ _).depth - 1 = _
    rw [hdepth, Nat.add_sub_cancel]

theorem depth_elements : ∀ (children : List Element) (writer : Writer),
    (Writer.elements children writer).depth = writer.depth
  | [], writer => by rw [Writer.elements]
  | child :: children, writer => by
    rw [Writer.elements, depth_elements children, depth_element child]

end

mutual

/-- A writer adds the text of the element, as deep as it stands. -/
theorem toList_element : ∀ (root : Element) (writer : Writer),
    (Writer.element root writer).text.toList =
      writer.text.toList ++ elementText writer.depth root
  | ⟨name, attributes, []⟩, writer => by
    rw [Writer.element, toList_leaf, elementText]
  | ⟨name, attributes, child :: children⟩, writer => by
    have hopened : (writer.opening name attributes).depth = writer.depth + 1 := rfl
    rw [Writer.element, toList_closing, toList_elements children, toList_element child,
      toList_opening, depth_elements, depth_element, hopened, Nat.add_sub_cancel, elementText]
    simp

theorem toList_elements : ∀ (children : List Element) (writer : Writer),
    (Writer.elements children writer).text.toList =
      writer.text.toList ++ elementsText writer.depth children
  | [], writer => by rw [Writer.elements, elementsText, List.append_nil]
  | child :: children, writer => by
    rw [Writer.elements, toList_elements children, toList_element child, depth_element,
      elementsText, List.append_assoc]

end

/-- The declaration, and the text of the root from the margin on. -/
theorem toList_document (root : Element) (writer : Writer) :
    (writer.document root).text.toList =
      Writer.declaration.toList ++ '\n' :: elementText 0 root := by
  rw [document_eq, toList_element, toList_line_declaration]
  rfl

/-! ### The text is an element -/

theorem isBlank_of_mem_indentation (depth : Nat) :
    ∀ c ∈ (Writer.indentation depth).toList, Xml.IsBlank c :=
  fun _ hc ↦ .inl (eq_of_mem_indentation hc)

mutual

theorem exists_elementText_eq : ∀ (root : Element) (depth : Nat), root.WellNamed →
    root.Every Distinct → ∃ element, Xml.Element element ∧
      elementText depth root = (Writer.indentation depth).toList ++ (element ++ ['\n'])
  | ⟨name, attributes, []⟩, depth, h, hdistinct => by
    rw [Element.WellNamed] at h
    rw [Element.Every] at hdistinct
    have hattributes := attributes_attributesText h.2.1 hdistinct.1
    refine ⟨_, .empty h.1 hattributes, ?_⟩
    rw [elementText, openText]
    simp
  | ⟨name, attributes, child :: children⟩, depth, h, hdistinct => by
    rw [Element.WellNamed, Element.AllWellNamed] at h
    rw [Element.Every, Element.AllEvery] at hdistinct
    obtain ⟨hname, hnames, hchild, hchildren⟩ := h
    obtain ⟨hnodup, hchildDistinct, hchildrenDistinct⟩ := hdistinct
    have hattributes := attributes_attributesText hnames hnodup
    -- The last blanks of the content are those in front of the closing tag.
    have hlast : Xml.Content ((Writer.indentation depth).toList ++ []) :=
      Xml.Content.nil.blanks_append (isBlank_of_mem_indentation depth)
    have hcontent := content_elementsText (child :: children) (depth + 1) ⟨hchild, hchildren⟩
      ⟨hchildDistinct, hchildrenDistinct⟩ hlast
    refine ⟨_, .nested hname hattributes (.blank (c := '\n') (.inr (.inr (.inr rfl))) hcontent), ?_⟩
    rw [elementText, openText, closeText, elementsText]
    simp

theorem content_elementsText : ∀ (children : List Element) (depth : Nat) {rest : List Char},
    Element.AllWellNamed children → Element.AllEvery Distinct children → Xml.Content rest →
      Xml.Content (elementsText depth children ++ rest)
  | [], depth, rest, _, _, hrest => by
    rwa [elementsText, List.nil_append]
  | child :: children, depth, rest, h, hdistinct, hrest => by
    rw [Element.AllWellNamed] at h
    rw [Element.AllEvery] at hdistinct
    obtain ⟨element, helement, htext⟩ := exists_elementText_eq child depth h.1 hdistinct.1
    have hothers := content_elementsText children depth h.2 hdistinct.2 hrest
    have hline := Xml.Content.element helement (.blank (c := '\n') (.inr (.inr (.inr rfl))) hothers)
    have hcontent := hline.blanks_append (isBlank_of_mem_indentation depth)
    rw [elementsText, htext]
    simpa using hcontent

end

/-- A document is a declaration with one element behind it. Nothing is assumed of the values. -/
theorem xml_document {root : Element} (h : root.WellNamed) (hdistinct : root.Every Distinct)
    (writer : Writer) : Xml.Document (writer.document root).text.toList := by
  obtain ⟨element, helement, htext⟩ := exists_elementText_eq root 0 h hdistinct
  refine ⟨'\n' :: (Writer.indentation 0).toList, element, ['\n'], ?_, ?_, helement, ?_⟩
  · rw [toList_document, htext, List.cons_append]
  · exact List.forall_mem_cons.mpr ⟨.inr (.inr (.inr rfl)), isBlank_of_mem_indentation 0⟩
  · exact List.forall_mem_singleton.mpr (.inr (.inr (.inr rfl)))

/-! ### The characters of a document -/

theorem isChar_indentation (depth : Nat) :
    ∀ c ∈ (Writer.indentation depth).toList, Xml.IsChar c := by
  intro c hc
  rw [eq_of_mem_indentation hc]
  decide

theorem isChar_openText_iff {name : String} {attributes : List Attribute} (hname : IsName name)
    (h : ∀ self ∈ attributes, IsName self.name) :
    (∀ c ∈ openText name attributes, Xml.IsChar c) ↔ AllLegible attributes := by
  have hbracket : Xml.IsChar '<' := by decide
  rw [openText, List.forall_mem_cons, List.forall_mem_append, isChar_attributesText_iff h,
    and_iff_right hbracket, and_iff_right hname.isChar]

theorem isChar_closeText {name : String} (hname : IsName name) :
    ∀ c ∈ closeText name, Xml.IsChar c := by
  have hsigns : Xml.IsChar '<' ∧ Xml.IsChar '/' ∧ Xml.IsChar '>' := by decide
  rw [closeText, List.forall_mem_cons, List.forall_mem_cons, List.forall_mem_append,
    List.forall_mem_singleton]
  exact ⟨hsigns.1, hsigns.2.1, hname.isChar, hsigns.2.2⟩

mutual

theorem isChar_elementText_iff : ∀ (root : Element) (depth : Nat), root.WellNamed →
    ((∀ c ∈ elementText depth root, Xml.IsChar c) ↔ root.Every AllLegible)
  | ⟨name, attributes, []⟩, depth, h => by
    rw [Element.WellNamed] at h
    have hend : ∀ c ∈ ['/', '>', '\n'], Xml.IsChar c := Xml.isChar_of_all rfl
    rw [elementText, List.forall_mem_append, List.forall_mem_append,
      and_iff_right (isChar_indentation depth), isChar_openText_iff h.1 h.2.1, Element.Every,
      and_iff_left hend, Element.AllEvery, and_true]
  | ⟨name, attributes, child :: children⟩, depth, h => by
    rw [Element.WellNamed, Element.AllWellNamed] at h
    obtain ⟨hname, hnames, hchild, hchildren⟩ := h
    have hend : Xml.IsChar '>' ∧ Xml.IsChar '\n' := by decide
    have hclosing : ∀ c ∈ (Writer.indentation depth).toList ++ (closeText name ++ ['\n']),
        Xml.IsChar c := by
      rw [List.forall_mem_append, List.forall_mem_append, List.forall_mem_singleton]
      exact ⟨isChar_indentation depth, isChar_closeText hname, hend.2⟩
    rw [elementText, List.forall_mem_append, and_iff_right (isChar_indentation depth),
      List.forall_mem_append, isChar_openText_iff hname hnames, List.forall_mem_cons,
      and_iff_right hend.1, List.forall_mem_cons, and_iff_right hend.2, List.forall_mem_append,
      isChar_elementText_iff child _ hchild, List.forall_mem_append,
      isChar_elementsText_iff children _ hchildren, and_iff_left hclosing, Element.Every,
      Element.AllEvery]

theorem isChar_elementsText_iff : ∀ (children : List Element) (depth : Nat),
    Element.AllWellNamed children →
      ((∀ c ∈ elementsText depth children, Xml.IsChar c) ↔ Element.AllEvery AllLegible children)
  | [], depth, _ => by
    rw [elementsText, Element.AllEvery]
    exact iff_of_true (List.forall_mem_nil _) trivial
  | child :: children, depth, h => by
    rw [Element.AllWellNamed] at h
    rw [elementsText, List.forall_mem_append, isChar_elementText_iff child depth h.1,
      isChar_elementsText_iff children depth h.2, Element.AllEvery]

end

/-- XML admits the characters of a document exactly if it admits those of the values in it. -/
theorem isChar_document_iff {root : Element} (h : root.WellNamed) (writer : Writer) :
    (∀ c ∈ (writer.document root).text.toList, Xml.IsChar c) ↔ root.Every AllLegible := by
  have hdeclaration : ∀ c ∈ Writer.declaration.toList, Xml.IsChar c := Xml.isChar_of_all rfl
  have hline : Xml.IsChar '\n' := by decide
  rw [toList_document, List.forall_mem_append, List.forall_mem_cons,
    isChar_elementText_iff root 0 h, and_iff_right hdeclaration, and_iff_right hline]

/-- The document of an element is well-formed exactly if its values are legible. -/
theorem wellFormed_document_iff {root : Element} (h : root.WellNamed)
    (hdistinct : root.Every Distinct) (writer : Writer) :
    Xml.WellFormed (writer.document root).text.toList ↔ root.Every AllLegible := by
  rw [← isChar_document_iff h writer]
  exact ⟨Xml.WellFormed.chars, fun hchars ↦ ⟨hchars, xml_document h hdistinct writer⟩⟩

end Sol25.Document
