import Sol25.Proofs.Document.Reader

/-!
# Reading back what a writer has written

A writer puts every tag of an element on a line of its own. Since no value keeps a bracket, a quote
or a carriage return once it is escaped, the reader finds the same tags again (`tags?_document`),
and put together they are the element (`assembled_tagsOf`). All that is asked of the element is that
its names consist of letters (`Element.WellNamed`); the values of its attributes may be any text.
-/

set_option autoImplicit false
set_option relaxedAutoImplicit false

namespace Sol25.Document

/-! ### Values -/

/-- A character that means nothing to a reader of tags. -/
def isSafe (c : Char) : Bool := c ≠ '"' && c ≠ '<' && c ≠ '>' && c ≠ '\r'

/-- The text of a value between its quotes. -/
def escapedText (value : String) : List Char :=
  value.toList.flatMap fun c ↦ (escaped c).toList

theorem isSafe_iff {c : Char} : isSafe c ↔ c ≠ '"' ∧ c ≠ '<' ∧ c ≠ '>' ∧ c ≠ '\r' := by
  simp [isSafe, and_assoc]

theorem isSafe_of_mem_escaped (c : Char) : ∀ other ∈ (escaped c).toList, isSafe other := by
  unfold escaped
  split
  · exact List.all_eq_true.mp rfl
  · exact List.all_eq_true.mp rfl
  · exact List.all_eq_true.mp rfl
  · exact List.all_eq_true.mp rfl
  · exact List.all_eq_true.mp rfl
  · exact List.all_eq_true.mp rfl
  · exact List.all_eq_true.mp rfl
  · next hamp hlt hgt hquote hline hreturn htab =>
    intro other hother
    rw [Char.toString_eq_singleton, String.toList_singleton, List.mem_singleton] at hother
    subst hother
    exact isSafe_iff.mpr ⟨hquote, hlt, hgt, hreturn⟩

theorem isSafe_of_mem_escapedText (value : String) : ∀ c ∈ escapedText value, isSafe c := by
  intro c hc
  obtain ⟨source, -, hsource⟩ := List.mem_flatMap.mp hc
  exact isSafe_of_mem_escaped source c hsource

theorem resolved_escaped_append (c : Char) (rest : List Char) :
    resolved ((escaped c).toList ++ rest) = (resolved rest).map (c :: ·) := by
  unfold escaped
  split
  · exact rfl
  · exact rfl
  · exact rfl
  · exact rfl
  · exact rfl
  · exact rfl
  · exact rfl
  · next hamp hlt hgt hquote hline hreturn htab =>
    have hplain : plain c = c := by
      rw [plain, if_neg]
      rintro (rfl | rfl | rfl)
      · exact htab rfl
      · exact hline rfl
      · exact hreturn rfl
    have hne : c ≠ '&' ∧ c ≠ '<' := ⟨hamp, hlt⟩
    rw [Char.toString_eq_singleton, String.toList_singleton, List.singleton_append,
      resolved_cons_of_ne hne, hplain]

/-- Escaping loses nothing. -/
theorem resolved_escapedText (value : String) :
    resolved (escapedText value) = some value.toList := by
  unfold escapedText
  induction value.toList with
  | nil => rfl
  | cons c rest ih => rw [List.flatMap_cons, resolved_escaped_append, ih, Option.map_some]

/-! ### Names and attributes -/

/-- A name of letters. -/
def IsName (name : String) : Prop := name.toList ≠ [] ∧ ∀ c ∈ name.toList, c.isAlpha

theorem isSafe_of_isAlpha {c : Char} (h : c.isAlpha) : isSafe c := by
  refine isSafe_iff.mpr ⟨?_, ?_, ?_, ?_⟩ <;> rintro rfl <;> exact absurd h (by decide)

theorem toList_text (self : Attribute) :
    self.text.toList =
      ' ' :: (self.name.toList ++ '=' :: '"' :: (escapedText self.value ++ ['"'])) := by
  have hvalue : (String.join (self.value.toList.map escaped)).toList = escapedText self.value := by
    rw [String.toList_join, List.flatMap_map, escapedText]
  have hblank : " ".toList = [' '] := rfl
  have hopen : "=\"".toList = ['=', '"'] := rfl
  have hclose : "\"".toList = ['"'] := rfl
  rw [Attribute.text, String.toList_append, String.toList_append, String.toList_append,
    String.toList_append, hvalue, hblank, hopen, hclose]
  simp

/-- The text of the attributes. -/
theorem toList_attributesText (attributes : List Attribute) :
    (attributesText attributes).toList = attributes.flatMap fun self ↦ self.text.toList := by
  rw [attributesText, String.toList_join, List.flatMap_map]

theorem pieces_append {piece : List Char} (h : ∀ c ∈ piece, c ≠ '"') (rest : List Char) :
    pieces (piece ++ '"' :: rest) = piece :: pieces rest := by
  induction piece with
  | nil => rw [List.nil_append, pieces, if_pos rfl]
  | cons c piece ih =>
    obtain ⟨hc, hpiece⟩ := List.forall_mem_cons.mp h
    rw [List.cons_append, pieces, if_neg hc, ih hpiece]

/-- Attributes are read back, and whatever stands behind them tells whether the tag closes itself.
-/
theorem attributes?_attributesText {attributes : List Attribute}
    (h : ∀ self ∈ attributes, IsName self.name) (closed : Bool) :
    attributes? (pieces ((attributesText attributes).toList ++ if closed then ['/'] else [])) =
      some (attributes, closed) := by
  rw [toList_attributesText]
  induction attributes with
  | nil => cases closed <;> rfl
  | cons self others ih =>
    obtain ⟨hself, hothers⟩ := List.forall_mem_cons.mp h
    have hassigned : ∀ c ∈ ' ' :: (self.name.toList ++ ['=']), c ≠ '"' := by
      intro c hc
      rcases List.mem_cons.mp hc with rfl | hc
      · decide
      rcases List.mem_append.mp hc with hc | hc
      · exact (isSafe_iff.mp (isSafe_of_isAlpha (hself.2 c hc))).1
      · rw [List.mem_singleton.mp hc]
        decide
    have hvalue : ∀ c ∈ escapedText self.value, c ≠ '"' := fun c hc ↦
      (isSafe_iff.mp (isSafe_of_mem_escapedText self.value c hc)).1
    have hsplit : (self :: others).flatMap (fun self ↦ self.text.toList) ++
        (if closed then ['/'] else []) =
        (' ' :: (self.name.toList ++ ['='])) ++ '"' :: (escapedText self.value ++ '"' ::
          (others.flatMap (fun self ↦ self.text.toList) ++ if closed then ['/'] else [])) := by
      rw [List.flatMap_cons, toList_text]
      simp
    have hlast : (self.name.toList ++ ['=']).getLast? = some '=' := List.getLast?_concat
    rw [hsplit, pieces_append hassigned, pieces_append hvalue, attributes?, if_pos hlast,
      resolved_escapedText, ih hothers, List.dropLast_concat, String.ofList_toList]
    change some ((⟨self.name, String.ofList self.value.toList⟩ : Attribute) :: others, closed) = _
    rw [String.ofList_toList]

/-! ### Tags -/

/-- What stands between the brackets of a tag. -/
def Tag.text : Tag → List Char
  | .opening name attributes => name.toList ++ (attributesText attributes).toList
  | .leaf name attributes => name.toList ++ (attributesText attributes).toList ++ ['/']
  | .closing name => '/' :: name.toList

/-- The names in a tag consist of letters. -/
def Tag.WellNamed : Tag → Prop
  | .opening name attributes => IsName name ∧ ∀ self ∈ attributes, IsName self.name
  | .leaf name attributes => IsName name ∧ ∀ self ∈ attributes, IsName self.name
  | .closing name => IsName name

/-- No attribute begins with a letter. -/
theorem takeWhile_attributesText (attributes : List Attribute) (closed : Bool) :
    ((attributesText attributes).toList ++ if closed then ['/'] else []).takeWhile Char.isAlpha =
      [] := by
  rw [toList_attributesText]
  cases attributes with
  | nil => cases closed <;> rfl
  | cons self others =>
    rw [List.flatMap_cons, toList_text]
    rfl

theorem dropWhile_of_takeWhile {p : Char → Bool} {front back : List Char}
    (h : (front ++ back).takeWhile p = front) : (front ++ back).dropWhile p = back := by
  have hwhole := List.takeWhile_append_dropWhile (p := p) (l := front ++ back)
  rw [h] at hwhole
  exact List.append_cancel_left hwhole

theorem Tag.ofText_of_head_ne {text : List Char} (h : text.head? ≠ some '/') :
    Tag.ofText text =
      (attributes? (pieces (text.dropWhile Char.isAlpha))).map fun read ↦
        if read.2 then .leaf (String.ofList (text.takeWhile Char.isAlpha)) read.1
        else .opening (String.ofList (text.takeWhile Char.isAlpha)) read.1 := by
  unfold Tag.ofText
  split
  · exact absurd rfl h
  · cases attributes? (pieces (text.dropWhile Char.isAlpha)) <;> rfl

theorem Tag.ofText_of_isName {name : String} {attributes : List Attribute} (hname : IsName name)
    (h : ∀ self ∈ attributes, IsName self.name) (closed : Bool) :
    Tag.ofText (name.toList ++
        ((attributesText attributes).toList ++ if closed then ['/'] else [])) =
      some (if closed then .leaf name attributes else .opening name attributes) := by
  obtain ⟨hne, hletters⟩ := hname
  have htake : (name.toList ++ ((attributesText attributes).toList ++
      if closed then ['/'] else [])).takeWhile Char.isAlpha = name.toList := by
    rw [List.takeWhile_append_of_pos hletters, takeWhile_attributesText, List.append_nil]
  have hhead : (name.toList ++ ((attributesText attributes).toList ++
      if closed then ['/'] else [])).head? ≠ some '/' := by
    obtain ⟨first, letters, hfirst⟩ := List.exists_cons_of_ne_nil hne
    rw [hfirst, List.cons_append, List.head?_cons, Ne, Option.some.injEq]
    rintro rfl
    exact absurd (hletters '/' (hfirst ▸ List.mem_cons_self)) (by decide)
  rw [Tag.ofText_of_head_ne hhead, dropWhile_of_takeWhile htake, attributes?_attributesText h,
    htake, String.ofList_toList, Option.map_some]

/-- A tag is read back from its text. -/
theorem Tag.ofText_text {tag : Tag} (h : tag.WellNamed) : Tag.ofText tag.text = some tag := by
  cases tag with
  | opening name attributes =>
    have := Tag.ofText_of_isName h.1 h.2 false
    rwa [if_neg Bool.false_ne_true, if_neg Bool.false_ne_true, List.append_nil] at this
  | leaf name attributes =>
    have := Tag.ofText_of_isName h.1 h.2 true
    rwa [if_pos rfl, if_pos rfl, ← List.append_assoc] at this
  | closing name =>
    change some (Tag.closing (String.ofList name.toList)) = _
    rw [String.ofList_toList]

/-! ### The characters of a tag -/

/-- What is true of letters, of escaped values and of the other signs is true of all characters of a
tag. -/
theorem Tag.forall_mem_text {p : Char → Prop} (hletter : ∀ c : Char, c.isAlpha → p c)
    (hvalue : ∀ value : String, ∀ c ∈ escapedText value, p c)
    (hsigns : p ' ' ∧ p '=' ∧ p '"' ∧ p '/') {tag : Tag} (h : tag.WellNamed) :
    ∀ c ∈ tag.text, p c := by
  obtain ⟨hblank, hequals, hquote, hslash⟩ := hsigns
  have hname : ∀ {name : String}, IsName name → ∀ c ∈ name.toList, p c :=
    fun hname c hc ↦ hletter c (hname.2 c hc)
  have hattributes : ∀ {attributes : List Attribute}, (∀ self ∈ attributes, IsName self.name) →
      ∀ c ∈ (attributesText attributes).toList, p c := by
    intro attributes hnames
    rw [toList_attributesText, List.forall_mem_flatMap]
    intro self hself
    rw [toList_text, List.forall_mem_cons, List.forall_mem_append, List.forall_mem_cons,
      List.forall_mem_cons, List.forall_mem_append, List.forall_mem_singleton]
    exact ⟨hblank, hname (hnames self hself), hequals, hquote, hvalue self.value, hquote⟩
  cases tag with
  | opening name attributes =>
    rw [Tag.text, List.forall_mem_append]
    exact ⟨hname h.1, hattributes h.2⟩
  | leaf name attributes =>
    rw [Tag.text, List.forall_mem_append, List.forall_mem_append, List.forall_mem_singleton]
    exact ⟨⟨hname h.1, hattributes h.2⟩, hslash⟩
  | closing name =>
    rw [Tag.text, List.forall_mem_cons]
    exact ⟨hslash, hname h⟩

/-- A character that may stand between the brackets of a tag. -/
def IsTagChar (c : Char) : Prop := c ≠ '<' ∧ c ≠ '>' ∧ c ≠ '\r'

instance (c : Char) : Decidable (IsTagChar c) := inferInstanceAs (Decidable (_ ∧ _))

theorem isTagChar_of_isSafe {c : Char} (h : isSafe c) : IsTagChar c := (isSafe_iff.mp h).2

/-- The text of a tag has no bracket and no carriage return. -/
theorem Tag.isTagChar_text {tag : Tag} (h : tag.WellNamed) : ∀ c ∈ tag.text, IsTagChar c :=
  Tag.forall_mem_text (fun _ hc ↦ isTagChar_of_isSafe (isSafe_of_isAlpha hc))
    (fun value c hc ↦ isTagChar_of_isSafe (isSafe_of_mem_escapedText value c hc)) (by decide) h

/-- No line ends in an escaped value, whatever ends in the value. -/
theorem line_feed_not_mem_escapedText (value : String) : '\n' ∉ escapedText value := by
  intro hmem
  obtain ⟨source, -, hsource⟩ := List.mem_flatMap.mp hmem
  revert hsource
  unfold escaped
  split
  · decide
  · decide
  · decide
  · decide
  · decide
  · decide
  · decide
  · next hline _ _ =>
    rw [Char.toString_eq_singleton, String.toList_singleton, List.mem_singleton]
    exact fun hsource ↦ hline hsource.symm

/-- A tag stands on one line. -/
theorem Tag.line_feed_not_mem_text {tag : Tag} (h : tag.WellNamed) : '\n' ∉ tag.text := by
  have hletter : ∀ c : Char, c.isAlpha → c ≠ '\n' := by
    rintro c hc rfl
    exact absurd hc (by decide)
  have hvalue : ∀ value : String, ∀ c ∈ escapedText value, c ≠ '\n' := by
    rintro value c hc rfl
    exact line_feed_not_mem_escapedText value hc
  exact fun hmem ↦ Tag.forall_mem_text hletter hvalue (by decide) h '\n' hmem rfl

/-! ### Tags and instructions -/

theorem IsName.exists_toList_append_eq {name : String} (h : IsName name) (rest : List Char) :
    ∃ first more, name.toList ++ rest = first :: more ∧ first.isAlpha := by
  obtain ⟨first, letters, hfirst⟩ := List.exists_cons_of_ne_nil h.1
  exact ⟨first, letters ++ rest, by rw [hfirst, List.cons_append],
    h.2 first (hfirst ▸ List.mem_cons_self)⟩

theorem Tag.isInstruction_text {tag : Tag} (h : tag.WellNamed) :
    isInstruction tag.text = false := by
  have hletter : ∀ (name : String) (rest : List Char), IsName name →
      isInstruction (name.toList ++ rest) = false := by
    intro name rest hname
    obtain ⟨first, more, hfirst, halpha⟩ := hname.exists_toList_append_eq rest
    rw [isInstruction, hfirst, List.head?_cons, decide_eq_false_iff_not, Option.some.injEq]
    rintro rfl
    exact absurd halpha (by decide)
  cases tag with
  | opening name attributes => exact hletter name _ h.1
  | leaf name attributes =>
    rw [Tag.text, List.append_assoc]
    exact hletter name _ h.1
  | closing name => rfl

/-! ### Putting tags -/

/-- Writes a tag. -/
def Writer.put (writer : Writer) : Tag → Writer
  | .opening name attributes => writer.opening name attributes
  | .leaf name attributes => writer.leaf name attributes
  | .closing name => writer.closing name

def Writer.putAll (writer : Writer) (tags : List Tag) : Writer := tags.foldl Writer.put writer

/-- How deep a tag is written. -/
def Writer.depthOf (writer : Writer) : Tag → Nat
  | .opening _ _ | .leaf _ _ => writer.depth
  | .closing _ => writer.depth - 1

theorem putAll_cons (writer : Writer) (tag : Tag) (tags : List Tag) :
    writer.putAll (tag :: tags) = (writer.put tag).putAll tags := rfl

theorem putAll_append (writer : Writer) (tags more : List Tag) :
    writer.putAll (tags ++ more) = (writer.putAll tags).putAll more := List.foldl_append

theorem toList_line (tag : String) (writer : Writer) :
    (writer.line tag).text.toList = writer.text.toList ++
      ((Writer.indentation writer.depth).toList ++ (tag.toList ++ ['\n'])) := by
  have hline : "\n".toList = ['\n'] := rfl
  rw [Writer.line, String.toList_append, String.toList_append, String.toList_append, hline]
  simp

/-- A tag stands between its brackets on a line of its own. -/
theorem toList_put (writer : Writer) (tag : Tag) :
    (writer.put tag).text.toList = writer.text.toList ++
      ((Writer.indentation (writer.depthOf tag)).toList ++ '<' :: (tag.text ++ ['>', '\n'])) := by
  have hopen : "<".toList = ['<'] := rfl
  cases tag with
  | opening name attributes =>
    have hclose : ">".toList = ['>'] := rfl
    change (writer.line ("<" ++ name ++ attributesText attributes ++ ">")).text.toList = _
    rw [toList_line, String.toList_append, String.toList_append, String.toList_append, hopen,
      hclose, Writer.depthOf, Tag.text]
    simp
  | leaf name attributes =>
    have hclose : "/>".toList = ['/', '>'] := rfl
    rw [Writer.put, Writer.leaf, toList_line, String.toList_append, String.toList_append,
      String.toList_append, hopen, hclose, Writer.depthOf, Tag.text]
    simp
  | closing name =>
    have hopen : "</".toList = ['<', '/'] := rfl
    have hclose : ">".toList = ['>'] := rfl
    rw [Writer.put, Writer.closing, toList_line, String.toList_append, String.toList_append, hopen,
      hclose, Writer.depthOf, Tag.text]
    simp

/-! ### Lines -/

/-- A tag is found between text without opening brackets. -/
theorem tagTexts_none_append {front : List Char} (h : ∀ c ∈ front, c ≠ '<') (rest : List Char) :
    tagTexts none (front ++ rest) = tagTexts none rest := by
  induction front with
  | nil => rfl
  | cons c front ih =>
    obtain ⟨hc, hfront⟩ := List.forall_mem_cons.mp h
    rw [List.cons_append, tagTexts, if_neg hc, ih hfront]

theorem tagTexts_some_append {text : List Char} (h : ∀ c ∈ text, c ≠ '>')
    (before rest : List Char) :
    tagTexts (some before) (text ++ '>' :: rest) =
      (before.reverse ++ text) :: tagTexts none rest := by
  induction text generalizing before with
  | nil => rw [List.nil_append, tagTexts, if_pos rfl, List.append_nil]
  | cons c text ih =>
    obtain ⟨hc, htext⟩ := List.forall_mem_cons.mp h
    rw [List.cons_append, tagTexts, if_neg hc, ih htext, List.reverse_cons, List.append_assoc,
      List.singleton_append]

theorem normalized_of_not_mem {text : List Char} (h : '\r' ∉ text) : normalized text = text := by
  induction text with
  | nil => rfl
  | cons c rest ih =>
    rw [List.mem_cons, not_or] at h
    rw [normalized, ih h.2]
    · exact fun _ hc ↦ absurd hc.symm h.1
    · exact fun hc ↦ absurd hc.symm h.1

/-- Between the states of a writer, these tags have been written and nothing else. -/
def Writes (tags : List Tag) (before after : Writer) : Prop :=
  ∃ added, after.text.toList = before.text.toList ++ added ∧ '\r' ∉ added ∧
    ∀ rest, tagTexts none (added ++ rest) = tags.map Tag.text ++ tagTexts none rest

theorem Writes.trans {first second : List Tag} {before middle after : Writer}
    (hfirst : Writes first before middle) (hsecond : Writes second middle after) :
    Writes (first ++ second) before after := by
  obtain ⟨added, hadded, hreturn, htags⟩ := hfirst
  obtain ⟨more, hmore, hmoreReturn, hmoreTags⟩ := hsecond
  refine ⟨added ++ more, ?_, ?_, ?_⟩
  · rw [hmore, hadded, List.append_assoc]
  · rw [List.mem_append, not_or]
    exact ⟨hreturn, hmoreReturn⟩
  · intro rest
    rw [List.append_assoc, htags, hmoreTags, List.map_append, List.append_assoc]

theorem toList_indentation (depth : Nat) :
    (Writer.indentation depth).toList = List.replicate (2 * depth) ' ' := by
  have hblanks : "  ".toList = List.replicate 2 ' ' := rfl
  rw [Writer.indentation, String.toList_join, List.flatMap_replicate, hblanks,
    List.flatten_replicate_replicate, Nat.mul_comm]

theorem eq_of_mem_indentation {depth : Nat} {c : Char}
    (h : c ∈ (Writer.indentation depth).toList) : c = ' ' := by
  rw [toList_indentation] at h
  exact List.eq_of_mem_replicate h

theorem writes_put {tag : Tag} (h : tag.WellNamed) (writer : Writer) :
    Writes [tag] writer (writer.put tag) := by
  refine ⟨_, toList_put writer tag, ?_, ?_⟩
  · intro hreturn
    rcases List.mem_append.mp hreturn with hreturn | hreturn
    · exact absurd (eq_of_mem_indentation hreturn) (by decide)
    rcases List.mem_cons.mp hreturn with hreturn | hreturn
    · exact absurd hreturn (by decide)
    rcases List.mem_append.mp hreturn with hreturn | hreturn
    · exact (Tag.isTagChar_text h _ hreturn).2.2 rfl
    · exact absurd hreturn (by decide)
  · intro rest
    have hindentation : ∀ c ∈ (Writer.indentation (writer.depthOf tag)).toList, c ≠ '<' := by
      intro c hc
      rw [eq_of_mem_indentation hc]
      decide
    have htext : ∀ c ∈ tag.text, c ≠ '>' := fun c hc ↦ (Tag.isTagChar_text h c hc).2.1
    have hopen : tagTexts none ('<' :: (tag.text ++ '>' :: '\n' :: rest)) =
        tag.text :: tagTexts none rest := by
      rw [tagTexts, if_pos rfl, tagTexts_some_append htext]
      rfl
    rw [List.append_assoc, tagTexts_none_append hindentation, List.cons_append, List.append_assoc]
    exact hopen

theorem writes_putAll {tags : List Tag} (h : ∀ tag ∈ tags, tag.WellNamed) (writer : Writer) :
    Writes tags writer (writer.putAll tags) := by
  induction tags generalizing writer with
  | nil => exact ⟨[], (List.append_nil _).symm, List.not_mem_nil, fun _ ↦ rfl⟩
  | cons tag tags ih =>
    obtain ⟨htag, htags⟩ := List.forall_mem_cons.mp h
    exact (writes_put htag writer).trans (ih htags (writer.put tag))

/-! ### Elements -/

mutual

/-- The names in an element consist of letters. -/
def Element.WellNamed : Element → Prop
  | ⟨name, attributes, children⟩ =>
    IsName name ∧ (∀ self ∈ attributes, IsName self.name) ∧ Element.AllWellNamed children

def Element.AllWellNamed : List Element → Prop
  | [] => True
  | child :: others => child.WellNamed ∧ Element.AllWellNamed others

end

mutual

/-- The tags of an element. -/
def tagsOf : Element → List Tag
  | ⟨name, attributes, []⟩ => [.leaf name attributes]
  | ⟨name, attributes, child :: children⟩ =>
    .opening name attributes :: (tagsOf child ++ (tagsOfAll children ++ [.closing name]))

def tagsOfAll : List Element → List Tag
  | [] => []
  | child :: children => tagsOf child ++ tagsOfAll children

end

mutual

/-- To write an element is to put its tags one after the other. -/
theorem element_eq_putAll : ∀ (root : Element) (writer : Writer),
    Writer.element root writer = writer.putAll (tagsOf root)
  | ⟨name, attributes, []⟩, writer => by
    rw [Writer.element, tagsOf]
    rfl
  | ⟨name, attributes, child :: children⟩, writer => by
    rw [Writer.element, elements_eq_putAll children, element_eq_putAll child, tagsOf, putAll_cons,
      putAll_append, putAll_append]
    rfl

theorem elements_eq_putAll : ∀ (children : List Element) (writer : Writer),
    Writer.elements children writer = writer.putAll (tagsOfAll children)
  | [], writer => by
    rw [Writer.elements, tagsOfAll]
    rfl
  | child :: children, writer => by
    rw [Writer.elements, elements_eq_putAll children, element_eq_putAll child, tagsOfAll,
      putAll_append]

end

mutual

theorem wellNamed_of_mem_tagsOf : ∀ (root : Element), root.WellNamed →
    ∀ tag ∈ tagsOf root, tag.WellNamed
  | ⟨name, attributes, []⟩, h => by
    rw [Element.WellNamed] at h
    rw [tagsOf, List.forall_mem_singleton]
    exact ⟨h.1, h.2.1⟩
  | ⟨name, attributes, child :: children⟩, h => by
    rw [Element.WellNamed, Element.AllWellNamed] at h
    obtain ⟨hname, hattributes, hchild, hchildren⟩ := h
    rw [tagsOf, List.forall_mem_cons, List.forall_mem_append, List.forall_mem_append,
      List.forall_mem_singleton]
    exact ⟨⟨hname, hattributes⟩, wellNamed_of_mem_tagsOf child hchild,
      wellNamed_of_mem_tagsOfAll children hchildren, hname⟩

theorem wellNamed_of_mem_tagsOfAll : ∀ (children : List Element),
    Element.AllWellNamed children → ∀ tag ∈ tagsOfAll children, tag.WellNamed
  | [], _ => by
    rw [tagsOfAll]
    exact List.forall_mem_nil _
  | child :: children, h => by
    rw [Element.AllWellNamed] at h
    rw [tagsOfAll, List.forall_mem_append]
    exact ⟨wellNamed_of_mem_tagsOf child h.1, wellNamed_of_mem_tagsOfAll children h.2⟩

end

mutual

/-- The tags of an element are put together to the element. -/
theorem assembled_tagsOf : ∀ (root : Element) (tags : List Tag) (stack : List Open)
    (complete : List Element),
    assembled (tagsOf root ++ tags) stack complete = assembled tags stack (root :: complete)
  | ⟨name, attributes, []⟩, tags, stack, complete => by
    rw [tagsOf, List.singleton_append, assembled]
  | ⟨name, attributes, child :: children⟩, tags, stack, complete => by
    rw [tagsOf, List.cons_append, assembled, List.append_assoc, assembled_tagsOf child,
      List.append_assoc, assembled_tagsOfAll children, List.singleton_append, assembled,
      if_pos rfl]
    simp

theorem assembled_tagsOfAll : ∀ (children : List Element) (tags : List Tag) (stack : List Open)
    (complete : List Element),
    assembled (tagsOfAll children ++ tags) stack complete =
      assembled tags stack (children.reverse ++ complete)
  | [], tags, stack, complete => by
    rw [tagsOfAll, List.nil_append, List.reverse_nil, List.nil_append]
  | child :: children, tags, stack, complete => by
    rw [tagsOfAll, List.append_assoc, assembled_tagsOf child, assembled_tagsOfAll children,
      List.reverse_cons, List.append_assoc, List.singleton_append]

end

/-! ### Documents -/

/-- If every item is read, the list of them is. -/
theorem mapM_eq_some_map {α β : Type} {read? : α → Option β} {value : α → β} {items : List α}
    (h : ∀ item ∈ items, read? item = some (value item)) :
    items.mapM read? = some (items.map value) := by
  induction items with
  | nil => rfl
  | cons item items ih =>
    obtain ⟨hitem, hitems⟩ := List.forall_mem_cons.mp h
    rw [List.mapM_cons, hitem, ih hitems]
    rfl

theorem mapM_ofText_map_text {tags : List Tag} (h : ∀ tag ∈ tags, tag.WellNamed) :
    (tags.map Tag.text).mapM Tag.ofText = some tags := by
  have hread : tags.mapM (Tag.ofText ∘ Tag.text) = some (tags.map id) :=
    mapM_eq_some_map fun tag htag ↦ Tag.ofText_text (h tag htag)
  rw [List.mapM_map, hread, List.map_id]

theorem filter_map_text {tags : List Tag} (h : ∀ tag ∈ tags, tag.WellNamed) :
    (tags.map Tag.text).filter (!isInstruction ·) = tags.map Tag.text := by
  apply List.filter_eq_self.mpr
  intro text htext
  obtain ⟨tag, htag, rfl⟩ := List.mem_map.mp htext
  rw [Tag.isInstruction_text (h tag htag), Bool.not_false]

/-- What stands between the brackets of the declaration. -/
def declarationText : List Char := "?xml version=\"1.0\" encoding=\"UTF-8\"?".toList

theorem toList_line_declaration :
    (Writer.fresh.line Writer.declaration).text.toList =
      '<' :: (declarationText ++ ['>', '\n']) := rfl

/-- What was written before does not matter to a document. -/
theorem document_eq (root : Element) (writer : Writer) :
    writer.document root = Writer.element root (Writer.fresh.line Writer.declaration) := rfl

/-- The tags of a document are those of its root. -/
theorem tags?_document {root : Element} (h : root.WellNamed) (writer : Writer) :
    tags? (writer.document root).text.toList = some (tagsOf root) := by
  have hwellNamed := wellNamed_of_mem_tagsOf root h
  obtain ⟨added, hadded, hreturn, htags⟩ :=
    writes_putAll hwellNamed (Writer.fresh.line Writer.declaration)
  rw [← element_eq_putAll] at hadded
  have hwhole : (writer.document root).text.toList =
      '<' :: (declarationText ++ '>' :: '\n' :: added) := by
    rw [document_eq, hadded, toList_line_declaration, List.cons_append, List.append_assoc]
    rfl
  have hnormalized : normalized (writer.document root).text.toList =
      (writer.document root).text.toList := by
    apply normalized_of_not_mem
    rw [document_eq, hadded, toList_line_declaration, List.mem_append, not_or]
    exact ⟨by decide, hreturn⟩
  have hdeclaration : ∀ c ∈ declarationText, c ≠ '>' := by
    simpa using (List.all_eq_true.mp rfl : ∀ c ∈ declarationText, (c != '>') = true)
  have hadd := htags []
  rw [List.append_nil, tagTexts, List.append_nil] at hadd
  have htexts : tagTexts none (writer.document root).text.toList =
      declarationText :: (tagsOf root).map Tag.text := by
    rw [hwhole, tagTexts, if_pos rfl, tagTexts_some_append hdeclaration, ← hadd]
    rfl
  have hfilter : (declarationText :: (tagsOf root).map Tag.text).filter (!isInstruction ·) =
      (tagsOf root).map Tag.text := by
    rw [List.filter_cons_of_neg, filter_map_text hwellNamed]
    exact Bool.false_ne_true
  rw [tags?, hnormalized, htexts, hfilter, mapM_ofText_map_text hwellNamed]

/-- The root of a document is read back. -/
theorem assembled_tagsOf_root (root : Element) : assembled (tagsOf root) [] [] = some [root] := by
  have := assembled_tagsOf root [] [] []
  rw [List.append_nil] at this
  rw [this, assembled, List.reverse_singleton]

end Sol25.Document
