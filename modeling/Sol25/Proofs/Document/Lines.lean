import Sol25.Proofs.Document.RoundTrip
import Sol25.Proofs.Document.Xml

/-!
# The lines of a document

Behind its declaration a document consists of lines, and on every line stands one tag. In front of
the tag are two blanks for every element that is open there, and a closing tag stands as deep as its
opening tag. Which tags may follow each other is told by the elements that are open
(`Line.Next`): a closing tag has the name of the innermost one, and it comes only if something
stands in that element, so what has no children closes itself. At the end nothing is open (`Laid`).

A writer counts the open elements and does not know their names. As long as its count is their
number, putting the tag of a line that may stand next adds this line (`Line.Next.toList_put`) and
keeps the count right (`Line.Next.depth_put`), and so it does along all lines that are laid out
(`Laid.reaches`). The tags of an element can be laid out wherever an element may stand
(`exists_laid_tagsOf`), and to write the element is to put its tags one after the other
(`element_eq_putAll`). It follows that a count of zero is never lowered, and that nothing a writer
did before makes a difference (`Program.document_in_lines`).
-/

set_option autoImplicit false
set_option relaxedAutoImplicit false

namespace Sol25.Document

/-! ### Lines -/

/-- An element that is open, and whether anything stands in it already. -/
structure Opened where
  name : String
  filled : Bool

/-- The same elements are open, and now something stands in the innermost one. -/
def fill : List Opened → List Opened
  | [] => []
  | innermost :: outer => ⟨innermost.name, true⟩ :: outer

/-- A tag with two blanks in front of it for every step of its depth. -/
structure Line where
  depth : Nat
  tag : Tag

def Line.text (line : Line) : List Char :=
  List.replicate (2 * line.depth) ' ' ++ '<' :: (line.tag.text ++ ['>'])

variable {stack after : List Opened}

/-- The line may stand next while these elements are open, the innermost first, and behind it those
are. -/
inductive Line.Next : List Opened → Line → List Opened → Prop
  | opening (stack : List Opened) (name : String) (attributes : List Attribute) :
    Next stack ⟨stack.length, .opening name attributes⟩ (⟨name, false⟩ :: fill stack)
  | leaf (stack : List Opened) (name : String) (attributes : List Attribute) :
    Next stack ⟨stack.length, .leaf name attributes⟩ (fill stack)
  /-- An element is closed under its own name, and only if something stands in it. -/
  | closing (stack : List Opened) (name : String) :
    Next (⟨name, true⟩ :: stack) ⟨stack.length, .closing name⟩ stack

/-- The lines close whatever is open and whatever they open. -/
inductive Laid : List Opened → List Line → Prop
  | done : Laid [] []
  | next {stack after : List Opened} {line : Line} {lines : List Line}
      (hnext : line.Next stack after) (hlines : Laid after lines) : Laid stack (line :: lines)

@[simp]
theorem length_fill (stack : List Opened) : (fill stack).length = stack.length := by
  cases stack <;> rfl

@[simp]
theorem fill_fill (stack : List Opened) : fill (fill stack) = fill stack := by
  cases stack <;> rfl

/-! ### Putting the tags of lines -/

/-- If the writer has counted the open elements, it writes the tag as deep as the line stands. -/
theorem Line.Next.depthOf_eq {line : Line} (h : line.Next stack after) {writer : Writer}
    (hdepth : writer.depth = stack.length) : writer.depthOf line.tag = line.depth := by
  cases h with
  | opening name attributes => exact hdepth
  | leaf name attributes => exact hdepth
  | closing name =>
    rw [Writer.depthOf, hdepth, List.length_cons, Nat.add_sub_cancel]

/-- Then it has counted them again. -/
theorem Line.Next.depth_put {line : Line} (h : line.Next stack after) {writer : Writer}
    (hdepth : writer.depth = stack.length) : (writer.put line.tag).depth = after.length := by
  cases h with
  | opening name attributes =>
    rw [List.length_cons, length_fill, ← hdepth]
    rfl
  | leaf name attributes =>
    rw [length_fill, ← hdepth]
    rfl
  | closing name =>
    change writer.depth - 1 = _
    rw [hdepth, List.length_cons, Nat.add_sub_cancel]

theorem Line.Next.toList_put {line : Line} (h : line.Next stack after) {writer : Writer}
    (hdepth : writer.depth = stack.length) :
    (writer.put line.tag).text.toList = writer.text.toList ++ (line.text ++ ['\n']) := by
  rw [Document.toList_put, h.depthOf_eq hdepth, toList_indentation, Line.text]
  simp

/-- Between any two lines the writer has added those in front, and has counted the elements that
those behind will close. -/
theorem Laid.reaches {front back : List Line} (h : Laid stack (front ++ back)) {writer : Writer}
    (hdepth : writer.depth = stack.length) :
    ∃ middle, Laid middle back ∧ (writer.putAll (front.map Line.tag)).depth = middle.length ∧
      (writer.putAll (front.map Line.tag)).text.toList =
        writer.text.toList ++ front.flatMap fun line ↦ line.text ++ ['\n'] := by
  induction front generalizing stack writer with
  | nil =>
    refine ⟨stack, h, hdepth, ?_⟩
    rw [List.flatMap_nil, List.append_nil]
    rfl
  | cons line front ih =>
    cases h with
    | next hnext hlines =>
      obtain ⟨middle, hmiddle, hcounted, htext⟩ := ih hlines (hnext.depth_put hdepth)
      refine ⟨middle, hmiddle, hcounted, ?_⟩
      rw [List.map_cons, putAll_cons, htext, hnext.toList_put hdepth, List.append_assoc,
        List.flatMap_cons]

/-- No count of zero is lowered by these tags. -/
def Writer.NeverSaturates (writer : Writer) (tags : List Tag) : Prop :=
  ∀ before name rest, tags = before ++ .closing name :: rest → 0 < (writer.putAll before).depth

theorem Laid.neverSaturates {lines : List Line} (h : Laid stack lines) {writer : Writer}
    (hdepth : writer.depth = stack.length) : writer.NeverSaturates (lines.map Line.tag) := by
  intro before name rest hsplit
  obtain ⟨front, back, rfl, rfl, hback⟩ := List.map_eq_append_iff.mp hsplit
  obtain ⟨line, lines, rfl, htag, -⟩ := List.map_eq_cons_iff.mp hback
  obtain ⟨middle, hmiddle, hcounted, -⟩ := h.reaches hdepth
  rw [hcounted]
  cases hmiddle with
  | next hnext hlines =>
    cases hnext with
    | opening | leaf => cases htag
    | closing => exact Nat.succ_pos _

/-! ### The tags of an element in lines -/

mutual

/-- Wherever lines may stand behind something, an element may be that. -/
theorem exists_laid_tagsOf : ∀ (root : Element) (stack : List Opened) {rest : List Line},
    Laid (fill stack) rest →
      ∃ lines, lines.map Line.tag = tagsOf root ∧ Laid stack (lines ++ rest)
  | ⟨name, attributes, []⟩, stack, rest, h => by
    rw [tagsOf]
    exact ⟨[⟨stack.length, .leaf name attributes⟩], rfl, .next (.leaf stack name attributes) h⟩
  | ⟨name, attributes, child :: children⟩, stack, rest, h => by
    have hclosing : Laid (⟨name, true⟩ :: fill stack)
        (⟨(fill stack).length, .closing name⟩ :: rest) :=
      .next (.closing (fill stack) name) h
    obtain ⟨others, hothers, hlaidOthers⟩ :=
      exists_laid_tagsOfAll children (⟨name, false⟩ :: fill stack) hclosing
    obtain ⟨first, hfirst, hlaidFirst⟩ :=
      exists_laid_tagsOf child (⟨name, false⟩ :: fill stack) hlaidOthers
    refine ⟨⟨stack.length, .opening name attributes⟩ ::
      (first ++ (others ++ [⟨(fill stack).length, .closing name⟩])), ?_, ?_⟩
    · rw [tagsOf, List.map_cons, List.map_append, List.map_append, hfirst, hothers]
      rfl
    · rw [List.cons_append, List.append_assoc, List.append_assoc]
      exact .next (.opening stack name attributes) hlaidFirst

theorem exists_laid_tagsOfAll : ∀ (children : List Element) (stack : List Opened)
    {rest : List Line}, Laid (fill stack) rest →
      ∃ lines, lines.map Line.tag = tagsOfAll children ∧ Laid (fill stack) (lines ++ rest)
  | [], stack, rest, h => by
    rw [tagsOfAll]
    exact ⟨[], rfl, h⟩
  | child :: children, stack, rest, h => by
    obtain ⟨others, hothers, hlaidOthers⟩ := exists_laid_tagsOfAll children stack h
    obtain ⟨first, hfirst, hlaidFirst⟩ :=
      exists_laid_tagsOf child (fill stack) (by rwa [fill_fill])
    refine ⟨first ++ others, ?_, ?_⟩
    · rw [tagsOfAll, List.map_append, hfirst, hothers]
    · rwa [List.append_assoc]

end

/-! ### Cutting a document into lines -/

theorem splitOn_flatMap_concat {α : Type} [DecidableEq α] {sign : α} {pieces : List (List α)}
    (h : ∀ piece ∈ pieces, sign ∉ piece) :
    (pieces.flatMap (· ++ [sign])).splitOn sign = pieces ++ [[]] := by
  induction pieces with
  | nil => exact List.splitOn_nil sign
  | cons piece pieces ih =>
    obtain ⟨hpiece, hpieces⟩ := List.forall_mem_cons.mp h
    rw [List.flatMap_cons, List.append_assoc, List.singleton_append,
      List.splitOn_append_cons_self_of_not_mem hpiece, ih hpieces, List.cons_append]

theorem Line.line_feed_not_mem_text {line : Line} (h : line.tag.WellNamed) :
    '\n' ∉ line.text := by
  rw [Line.text, List.mem_append, List.mem_cons, List.mem_append, List.mem_singleton]
  rintro (hblank | hbracket | htag | hbracket)
  · exact absurd (List.eq_of_mem_replicate hblank) (by decide)
  · exact absurd hbracket (by decide)
  · exact Tag.line_feed_not_mem_text h htag
  · exact absurd hbracket (by decide)

/-- The lines of the document are the declaration and those of the tags. Nothing stands behind the
last line end. -/
theorem splitOn_toList_document {root : Element} {lines : List Line} (h : root.WellNamed)
    (htags : lines.map Line.tag = tagsOf root) (hlaid : Laid [] lines) (writer : Writer) :
    (writer.document root).text.toList.splitOn '\n' =
      Writer.declaration.toList :: (lines.map Line.text ++ [[]]) := by
  have hpieces : ∀ piece ∈ Writer.declaration.toList :: lines.map Line.text, '\n' ∉ piece := by
    rw [List.forall_mem_cons, List.forall_mem_map]
    refine ⟨by decide, fun line hline ↦ Line.line_feed_not_mem_text ?_⟩
    exact wellNamed_of_mem_tagsOf root h line.tag (htags ▸ List.mem_map_of_mem hline)
  have hwhole : (writer.document root).text.toList =
      (Writer.declaration.toList :: lines.map Line.text).flatMap (· ++ ['\n']) := by
    have hbegun : (Writer.fresh.line Writer.declaration).depth = ([] : List Opened).length := rfl
    rw [← List.append_nil lines] at hlaid
    obtain ⟨-, -, -, htext⟩ := hlaid.reaches hbegun
    rw [document_eq, element_eq_putAll, ← htags, htext, List.flatMap_cons, List.flatMap_map]
    rfl
  rw [hwhole, splitOn_flatMap_concat hpieces, List.cons_append]

/-- Writes the documents of programs, one after the other. -/
def Writer.programs (programs : List Program) (writer : Writer) : Writer :=
  programs.foldl (fun writer program ↦ writer.program program) writer

end Sol25.Document

namespace Sol25

open Document

/-- A document stands in lines, whatever the writer has written before. Every line but the first has
one tag, with two blanks in front of it for every element that is open there. No character of a
value breaks the line, elements are closed under their own names, and those without children close
themselves. At the end the line is complete and no element is open, and at no closing tag was the
count of open elements zero. -/
theorem Program.document_in_lines (earlier : List Program) (program : Program) :
    ((Writer.fresh.programs earlier).program program).text = program.document ∧
    ((Writer.fresh.programs earlier).program program).depth = 0 ∧
    (∃ lines, lines.map Line.tag = tagsOf (programElement program) ∧ Laid [] lines ∧
      program.document.toList.splitOn '\n' =
        Writer.declaration.toList :: (lines.map Line.text ++ [[]]) ∧
      ∀ line ∈ lines, ∀ c ∈ line.tag.text, c ∉ ['<', '>', '\n', '\r']) ∧
    (Writer.fresh.programs earlier).program program =
      (Writer.fresh.line Writer.declaration).putAll (tagsOf (programElement program)) ∧
    (Writer.fresh.line Writer.declaration).NeverSaturates (tagsOf (programElement program)) := by
  have hnamed := wellNamed_programElement program
  obtain ⟨lines, htags, hlaid⟩ := exists_laid_tagsOf (programElement program) [] .done
  rw [List.append_nil] at hlaid
  refine ⟨rfl, depth_element _ _, ⟨lines, htags, hlaid, ?_, ?_⟩, element_eq_putAll _ _, ?_⟩
  · exact splitOn_toList_document hnamed htags hlaid Writer.fresh
  · intro line hline c hc
    have hline : line.tag.WellNamed :=
      wellNamed_of_mem_tagsOf _ hnamed _ (htags ▸ List.mem_map_of_mem hline)
    obtain ⟨hopen, hclose, hreturn⟩ := Tag.isTagChar_text hline c hc
    have hfeed : c ≠ '\n' := fun h ↦ Tag.line_feed_not_mem_text hline (h ▸ hc)
    simp [hopen, hclose, hreturn, hfeed]
  · rw [← htags]
    exact hlaid.neverSaturates rfl

end Sol25
