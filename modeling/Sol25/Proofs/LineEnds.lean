import Sol25.Proofs.Category
import Sol25.Proofs.Layout
import Sol25.Proofs.Lexis.Boundary
import Sol25.Report

/-!
# Line ends do not matter

A text may end its lines with a line feed or with a carriage return and a line feed. To put a
carriage return in front of every line feed (`Text.toCrlf`) changes the document in its description
alone, and it keeps every fault in the line and the column in which it was reported
(`documentOf_toCrlf`). The fault itself stays the same too (`Fault.Twin`), unless a backslash stands
in front of a line feed: then the carriage return is what spoils the escape.

Offsets are carried on by the carriage returns in front of them (`Text.carried`), and the text in
front of an offset that is carried on ends in the same line and column. Blanks stay blanks and no
lexeme goes over the end of a line, so a text splits alike, with its tokens moved
(`Lexis.Splits.toCrlf`), and is stuck alike (`Lexis.Stuck.toCrlf`). The other stages see no more of
it than the places and the description.
-/

set_option autoImplicit false
set_option relaxedAutoImplicit false

namespace Sol25

/-! ### Carriage returns in front of line feeds -/

namespace Text

variable {c : Char} {text : List Char}

/-- The text with a carriage return in front of every line feed. -/
def toCrlf (text : List Char) : List Char :=
  text.flatMap fun c ↦ if c = '\n' then ['\r', '\n'] else [c]

theorem toCrlf_append (front back : List Char) :
    toCrlf (front ++ back) = toCrlf front ++ toCrlf back :=
  List.flatMap_append

theorem toCrlf_cons_of_ne (h : c ≠ '\n') (text : List Char) :
    toCrlf (c :: text) = c :: toCrlf text := by
  rw [toCrlf, List.flatMap_cons, if_neg h]
  rfl

theorem toCrlf_eq_self (h : '\n' ∉ text) : toCrlf text = text := by
  induction text with
  | nil => rfl
  | cons c text ih =>
    rw [toCrlf_cons_of_ne (Ne.symm (List.ne_of_not_mem_cons h)),
      ih (List.not_mem_of_not_mem_cons h)]

theorem not_mem_toCrlf (hc : c ≠ '\r') (h : c ∉ text) : c ∉ toCrlf text := by
  induction text with
  | nil => exact h
  | cons first text ih =>
    have hrest := ih (List.not_mem_of_not_mem_cons h)
    by_cases hfirst : first = '\n'
    · subst hfirst
      exact List.not_mem_cons_of_ne_of_not_mem hc
        (List.not_mem_cons_of_ne_of_not_mem (List.ne_of_not_mem_cons h) hrest)
    · rw [toCrlf_cons_of_ne hfirst]
      exact List.not_mem_cons_of_ne_of_not_mem (List.ne_of_not_mem_cons h) hrest

/-- Where the character at this offset stands once the carriage returns are there. -/
def carried (text : List Char) (offset : Nat) : Nat := (toCrlf (text.take offset)).length

theorem toCrlf_eq_append (text : List Char) (offset : Nat) :
    toCrlf text = toCrlf (text.take offset) ++ toCrlf (text.drop offset) := by
  rw [← toCrlf_append, List.take_append_drop]

theorem take_carried (text : List Char) (offset : Nat) :
    (toCrlf text).take (carried text offset) = toCrlf (text.take offset) := by
  rw [toCrlf_eq_append text offset, carried, List.take_left]

theorem monotone_carried (text : List Char) : Monotone (carried text) := by
  intro former latter hle
  have htake : text.take former = (text.take latter).take former := by
    rw [List.take_take, Nat.min_eq_left hle]
  rw [carried, carried, htake, toCrlf_eq_append (text.take latter) former, List.length_append]
  exact Nat.le_add_right _ _

/-- Behind `used`, a text is carried on by as many characters as that has with its carriage
returns. -/
theorem carried_behind {front used rest : List Char} {whole : List Char} {position : Nat}
    (hwhole : front ++ (used ++ rest) = whole) (hposition : front.length = position) :
    front ++ used ++ rest = whole ∧ (front ++ used).length = position + used.length ∧
      carried whole (position + used.length) = carried whole position + (toCrlf used).length := by
  subst hwhole hposition
  refine ⟨List.append_assoc .., List.length_append, ?_⟩
  rw [← List.append_assoc, ← List.length_append, carried, carried, List.take_left,
    List.append_assoc, List.take_left, toCrlf_append, List.length_append]

theorem carried_length (text : List Char) : carried text text.length = (toCrlf text).length := by
  rw [carried, List.take_length]

end Text

open Text (toCrlf carried)

/-! ### Lines and columns -/

theorem Location.after_toCrlf (text : List Char) : after (toCrlf text) = after text := by
  have hfrom (place : Location) : (toCrlf text).foldl advance place = text.foldl advance place := by
    induction text generalizing place with
    | nil => rfl
    | cons c text ih =>
      by_cases hc : c = '\n'
      · subst hc
        exact ih _
      · rw [Text.toCrlf_cons_of_ne hc]
        exact ih _
  exact hfrom first

/-- A span that is carried on begins in the line and the column in which it began. -/
theorem Span.location_moved_carried (span : Span) (text : List Char) :
    (span.moved (carried text)).location (toCrlf text) = span.location text := by
  rw [location, location, Span.moved, Text.take_carried, Location.after_toCrlf]

theorem Report.location?_moved_carried (fault : Fault) (text : List Char) :
    (ofFault (fault.moved (carried text)) (some (toCrlf text))).location? =
      (ofFault fault (some text)).location? := by
  cases fault with
  | located defect span => exact congrArg some (span.location_moved_carried text)
  | unlocated failure => rfl

/-! ### Lexemes -/

/-- An escape that is spoiled by a line feed is spoiled by the carriage return in front of it. -/
def Fault.toCrlf : Fault → Fault
  | .located (.invalidEscape '\n') span => .located (.invalidEscape '\r') span
  | fault => fault

theorem Fault.toCrlf_eq_self {fault : Fault}
    (h : ∀ span, fault ≠ .located (.invalidEscape '\n') span) : fault.toCrlf = fault := by
  unfold toCrlf
  split
  · exact absurd rfl (h _)
  · rfl

namespace Lexis

variable {position last : Nat} {text rest lexeme following : List Char} {tokens : List Token}
  {comments : List (List Char)} {kind : Token.Kind} {fault : Fault}

theorem StringBody.not_mem_lineFeed {body : List Char} (h : StringBody body) : '\n' ∉ body := by
  induction h with
  | nil => exact List.not_mem_nil
  | plain hc _ ih => exact List.not_mem_cons_of_ne_of_not_mem hc.2.2.symm ih
  | escape hc _ ih =>
    refine List.not_mem_cons_of_ne_of_not_mem (by decide)
      (List.not_mem_cons_of_ne_of_not_mem ?_ ih)
    rintro rfl
    exact absurd hc (by decide)

/-- No lexeme goes over the end of a line. -/
theorem Pattern.not_mem_lineFeed (h : Pattern following kind lexeme) : '\n' ∉ lexeme := by
  rcases h.no_separator_or_string with hfree | ⟨body, rfl, hbody⟩
  · exact fun hmem ↦ hfree _ hmem (.inl (.inr (.inr (.inr rfl))))
  · have hquoted := hbody.not_mem_lineFeed
    simp [hquoted]

theorem beforeBoundary_toCrlf (text : List Char) :
    beforeBoundary text = beforeBoundary (Text.toCrlf text) := by
  induction text with
  | nil => rfl
  | cons c text ih =>
    by_cases hc : c = '\n'
    · subst hc
      rfl
    · unfold beforeBoundary at ih ⊢
      rw [Text.toCrlf_cons_of_ne hc, List.takeWhile_cons, List.takeWhile_cons, ih]

/-- A text splits alike with carriage returns in it. -/
theorem Splits.toCrlf {whole : List Char} (h : Splits position text tokens comments last rest)
    (front : List Char) (hwhole : front ++ text = whole) (hposition : front.length = position) :
    Splits (carried whole position) (Text.toCrlf text) (tokens.map (Token.moved (carried whole)))
      (comments.map Text.toCrlf) (carried whole last) (Text.toCrlf rest) := by
  induction h generalizing front with
  | done => exact .done _ _
  | @blank position _ c text _ _ _ hc _ ih =>
    rw [← List.singleton_append] at hwhole
    obtain ⟨hbehind, hlength, hadd⟩ := Text.carried_behind hwhole hposition
    have hnext := ih _ hbehind hlength
    rw [List.length_singleton] at hadd
    rw [hadd] at hnext
    by_cases hline : c = '\n'
    · subst hline
      exact .blank (.inr (.inr (.inl rfl))) (.blank hc hnext)
    · rw [Text.toCrlf_cons_of_ne hline] at hnext ⊢
      exact .blank hc hnext
  | @comment position _ body text _ _ _ hbody _ ih =>
    have hquoted (body text : List Char) :
        '"' :: (body ++ '"' :: text) = '"' :: (body ++ ['"']) ++ text := by simp
    have hused (body : List Char) : ('"' :: (body ++ ['"'])).length = body.length + 2 := by simp
    have hcomment : Text.toCrlf ('"' :: (body ++ ['"'])) = '"' :: (Text.toCrlf body ++ ['"']) := by
      rw [Text.toCrlf_cons_of_ne (by decide), Text.toCrlf_append]
      rfl
    rw [hquoted] at hwhole ⊢
    obtain ⟨hbehind, hlength, hadd⟩ := Text.carried_behind hwhole hposition
    rw [hused] at hlength hadd
    rw [hcomment, hused] at hadd
    have hnext := ih _ hbehind hlength
    rw [hadd] at hnext
    rw [Text.toCrlf_append, hcomment, ← hquoted]
    exact .comment (Text.not_mem_toCrlf (by decide) hbody) hnext
  | @lexeme position _ kind lexeme text _ _ _ hlexeme _ ih =>
    obtain ⟨hbehind, hlength, hadd⟩ := Text.carried_behind hwhole hposition
    have hnext := ih _ hbehind hlength
    have hself : Text.toCrlf lexeme = lexeme :=
      Text.toCrlf_eq_self hlexeme.pattern.not_mem_lineFeed
    rw [hself] at hadd
    rw [Text.toCrlf_append, hself, List.map_cons, Token.moved, Span.moved, hadd]
    rw [hadd] at hnext
    exact .lexeme (hlexeme.of_beforeBoundary_eq (beforeBoundary_toCrlf text)) hnext

theorem StringBody.append {body more : List Char} (h : StringBody body) (hmore : StringBody more) :
    StringBody (body ++ more) := by
  induction h with
  | nil => exact hmore
  | plain hc _ ih => exact ih.plain hc
  | escape hc _ ih => exact ih.escape hc

theorem Stuck.exists_span (h : Stuck position rest fault) :
    ∃ defect stop, fault = .located defect ⟨position, stop⟩ := by
  cases h with
  | comment _ | string _ _ | unexpected _ _ _ _ => exact ⟨_, _, rfl⟩

/-- A text is stuck alike with carriage returns in it. -/
theorem Stuck.toCrlf (h : Stuck position rest fault) (start : Nat) :
    ∃ twin, Stuck start (Text.toCrlf rest) twin ∧ twin.placeless = fault.toCrlf.placeless := by
  cases h with
  | comment hbody =>
    rw [Text.toCrlf_cons_of_ne (by decide)]
    exact ⟨_, .comment (Text.not_mem_toCrlf (by decide) hbody), rfl⟩
  | @string body tail defect used hbody htail =>
    rw [Text.toCrlf_cons_of_ne (by decide), Text.toCrlf_append,
      Text.toCrlf_eq_self hbody.not_mem_lineFeed]
    cases htail with
    | textEnd => exact ⟨_, .string hbody .textEnd, rfl⟩
    | lineFeed rest =>
      -- The carriage return belongs to the body.
      have hlonger : StringBody (body ++ ['\r']) := hbody.append (.plain (by decide) .nil)
      have hbehind : body ++ Text.toCrlf ('\n' :: rest) =
          body ++ ['\r'] ++ '\n' :: Text.toCrlf rest := by
        rw [List.append_assoc]
        rfl
      rw [hbehind]
      exact ⟨_, .string hlonger (.lineFeed _), rfl⟩
    | backslash => exact ⟨_, .string hbody .backslash, rfl⟩
    | @escape c hc rest =>
      rw [Text.toCrlf_cons_of_ne (by decide)]
      by_cases hline : c = '\n'
      · subst hline
        exact ⟨_, .string hbody (.escape (by decide) _), rfl⟩
      · rw [Text.toCrlf_cons_of_ne hline, Fault.toCrlf_eq_self (by rintro _ ⟨⟩; exact hline rfl)]
        exact ⟨_, .string hbody (.escape hc _), rfl⟩
  | @unexpected c rest hblank hcomment hstring hnone =>
    have hline : c ≠ '\n' := fun heq ↦ hblank (.inr (.inr (.inr heq)))
    rw [Text.toCrlf_cons_of_ne hline]
    refine ⟨_, .unexpected hblank hcomment hstring fun lexeme following kind hsplit hpattern ↦ ?_,
      rfl⟩
    obtain ⟨first, tail, rfl, -⟩ := hpattern.exists_eq_cons
    obtain ⟨rfl, htail⟩ := List.cons.inj hsplit
    obtain ⟨otherRest, rfl, hagain⟩ := Pattern.exists_of_beforeBoundary_eq
      (List.cons_ne_nil first []) hpattern (fun ⟨_, heq, _⟩ ↦ hstring (List.cons.inj heq).1)
      (htail ▸ (beforeBoundary_toCrlf rest).symm)
    exact hnone (first :: tail) otherRest kind rfl hagain

end Lexis

/-! ### Programs and documents -/

theorem Fault.toCrlf_eq_self_of_category_ne {fault : Fault} (h : fault.category ≠ .lexical) :
    fault.toCrlf = fault := by
  refine toCrlf_eq_self ?_
  rintro span rfl
  exact h rfl

/-- A description with carriage returns in front of its line feeds. -/
def Text.descriptionToCrlf (description? : Option String) : Option String :=
  description?.map fun text ↦ String.ofList (toCrlf text.toList)

def Session.toCrlf (session : Session) : Session :=
  { session with description? := Text.descriptionToCrlf session.description? }

def Program.toCrlf (program : Program) : Program :=
  { program with description? := Text.descriptionToCrlf program.description? }

theorem Session.next_toCrlf (session : Session) :
    session.toCrlf.next.1 = session.next.1.map Program.toCrlf := by
  obtain ⟨ahead, finish, description?⟩ := session
  rw [toCrlf, next, next]
  cases Reading.classes ahead with
  | ok declared => rfl
  | error stop => cases stop.reason <;> rfl

theorem Program.checkedDocument_toCrlf (program : Program) :
    program.toCrlf.checkedDocument =
      program.checkedDocument.map fun _ ↦ program.toCrlf.document := by
  have hanalysis : Analyzer.fresh.analyze program.toCrlf = Analyzer.fresh.analyze program := rfl
  rw [checkedDocument, checkedDocument, hanalysis]
  cases (Analyzer.fresh.analyze program).1 <;> rfl

open Lexis

variable {text : List Char} {tokens : List Token} {comments : List (List Char)}

theorem Session.ofSplit_toCrlf :
    ofSplit (Text.toCrlf text) (tokens.map (Token.moved (carried text)))
        (comments.map Text.toCrlf) =
      ((ofSplit text tokens comments).moved (carried text)).toCrlf := by
  have hdescription : (comments.map Text.toCrlf).head?.map String.ofList =
      Text.descriptionToCrlf (comments.head?.map String.ofList) := by
    rw [List.head?_map, Option.map_map, Text.descriptionToCrlf, Option.map_map]
    exact Option.map_congr fun body _ ↦ by simp
  rw [ofSplit, hdescription, ← Text.carried_length]
  rfl

/-- The program of a text with carriage returns in it is the program of the text where it stands
now, with the carriage returns in its description. -/
theorem Program.ofText_toCrlf (h : Splits 0 text tokens comments text.length []) :
    Program.ofText (Text.toCrlf text) =
      (Session.movedOutcome (carried text) (Program.ofText text)).map Program.toCrlf := by
  have hcrlf := h.toCrlf [] (List.nil_append text) rfl
  rw [Text.carried_length] at hcrlf
  rw [ofText_of_splits hcrlf, Session.ofSplit_toCrlf, Session.next_toCrlf,
    Session.next_moved (Text.monotone_carried text), ofText_of_splits h]

/-- If the text has a document, so has the text with carriage returns in it, and it is that of the
same program but for the description. -/
theorem documentOf_toCrlf_of_eq_ok (h : Splits 0 text tokens comments text.length [])
    {document : String} (hdocument : documentOf text = .ok document) :
    ∃ program, Program.ofText text = .ok program ∧ document = program.document ∧
      documentOf (Text.toCrlf text) = .ok program.toCrlf.document := by
  rw [documentOf_eq_bind] at hdocument
  rw [documentOf_eq_bind, Program.ofText_toCrlf h]
  cases hread : Program.ofText text with
  | error fault =>
    rw [hread] at hdocument
    cases hdocument
  | ok program =>
    rw [hread] at hdocument
    change program.checkedDocument = .ok document at hdocument
    refine ⟨program, rfl, program.eq_document_of_checkedDocument_eq_ok hdocument, ?_⟩
    change (program.toCrlf.moved (carried text)).checkedDocument = _
    rw [Program.checkedDocument_moved, Program.checkedDocument_toCrlf, hdocument]
    rfl

/-- A fault that comes behind the splitting is carried on. -/
theorem documentOf_toCrlf_of_eq_error (h : Splits 0 text tokens comments text.length [])
    {fault : Fault} (hfault : documentOf text = .error fault) :
    documentOf (Text.toCrlf text) = .error (fault.moved (carried text)) := by
  rw [documentOf_eq_bind] at hfault
  rw [documentOf_eq_bind, Program.ofText_toCrlf h]
  cases hread : Program.ofText text with
  | error other =>
    rw [hread] at hfault
    obtain rfl := Except.error.inj hfault
    rfl
  | ok program =>
    rw [hread] at hfault
    change program.checkedDocument = .error fault at hfault
    change (program.toCrlf.moved (carried text)).checkedDocument = _
    rw [Program.checkedDocument_moved, Program.checkedDocument_toCrlf, hfault]
    rfl

/-- Whatever is wrong with a text that can be split has nothing to do with the lexemes in it. -/
theorem category_ne_lexical_of_splits (h : Splits 0 text tokens comments text.length [])
    {fault : Fault} (hfault : documentOf text = .error fault) : fault.category ≠ .lexical := by
  rcases exists_of_documentOf_eq_error hfault with hread | ⟨program, -, hanalysis⟩
  · rw [Program.ofText_of_splits h] at hread
    rw [Session.category_of_next_eq_error hread]
    exact Category.noConfusion
  · intro hlexical
    have hcategory := Analyzer.ofAnalysis_of_analyze_eq_some hanalysis
    rw [hlexical] at hcategory
    cases hcategory

/-- What becomes of a fault with carriage returns in the text: it is the same but for an escape that
is spoiled by a line feed, and it is reported in the same line and column. -/
structure Fault.Twin (text : List Char) (fault twin : Fault) : Prop where
  placeless : twin.placeless = fault.toCrlf.placeless
  location : (Report.ofFault twin (some (Text.toCrlf text))).location? =
    (Report.ofFault fault (some text)).location?

theorem Fault.twin_moved_carried (text : List Char) {fault : Fault}
    (h : fault.category ≠ .lexical) : fault.Twin text (fault.moved (carried text)) :=
  ⟨by rw [placeless_moved, toCrlf_eq_self_of_category_ne h],
    Report.location?_moved_carried fault text⟩

theorem exists_twin_of_stuck {last : Nat} {rest : List Char} {fault : Fault}
    (hsplits : Splits 0 text tokens comments last rest) (hstuck : Stuck last rest fault) :
    ∃ twin, documentOf (Text.toCrlf text) = .error twin ∧ fault.Twin text twin := by
  have hcrlf := hsplits.toCrlf [] (List.nil_append text) rfl
  obtain ⟨twin, htwin, hplaceless⟩ := hstuck.toCrlf (carried text last)
  refine ⟨twin, by rw [documentOf, Program.ofText_of_stuck hcrlf htwin], hplaceless, ?_⟩
  obtain ⟨defect, stop, rfl⟩ := hstuck.exists_span
  obtain ⟨twinDefect, twinStop, rfl⟩ := htwin.exists_span
  exact congrArg some ((⟨last, stop⟩ : Span).location_moved_carried text)

/-- Carriage returns in front of the line feeds of a text show up in the description and in nothing
else. A fault is reported in the same line and column, and it stays the same but for an escape that
is spoiled by a line feed. -/
theorem documentOf_toCrlf (text : List Char) :
    (∀ document, documentOf text = .ok document →
        ∃ program, Program.ofText text = .ok program ∧ document = program.document ∧
          documentOf (Text.toCrlf text) = .ok program.toCrlf.document) ∧
      ∀ fault, documentOf text = .error fault →
        ∃ twin, documentOf (Text.toCrlf text) = .error twin ∧ fault.Twin text twin := by
  obtain ⟨tokens, comments, last, rest, hsplits, rfl | ⟨found, hstuck⟩⟩ := exists_splits 0 text
  · obtain rfl := hsplits.last_eq_length
    refine ⟨fun document ↦ documentOf_toCrlf_of_eq_ok hsplits, fun fault hfault ↦ ?_⟩
    exact ⟨_, documentOf_toCrlf_of_eq_error hsplits hfault,
      Fault.twin_moved_carried text (category_ne_lexical_of_splits hsplits hfault)⟩
  · have herror : documentOf text = .error found := by
      rw [documentOf, Program.ofText_of_stuck hsplits hstuck]
    rw [herror]
    refine ⟨by rintro _ ⟨⟩, ?_⟩
    rintro fault ⟨⟩
    exact exists_twin_of_stuck hsplits hstuck

/-- A program that does nothing, behind a comment that is this end of a line. -/
def behindLineEnd (lineEnd : List Char) : List Char :=
  '"' :: (lineEnd ++ '"' :: "class Main:Object\x7brun[|]\x7d".toList)

/-- A program behind a comment with a line feed in it, and a backslash in front of a line feed. -/
theorem documentOf_toCrlf_of_line_feeds :
    (∃ (document : String) (program : Program), documentOf (behindLineEnd ['\n']) = .ok document ∧
        document = program.document ∧
        documentOf (behindLineEnd ['\r', '\n']) = .ok program.toCrlf.document) ∧
      documentOf ['\n', '\'', '\\', '\n'] = .error (.located (.invalidEscape '\n') ⟨1, 4⟩) ∧
      ∃ twin, documentOf ['\r', '\n', '\'', '\\', '\r', '\n'] = .error twin ∧
        twin.placeless = .located (.invalidEscape '\r') Span.nowhere ∧
        (Report.ofFault twin (some ['\r', '\n', '\'', '\\', '\r', '\n'])).location? =
          some ⟨2, 1⟩ := by
  obtain ⟨document, hdocument⟩ : ∃ document, documentOf (behindLineEnd ['\n']) = .ok document :=
    exists_eq_ok_of_isOk (by decide +kernel)
  have herror : documentOf ['\n', '\'', '\\', '\n'] =
      .error (.located (.invalidEscape '\n') ⟨1, 4⟩) := by
    decide +kernel
  refine ⟨?_, herror, ?_⟩
  · obtain ⟨program, -, hprogram, hcrlf⟩ := (documentOf_toCrlf _).1 document hdocument
    have htext : Text.toCrlf (behindLineEnd ['\n']) = behindLineEnd ['\r', '\n'] := by
      decide +kernel
    rw [htext] at hcrlf
    exact ⟨document, program, hdocument, hprogram, hcrlf⟩
  · obtain ⟨twin, htwin, hplaceless, hlocation⟩ := (documentOf_toCrlf _).2 _ herror
    exact ⟨twin, htwin, hplaceless, hlocation⟩

end Sol25
