import Sol25.Proofs.Analysis.Messages
import Sol25.Proofs.Analysis.Origins
import Sol25.Proofs.Diagnostics
import Sol25.Proofs.Grammar.Expectations
import Sol25.Proofs.LineEnds

/-!
# When a report is one line

A report for people is meant to be one line. What messages are made of is fixed words, numbers, a
character in quotes, and parts that are taken over from the text (`Fault.takenOver`), and a report
is one line if these parts are (`Report.oneLine_human_iff`, `Fault.oneLine_message_iff`). There is
no line feed in names and selectors, of which the analysis speaks, and none in a token that stands
where another one ought to, since no lexeme goes over the end of a line. But one character is taken
over as it is without being part of a lexeme: that behind a backslash which may not precede it. If
it is a line feed, the report is broken there, and no other report is (`oneLine_report_iff`).
-/

set_option autoImplicit false
set_option relaxedAutoImplicit false

namespace Sol25

open Lexis
open Token (Kind)

/-! ### Texts of one line -/

/-- There is no line feed in the text. -/
def OneLine (text : String) : Prop := '\n' ∉ text.toList

instance (text : String) : Decidable (OneLine text) :=
  inferInstanceAs (Decidable ('\n' ∉ text.toList))

theorem oneLine_append_iff {front back : String} :
    OneLine (front ++ back) ↔ OneLine front ∧ OneLine back := by
  rw [OneLine, String.toList_append, List.mem_append, not_or, OneLine, OneLine]

theorem OneLine.append {front back : String} (hfront : OneLine front) (hback : OneLine back) :
    OneLine (front ++ back) :=
  oneLine_append_iff.mpr ⟨hfront, hback⟩

theorem oneLine_ofList_iff {text : List Char} : OneLine (String.ofList text) ↔ '\n' ∉ text := by
  rw [OneLine, String.toList_ofList]

theorem lineFeed_not_mem_toDigits {base : ℕ} (h : 1 < base) (number : ℕ) :
    '\n' ∉ Nat.toDigits base number := by
  have hdigit (digit : ℕ) : '\n' ∉ [digit.digitChar] :=
    List.not_mem_cons_of_ne_of_not_mem (Nat.digitChar_ne '\n' rfl).symm List.not_mem_nil
  induction number using Nat.strongRecOn with
  | _ number ih =>
    -- In front of the last digit are those of the quotient.
    rw [Nat.toDigits_eq_if h]
    split
    · exact hdigit number
    · next hlarge =>
      have hless : number / base < number := Nat.div_lt_self (by omega) h
      rw [List.mem_append, not_or]
      exact ⟨ih _ hless, hdigit _⟩

theorem oneLine_toString (number : ℕ) : OneLine (toString number) := by
  rw [OneLine, Nat.toString_eq_repr, Nat.toList_repr]
  exact lineFeed_not_mem_toDigits (by decide) number

theorem oneLine_char_iff {c : Char} : OneLine c.toString ↔ c ≠ '\n' := by
  rw [OneLine, Char.toString, String.toList_singleton, List.mem_singleton, ne_comm]

/-- A character in quotes is one line even if it is a line feed. -/
theorem oneLine_quoted (c : Char) : OneLine (Text.quoted c) := by
  refine (OneLine.append (by decide) ?_).append (by decide)
  unfold Text.escaped
  split
  -- All the others have an escape of their own.
  case h_7 hline _ _ =>
    split
    · exact oneLine_char_iff.mpr hline
    · have hdigits : OneLine (Text.hexDigits c) :=
        oneLine_ofList_iff.mpr (lineFeed_not_mem_toDigits (by decide) _)
      exact (OneLine.append (by decide) hdigits).append (by decide)
  all_goals decide

/-! ### Messages -/

/-- What a message begins with does not break the line. -/
theorem oneLine_behind_iff {head tail : String} (h : OneLine head) :
    OneLine (head ++ tail) ↔ ∀ part ∈ [tail], OneLine part := by
  rw [oneLine_append_iff, and_iff_right h, List.forall_mem_singleton]

/-- What the message of a defect takes over from elsewhere. -/
def Defect.takenOver : Defect → List String
  | .invalidEscape c => [c.toString]
  | .unexpectedToken expected got => [expected, got]
  | .undefinedClass name | .undefinedVariable name | .variableCollision name
  | .duplicateClass name | .duplicateParameter name | .circularInheritance name => [name]
  | .undefinedMethod className selector => [className, selector]
  | .duplicateMethod className selector => [selector, className]
  | .arityMismatch selector _ _ => [selector]
  | .unexpectedChar _ | .unterminatedComment | .unterminatedString | .nestingTooDeep _
  | .missingRun => []

theorem Defect.oneLine_message_iff (defect : Defect) :
    OneLine defect.message ↔ ∀ part ∈ defect.takenOver, OneLine part := by
  have haround {head first middle second : String} (hhead : OneLine head)
      (hmiddle : OneLine middle) :
      OneLine (head ++ first ++ middle ++ second) ↔ ∀ part ∈ [first, second], OneLine part := by
    rw [oneLine_append_iff, oneLine_append_iff, oneLine_append_iff, and_iff_right hhead,
      and_iff_left hmiddle, List.forall_mem_cons, List.forall_mem_singleton]
  cases defect with
  | unterminatedComment | unterminatedString | missingRun =>
    exact iff_of_true (by decide) (List.forall_mem_nil _)
  | unexpectedChar c =>
    exact iff_of_true (OneLine.append (by decide) (oneLine_quoted c)) (List.forall_mem_nil _)
  | nestingTooDeep limit =>
    exact iff_of_true ((OneLine.append (by decide) (oneLine_toString limit)).append (by decide))
      (List.forall_mem_nil _)
  | invalidEscape _ | undefinedClass _ | undefinedVariable _ | variableCollision _
  | duplicateClass _ | duplicateParameter _ | circularInheritance _ =>
    exact oneLine_behind_iff (by decide)
  | unexpectedToken _ _ | undefinedMethod _ _ | duplicateMethod _ _ =>
    exact haround (by decide) (by decide)
  | arityMismatch selector expected got =>
    have hexpected := oneLine_toString expected
    have hgot := oneLine_toString got
    change OneLine ("Arity mismatch in " ++ selector ++ ": selector takes " ++ toString expected ++
      ", block takes " ++ toString got) ↔ ∀ part ∈ [selector], OneLine part
    rw [oneLine_append_iff, and_iff_left hgot, oneLine_append_iff, and_iff_left (by decide),
      oneLine_append_iff, and_iff_left hexpected, oneLine_append_iff, and_iff_left (by decide),
      oneLine_behind_iff (by decide)]

/-- What the message of a failure takes over from elsewhere. -/
def Failure.takenOver : Failure → List String
  | .arguments reason | .input reason | .output reason | .internal reason => [reason]
  | .missingMain => []

def Fault.takenOver : Fault → List String
  | .located defect _ => defect.takenOver
  | .unlocated failure => failure.takenOver

theorem Fault.oneLine_message_iff (fault : Fault) :
    OneLine fault.message ↔ ∀ part ∈ fault.takenOver, OneLine part := by
  cases fault with
  | located defect _ => exact defect.oneLine_message_iff
  | unlocated failure =>
    cases failure with
    | missingMain => exact iff_of_true (by decide) (List.forall_mem_nil _)
    | arguments _ | input _ | output _ | internal _ => exact oneLine_behind_iff (by decide)

/-- Neither the code nor the place breaks the line, so it is the message that counts. -/
theorem Report.oneLine_human_iff (report : Report) :
    OneLine report.human ↔ OneLine report.message := by
  have hcode := oneLine_toString report.code
  have hhead : OneLine ("error[" ++ toString report.code ++ "]: " ++ report.message) ↔
      OneLine report.message := by
    rw [oneLine_append_iff, and_iff_right]
    exact (OneLine.append (by decide) hcode).append (by decide)
  unfold human
  split
  · exact hhead
  · next place _ =>
    have hline := oneLine_toString place.line
    have hcolumn := oneLine_toString place.column
    rw [oneLine_append_iff, and_iff_left hcolumn, oneLine_append_iff, and_iff_left (by decide),
      oneLine_append_iff, and_iff_left hline, oneLine_append_iff, and_iff_left (by decide)]
    exact hhead

/-! ### Lexemes -/

/-- The spelling of a token does not go over the end of a line. -/
theorem Lexis.Spelled.not_mem_lineFeed {kind : Kind} (h : Spelled kind) :
    '\n' ∉ spelling kind := by
  have hend : Separated [] := nofun
  exact (pattern_spelling h hend).not_mem_lineFeed

/-- Names and selectors are one line. -/
theorem oneLine_of_isNameChar {word : String} (h : ∀ c ∈ word.toList, IsNameChar c) :
    OneLine word := by
  intro hmem
  rcases h _ hmem with hletter | hlow | hcolon
  · exact absurd hletter (by decide)
  · exact absurd hlow (by decide)
  · exact absurd hcolon (by decide)

/-- A message calls a token by its spelling, between words of its own. -/
theorem oneLine_display {kind : Kind} (h : '\n' ∉ spelling kind) : OneLine kind.display := by
  cases kind with
  | keyword _ | builtin _ | ident _ | classIdent _ | selector _ | mark _ =>
    exact (OneLine.append (by decide) h).append (by decide)
  | stringLit body =>
    have hbody : OneLine body := fun hmem ↦
      h (List.mem_cons_of_mem _ (List.mem_append_left _ hmem))
    exact (OneLine.append (by decide) hbody).append (by decide)
  | intLit digits => exact OneLine.append (by decide) h
  | eof => decide

/-! ### Faults of the analysis -/

section

variable {program : Program} {expr : Expr} {fault : Fault}

theorem oneLine_of_className?_eq_some {name : String} (h : expr.WellFormed)
    (hname : expr.className? = some name) : OneLine name := by
  cases expr with
  | literal kind value span =>
    cases kind with
    | className =>
      obtain rfl := Option.some.inj hname
      exact oneLine_of_isNameChar (UpperWord.isNameChar h)
    | _ => cases hname
  | _ => cases hname

/-- What is said about an expression is taken over from its names and selectors. -/
theorem Expr.Blamed.oneLine_of_mem_takenOver (h : expr.Blamed fault) (hwell : expr.WellFormed) :
    ∀ part ∈ fault.takenOver, OneLine part := by
  cases h with
  | className value span =>
    exact List.forall_mem_singleton.mpr (oneLine_of_isNameChar (UpperWord.isNameChar hwell))
  | name name span =>
    have hname : OneLine name := by
      rcases hwell with hname | rfl | rfl
      · exact oneLine_of_isNameChar hname.1.isNameChar
      · decide
      · decide
    exact List.forall_mem_singleton.mpr hname
  | message hname selector args span =>
    rw [Expr.WellFormed] at hwell
    exact List.forall_mem_cons.mpr ⟨oneLine_of_className?_eq_some hwell.1 hname,
      List.forall_mem_singleton.mpr (oneLine_of_isNameChar hwell.2.1.isNameChar)⟩
  | param hparam body span =>
    rw [Expr.WellFormed, Block.WellFormed] at hwell
    exact List.forall_mem_singleton.mpr (oneLine_of_isNameChar (hwell.1 _ hparam).1.isNameChar)
  | @target body assignment hassignment params span =>
    rw [Expr.WellFormed, Block.WellFormed] at hwell
    have hwell := Assignment.allWellFormed_iff.mp hwell.2 _ hassignment
    obtain ⟨target, value⟩ := assignment
    rw [Assignment.WellFormed] at hwell
    exact List.forall_mem_singleton.mpr (oneLine_of_isNameChar hwell.1.1.isNameChar)

theorem Program.Blamed.oneLine_of_mem_takenOver (h : program.Blamed fault)
    (hwell : program.WellFormed) : ∀ part ∈ fault.takenOver, OneLine part := by
  have hname {declared : ClassDef} (hdeclared : declared ∈ program.classes) :
      OneLine declared.name.name :=
    oneLine_of_isNameChar (hwell.classes declared hdeclared).name.1.isNameChar
  have hparent {declared : ClassDef} (hdeclared : declared ∈ program.classes) :
      OneLine declared.parent.name :=
    oneLine_of_isNameChar (hwell.classes declared hdeclared).parent.isNameChar
  have hselector {declared : ClassDef} {method : Method} (hdeclared : declared ∈ program.classes)
      (hmethod : method ∈ declared.methods) : OneLine method.selector :=
    oneLine_of_isNameChar
      ((hwell.classes declared hdeclared).methods method hmethod).selector.isNameChar
  cases h with
  | className hdeclared | lineage hdeclared =>
    exact List.forall_mem_singleton.mpr (hname hdeclared)
  | parent hdeclared => exact List.forall_mem_singleton.mpr (hparent hdeclared)
  | selector hdeclared hmethod =>
    exact List.forall_mem_cons.mpr
      ⟨hselector hdeclared hmethod, List.forall_mem_singleton.mpr (hname hdeclared)⟩
  | arity hdeclared hmethod =>
    exact List.forall_mem_singleton.mpr (hselector hdeclared hmethod)
  | part hpart hblamed => exact hblamed.oneLine_of_mem_takenOver (hwell.of_hasPart hpart)
  | main | run _ => exact List.forall_mem_nil _

end

/-! ### Faults of the stages before -/

variable {text rest : List Char} {tokens : List Token} {comments : List (List Char)}
  {position last : Nat} {fault : Fault}

/-- What readers ask for is one line, and so is the token that they find instead. -/
theorem Session.oneLine_of_mem_takenOver {left : List Token} {reason : Reading.Reason}
    (h : Splits 0 text tokens comments last rest)
    (hclasses : Reading.classes tokens = .error ⟨reason, left⟩) :
    ∀ part ∈ ((Session.ofSplit text left comments).fault reason).takenOver, OneLine part := by
  cases reason with
  | tooDeep => exact List.forall_mem_nil _
  | expected what =>
    have hwhat : OneLine what := by
      have hexpected : ∀ what ∈ Reading.expectations, OneLine what := by decide +kernel
      exact hexpected what (Reading.asks_classes tokens what left hclasses)
    have hgot : OneLine (Session.ofSplit text left comments).nextToken.kind.display := by
      obtain ⟨used, rfl⟩ := Reading.suffix_of_classes_eq_error hclasses
      cases left with
      | nil =>
        have hend : OneLine Kind.eof.display := by decide
        exact hend
      | cons token left =>
        have hspelled : Spelled token.kind := h.spelled token (by simp)
        exact oneLine_display hspelled.not_mem_lineFeed
    exact List.forall_mem_cons.mpr ⟨hwhat, List.forall_mem_singleton.mpr hgot⟩

/-- A string begins here, and a line feed behind a backslash spoils it. -/
def Lexis.SpoiltByLineFeed (rest : List Char) : Prop :=
  ∃ body more, StringBody body ∧ rest = '\'' :: (body ++ '\\' :: '\n' :: more)

theorem Lexis.SpoiltByLineFeed.exists_stuck (h : SpoiltByLineFeed rest) (position : Nat) :
    ∃ span, Stuck position rest (.located (.invalidEscape '\n') span) := by
  obtain ⟨body, more, hbody, rfl⟩ := h
  exact ⟨_, .string hbody (.escape (by decide) more)⟩

theorem Lexis.Stuck.oneLine_of_mem_takenOver (h : Stuck position rest fault)
    (hrest : ¬ SpoiltByLineFeed rest) : ∀ part ∈ fault.takenOver, OneLine part := by
  cases h with
  | comment _ | unexpected _ _ _ _ => exact List.forall_mem_nil _
  | @string body tail defect used hbody htail =>
    cases htail with
    | textEnd | lineFeed _ | backslash => exact List.forall_mem_nil _
    | @escape c hc more =>
      refine List.forall_mem_singleton.mpr (oneLine_char_iff.mpr ?_)
      rintro rfl
      exact hrest ⟨body, more, hbody, rfl⟩

/-! ### Reports -/

/-- The text splits up to a string that a line feed behind a backslash spoils. Nothing is wrong with
what stands in front of it. -/
def EscapesLineFeed (text : List Char) : Prop :=
  ∃ tokens comments last rest, Splits 0 text tokens comments last rest ∧ SpoiltByLineFeed rest

theorem EscapesLineFeed.exists_documentOf_eq_error (h : EscapesLineFeed text) :
    ∃ span, documentOf text = .error (.located (.invalidEscape '\n') span) := by
  obtain ⟨tokens, comments, last, rest, hsplits, hrest⟩ := h
  obtain ⟨span, hstuck⟩ := hrest.exists_stuck last
  exact ⟨span, by rw [documentOf, Program.ofText_of_stuck hsplits hstuck]⟩

/-- Whatever keeps a text from having a document, all that its message takes over is one line if no
line feed spoils a string. -/
theorem oneLine_of_mem_takenOver (h : documentOf text = .error fault)
    (htext : ¬ EscapesLineFeed text) : ∀ part ∈ fault.takenOver, OneLine part := by
  rcases exists_of_documentOf_eq_error h with hread | ⟨program, hread, hanalysis⟩
  · rcases Program.exists_of_ofText_eq_error hread with
      ⟨tokens, comments, last, rest, hsplits, hstuck⟩ |
        ⟨tokens, comments, reason, rest, hsplits, hclasses, rfl⟩
    · exact hstuck.oneLine_of_mem_takenOver fun hrest ↦
        htext ⟨tokens, comments, last, rest, hsplits, hrest⟩
    · exact Session.oneLine_of_mem_takenOver hsplits hclasses
  · have hmem := Analyzer.mem_faults_of_analyze_eq_some hanalysis
    exact (Program.blamed_of_mem_faults fault hmem).oneLine_of_mem_takenOver
      (Program.wellFormed_of_ofText_eq_ok hread)

/-- The report of a fault that keeps a text from having a document is one line, unless the fault is
that a line feed behind a backslash spoils a string. Then the report is not one line. -/
theorem oneLine_report_iff (text : List Char) :
    (EscapesLineFeed text →
        ∃ span, documentOf text = .error (.located (.invalidEscape '\n') span)) ∧
      ∀ fault, documentOf text = .error fault →
        (OneLine (Report.ofFault fault (some text)).human ↔ ¬ EscapesLineFeed text) := by
  refine ⟨EscapesLineFeed.exists_documentOf_eq_error, fun fault hfault ↦ ?_⟩
  have hmessage : OneLine (Report.ofFault fault (some text)).human ↔
      ∀ part ∈ fault.takenOver, OneLine part :=
    (Report.oneLine_human_iff _).trans fault.oneLine_message_iff
  rw [hmessage]
  refine ⟨fun hparts htext ↦ ?_, oneLine_of_mem_takenOver hfault⟩
  obtain ⟨span, hescape⟩ := htext.exists_documentOf_eq_error
  obtain rfl := Except.error.inj (hfault.symm.trans hescape)
  exact oneLine_char_iff.mp (hparts _ (List.mem_singleton_self _)) rfl

/-- A backslash in front of a tab is reported in one line, and one in front of a line feed is
not. -/
theorem oneLine_report_of_tab :
    (¬ EscapesLineFeed ['\'', '\\', '\t'] ∧
        OneLine (Report.ofFault (.located (.invalidEscape '\t') ⟨0, 3⟩)
          (some ['\'', '\\', '\t'])).human) ∧
      EscapesLineFeed ['\'', '\\', '\n'] ∧
        ¬ OneLine (Report.ofFault (.located (.invalidEscape '\n') ⟨0, 3⟩)
          (some ['\'', '\\', '\n'])).human := by
  have htab :
      documentOf ['\'', '\\', '\t'] = .error (.located (.invalidEscape '\t') ⟨0, 3⟩) := by
    decide +kernel
  have hlineFeed :
      documentOf ['\'', '\\', '\n'] = .error (.located (.invalidEscape '\n') ⟨0, 3⟩) := by
    decide +kernel
  have hescapes : EscapesLineFeed ['\'', '\\', '\n'] :=
    ⟨[], [], 0, _, .done 0 _, [], [], .nil, rfl⟩
  have hplain : OneLine (Report.ofFault (.located (.invalidEscape '\t') ⟨0, 3⟩)
      (some ['\'', '\\', '\t'])).human := by
    decide +kernel
  exact ⟨⟨((oneLine_report_iff _).2 _ htab).mp hplain, hplain⟩, hescapes,
    fun hline ↦ ((oneLine_report_iff _).2 _ hlineFeed).mp hline hescapes⟩

/-- Not every report is one line: a line feed behind a backslash gets into it as it is. -/
theorem not_oneLine_report_of_escaped_line_feed :
    ¬ ∀ (text : List Char) (fault : Fault), documentOf text = .error fault →
      OneLine (Report.ofFault fault (some text)).human := by
  intro h
  have herror :
      documentOf ['\'', '\\', '\n'] = .error (.located (.invalidEscape '\n') ⟨0, 3⟩) := by
    decide +kernel
  exact absurd (h _ _ herror) (by decide +kernel)

end Sol25
