import Mathlib.Algebra.Group.Nat.Defs
import Mathlib.Data.List.DropRight
import Mathlib.Data.Prod.Lex
import Mathlib.Order.Nat
import Sol25.Span

/-!
# Lines and columns tell offsets apart

Every character leads onwards, to the next line or to the next column of the line
(`Location.rank_lt_rank_advance`), so the locations of a text come in the order of its offsets, and
no two offsets share one. To go back from a location to the offset, one passes as many line feeds as
there are lines in front and goes on by the columns in front (`Location.offset`). The line counts
the line feeds in front of an offset (`Location.line_after`), and the column the characters behind
the last of them (`Location.column_after`). Neither is greater than one more than the length of the
text, so both can be counted in words of 32 bits (`Location.Words`) unless the text is longer than
such a word can tell. `Span.location_identifies_start` puts this together.
-/

set_option autoImplicit false
set_option relaxedAutoImplicit false

namespace Sol25

namespace Location

variable {text : List Char}

theorem after_append (front back : List Char) :
    after (front ++ back) = back.foldl advance (after front) :=
  List.foldl_append

@[simp] theorem after_concat (text : List Char) (c : Char) :
    after (text ++ [c]) = (after text).advance c :=
  after_append text [c]

/-! ### The order of locations -/

/-- Where a location comes when a text is read: its line decides, and within a line its column. -/
def rank (place : Location) : ℕ ×ₗ ℕ := toLex (place.line, place.column)

/-- Every character leads onwards. -/
theorem rank_lt_rank_advance (place : Location) (c : Char) :
    place.rank < (place.advance c).rank := by
  rw [rank, rank, Prod.Lex.toLex_lt_toLex]
  by_cases hc : c = '\n'
  · simp [advance, hc]
  · simp [advance, hc]

theorem rank_lt_rank_foldl (place : Location) (h : text ≠ []) :
    place.rank < (text.foldl advance place).rank := by
  induction text generalizing place with
  | nil => exact absurd rfl h
  | cons c rest ih =>
    have hfirst := rank_lt_rank_advance place c
    by_cases hrest : rest = []
    · rwa [hrest]
    · exact hfirst.trans (ih _ hrest)

/-! ### What lines and columns count -/

/-- The characters behind the last line feed, or all of them if there is none. -/
def lastLine (text : List Char) : List Char := text.rtakeWhile (· ≠ '\n')

theorem lastLine_concat (text : List Char) (c : Char) :
    lastLine (text ++ [c]) = if c = '\n' then [] else lastLine text ++ [c] := by
  rw [lastLine, List.rtakeWhile_concat]
  by_cases hc : c = '\n'
  · simp [hc]
  · simp [hc, lastLine]

theorem lastLine_eq_self (h : '\n' ∉ text) : lastLine text = text := by
  rw [lastLine, List.rtakeWhile_eq_self_iff]
  intro c hc
  exact decide_eq_true fun heq ↦ h (heq ▸ hc)

theorem length_lastLine_le (text : List Char) : (lastLine text).length ≤ text.length :=
  (List.rtakeWhile_suffix _ _).length_le

theorem lineFeed_not_mem_lastLine (text : List Char) : '\n' ∉ lastLine text := by
  intro hmem
  simpa using List.mem_rtakeWhile_imp hmem

/-- Where there is a line feed, the last line begins behind one. -/
theorem exists_eq_append_lastLine (h : '\n' ∈ text) :
    ∃ front, text = front ++ '\n' :: lastLine text := by
  induction text using List.reverseRecOn with
  | nil => cases h
  | append_singleton text c ih =>
    rw [lastLine_concat]
    by_cases hc : c = '\n'
    · exact ⟨text, by rw [if_pos hc, hc]⟩
    · have hmem : '\n' ∈ text := by simpa [Ne.symm hc] using h
      obtain ⟨front, hfront⟩ := ih hmem
      refine ⟨front, ?_⟩
      rw [if_neg hc, ← List.cons_append, ← List.append_assoc, ← hfront]

theorem line_after (text : List Char) : (after text).line = text.count '\n' + 1 := by
  induction text using List.reverseRecOn with
  | nil => rfl
  | append_singleton text c ih =>
    by_cases hc : c = '\n'
    · simp [advance, hc, ih]
    · simp [advance, hc, ih]

theorem column_after (text : List Char) : (after text).column = (lastLine text).length + 1 := by
  induction text using List.reverseRecOn with
  | nil => rfl
  | append_singleton text c ih =>
    rw [after_concat, lastLine_concat]
    by_cases hc : c = '\n'
    · simp [advance, hc]
    · simp [advance, hc, ih]

theorem line_after_le (text : List Char) : (after text).line ≤ text.length + 1 := by
  rw [line_after]
  exact Nat.succ_le_succ List.count_le_length

theorem column_after_le (text : List Char) : (after text).column ≤ text.length + 1 := by
  rw [column_after]
  exact Nat.succ_le_succ (length_lastLine_le text)

/-! ### The way back -/

/-- The offset right behind so many line feeds. -/
def lineStart : (breaks : Nat) → List Char → Nat
  | 0, _ => 0
  | _ + 1, [] => 0
  | breaks + 1, c :: rest => lineStart (if c = '\n' then breaks else breaks + 1) rest + 1

/-- The offset that has this location in a text. -/
def offset (place : Location) (text : List Char) : Nat :=
  lineStart (place.line - 1) text + (place.column - 1)

theorem lineStart_count_succ (front back : List Char) :
    lineStart (front.count '\n' + 1) (front ++ '\n' :: back) = front.length + 1 := by
  induction front with
  | nil => simp [lineStart]
  | cons c front ih =>
    rw [List.cons_append, lineStart, List.length_cons]
    by_cases hc : c = '\n'
    · simp [hc, ih]
    · simp [hc, ih]

/-- The last line of what stands in front begins where as many line feeds are passed. -/
theorem lineStart_count_add (front back : List Char) :
    lineStart (front.count '\n') (front ++ back) + (lastLine front).length = front.length := by
  by_cases h : '\n' ∈ front
  · obtain ⟨before, hfront⟩ := exists_eq_append_lastLine h
    have hfree := lineFeed_not_mem_lastLine front
    -- From here on the last line is any text without a line feed.
    generalize lastLine front = line at hfront hfree
    subst hfront
    have hcount : (before ++ '\n' :: line).count '\n' = before.count '\n' + 1 := by
      simp [List.count_eq_zero.mpr hfree]
    rw [hcount, List.append_assoc, List.cons_append, lineStart_count_succ, List.length_append,
      List.length_cons]
    omega
  · rw [List.count_eq_zero.mpr h, lastLine_eq_self h, lineStart, Nat.zero_add]

theorem offset_after (front back : List Char) :
    (after front).offset (front ++ back) = front.length := by
  rw [offset, line_after, column_after]
  exact lineStart_count_add front back

/-! ### Words of 32 bits -/

/-- The line and the column in words of 32 bits. A sum that does not fit starts again at zero. -/
structure Words where
  line : UInt32
  column : UInt32

namespace Words

def first : Words := ⟨1, 1⟩

def advance (words : Words) (c : Char) : Words :=
  if c = '\n' then ⟨words.line + 1, 1⟩ else ⟨words.line, words.column + 1⟩

def after (text : List Char) : Words := text.foldl advance first

/-- The location that the words tell. -/
def location (words : Words) : Location := ⟨words.line.toNat, words.column.toNat⟩

theorem toNat_add_one {word : UInt32} (h : word.toNat + 1 < 2 ^ 32) :
    (word + 1).toNat = word.toNat + 1 := by
  rw [UInt32.toNat_add]
  exact Nat.mod_eq_of_lt h

/-- Words that can grow go on like numbers. -/
theorem location_advance {words : Words} (hline : words.line.toNat + 1 < 2 ^ 32)
    (hcolumn : words.column.toNat + 1 < 2 ^ 32) (c : Char) :
    (words.advance c).location = words.location.advance c := by
  by_cases hc : c = '\n'
  · simp [advance, Location.advance, location, hc, toNat_add_one hline]
  · simp [advance, Location.advance, location, hc, toNat_add_one hcolumn]

/-- The words of a text that is not too long tell its location. -/
theorem location_after (h : text.length < 2 ^ 32 - 1) :
    (after text).location = Location.after text := by
  induction text using List.reverseRecOn with
  | nil => rfl
  | append_singleton text c ih =>
    rw [List.length_append, List.length_singleton] at h
    have hwords := ih (by omega)
    have hline := line_after_le text
    have hcolumn := column_after_le text
    rw [← hwords] at hline hcolumn
    change (after text).line.toNat ≤ _ at hline
    change (after text).column.toNat ≤ _ at hcolumn
    have hstep : ((after text).advance c).location = (after text).location.advance c :=
      location_advance (by omega) (by omega) c
    rw [after, List.foldl_concat, Location.after_concat, ← hwords]
    exact hstep

end Words

end Location

/-! ### The locations of spans -/

open Location (lastLine Words)

variable {span former latter : Span} {text : List Char}

/-- Of two spans that start in the text, the one that starts first is located first. -/
theorem Span.rank_location_lt (hlt : former.start < latter.start)
    (hle : latter.start ≤ text.length) :
    (former.location text).rank < (latter.location text).rank := by
  have htake : text.take latter.start =
      text.take former.start ++ (text.take latter.start).drop former.start := by
    have hfront : (text.take latter.start).take former.start = text.take former.start := by
      rw [List.take_take, Nat.min_eq_left hlt.le]
    rw [← hfront, List.take_append_drop]
  have hne : (text.take latter.start).drop former.start ≠ [] := by
    rw [Ne, List.drop_eq_nil_iff, List.length_take]
    omega
  rw [location, location, htake, Location.after_append]
  exact Location.rank_lt_rank_foldl _ hne

/-- The offset of a location is where the span starts, or the end of the text in front of it. -/
theorem Span.offset_location (span : Span) (text : List Char) :
    (span.location text).offset text = min span.start text.length := by
  have hoffset := Location.offset_after (text.take span.start) (text.drop span.start)
  rwa [List.take_append_drop, List.length_take] at hoffset

theorem Span.location_of_length_le (h : text.length ≤ span.start) (stop : Nat) :
    span.location text = (Span.mk text.length stop).location text := by
  rw [location, location, List.take_of_length_le h, List.take_length]

/-- The line and the column in words of 32 bits. -/
def Span.words (span : Span) (text : List Char) : Words := Words.after (text.take span.start)

/-- In a text of fewer than `2 ^ 32 - 1` characters, the location of a span identifies its start.
The later of two starts has the later location, and the start can be found again from the line and
the column. The line counts the line feeds in front of the start, the column counts the characters
behind the last of them, and a start beyond the end counts as the end. Both go into words of 32
bits, and counting in such words comes to the same. -/
theorem Span.location_identifies_start (text : List Char) (h : text.length < 2 ^ 32 - 1) :
    (∀ former latter : Span, former.start < latter.start → latter.start ≤ text.length →
        (former.location text).rank < (latter.location text).rank) ∧
      ∀ span : Span,
        (span.location text).offset text = min span.start text.length ∧
          (span.location text).line = (text.take span.start).count '\n' + 1 ∧
          (span.location text).column = (lastLine (text.take span.start)).length + 1 ∧
          (text.length ≤ span.start →
            ∀ stop, span.location text = (Span.mk text.length stop).location text) ∧
          (span.location text).line < 2 ^ 32 ∧ (span.location text).column < 2 ^ 32 ∧
          (span.words text).location = span.location text := by
  refine ⟨fun _ _ ↦ rank_location_lt, fun span ↦ ?_⟩
  have hlength : (text.take span.start).length ≤ text.length := List.length_take_le' _ _
  have hline := Location.line_after_le (text.take span.start)
  have hcolumn := Location.column_after_le (text.take span.start)
  refine ⟨span.offset_location text, Location.line_after _, Location.column_after _,
    location_of_length_le, ?_, ?_, Words.location_after (by omega)⟩
  · rw [location]
    omega
  · rw [location]
    omega

/-- Behind a carriage return and a line feed, a tab and a letter that is not in ASCII are one column
wide each. -/
theorem Span.location_identifies_start_of_wide_characters :
    ['a', '\r', '\n', '\t', 'é', 'b'].length < 2 ^ 32 - 1 ∧
      (Span.location ⟨2, 3⟩ ['a', '\r', '\n', '\t', 'é', 'b']).rank <
        (Span.location ⟨5, 6⟩ ['a', '\r', '\n', '\t', 'é', 'b']).rank ∧
      Span.location ⟨5, 6⟩ ['a', '\r', '\n', '\t', 'é', 'b'] = ⟨2, 3⟩ ∧
      (Location.mk 2 3).offset ['a', '\r', '\n', '\t', 'é', 'b'] = 5 ∧
      (Span.words ⟨5, 6⟩ ['a', '\r', '\n', '\t', 'é', 'b']).location = ⟨2, 3⟩ := by
  have hlength : ['a', '\r', '\n', '\t', 'é', 'b'].length < 2 ^ 32 - 1 := by decide
  obtain ⟨hrank, hspan⟩ := location_identifies_start _ hlength
  obtain ⟨hoffset, -, -, -, -, -, hwords⟩ := hspan ⟨5, 6⟩
  exact ⟨hlength, hrank ⟨2, 3⟩ ⟨5, 6⟩ (by decide) (by decide), rfl, hoffset, hwords⟩

end Sol25
