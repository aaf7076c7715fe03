import Sol25.Fault
import Sol25.Token.Basic

/-!
# What the lexemes look like

A text is made of blanks, comments and lexemes. Here it is said what each of them looks like, and
how a text is split into them, without saying how one goes about it. Every sort of lexeme has a
pattern (`Pattern`). Where several prefixes of a text match, the longest counts, and where the
longest is at once a name and a word with a meaning of its own, the meaning counts (`IsLexeme`).
`Splits` splits a text in front of some rest into blanks, comments and lexemes, and `Stuck` tells
what is wrong with a rest that begins with none of them.

Every text splits up to its end or up to a rest with which something is wrong
(`exists_splits`).
-/

set_option autoImplicit false
set_option relaxedAutoImplicit false

namespace Sol25.Lexis

open Token (Kind)

/-! ### Patterns -/

/-- What may stand between the quotes of a string. -/
inductive StringBody : List Char → Prop
  | nil : StringBody []
  | plain {c : Char} {body : List Char} (hc : c ≠ '\'' ∧ c ≠ '\\' ∧ c ≠ '\n')
      (hbody : StringBody body) : StringBody (c :: body)
  | escape {c : Char} {body : List Char} (hc : c = '\'' ∨ c = 'n' ∨ c = '\\')
      (hbody : StringBody body) : StringBody ('\\' :: c :: body)

/-- The lexeme of a kind, in front of `following`. Only a part of a selector has to do with what
follows: its colon must not be the beginning of an assignment. -/
inductive Pattern (following : List Char) : Kind → List Char → Prop
  | keyword (word : Keyword) : Pattern following (.keyword word) word.text.toList
  | builtin (which : BuiltinClass) : Pattern following (.builtin which) which.name.toList
  | ident {first : Char} {tail : List Char} (hfirst : first.isLower ∨ first = '_')
      (htail : ∀ c ∈ tail, c.isAlphanum ∨ c = '_') :
      Pattern following (.ident (String.ofList (first :: tail))) (first :: tail)
  | classIdent {first : Char} {tail : List Char} (hfirst : first.isUpper)
      (htail : ∀ c ∈ tail, c.isAlphanum) :
      Pattern following (.classIdent (String.ofList (first :: tail))) (first :: tail)
  | selector {first : Char} {tail : List Char} (hfirst : first.isLower ∨ first = '_')
      (htail : ∀ c ∈ tail, c.isAlphanum ∨ c = '_') (hfollowing : following.head? ≠ some '=') :
      Pattern following (.selector (String.ofList (first :: (tail ++ [':']))))
        (first :: (tail ++ [':']))
  | unsigned {first : Char} {tail : List Char} (hfirst : first.isDigit)
      (htail : ∀ c ∈ tail, c.isDigit) :
      Pattern following (.intLit (String.ofList (first :: tail))) (first :: tail)
  | signed {sign first : Char} {tail : List Char} (hsign : sign = '+' ∨ sign = '-')
      (hfirst : first.isDigit) (htail : ∀ c ∈ tail, c.isDigit) :
      Pattern following (.intLit (String.ofList (sign :: first :: tail))) (sign :: first :: tail)
  | string {body : List Char} (hbody : StringBody body) :
      Pattern following (.stringLit (String.ofList body)) ('\'' :: (body ++ ['\'']))
  | mark (sign : Mark) : Pattern following (.mark sign) sign.text.toList

/-- A word with a meaning beyond being a name. -/
def IsReserved : Kind → Prop
  | .keyword _ | .builtin _ => True
  | _ => False

/-- The lexeme is what has to be read in front of `following`. -/
structure IsLexeme (kind : Kind) (lexeme following : List Char) : Prop where
  pattern : Pattern following kind lexeme
  /-- Nothing longer at the same place matches. -/
  longest : ∀ other rest otherKind, other ++ rest = lexeme ++ following →
    Pattern rest otherKind other → other.length ≤ lexeme.length
  /-- A word that has a meaning is not read as a name. -/
  reserved : ∀ otherKind, Pattern following otherKind lexeme → IsReserved otherKind →
    IsReserved kind

/-! ### Splitting a text -/

/-- Blanks separate lexemes and mean nothing. -/
def IsBlank (c : Char) : Prop := c = ' ' ∨ c = '\t' ∨ c = '\r' ∨ c = '\n'

instance (c : Char) : Decidable (IsBlank c) := inferInstanceAs (Decidable (_ ∨ _))

/-- The text at the first position splits into these tokens and comments, up to the rest at the last
position. -/
inductive Splits : (position : Nat) → (text : List Char) → List Token →
    (comments : List (List Char)) → (last : Nat) → (rest : List Char) → Prop
  | done (position : Nat) (text : List Char) : Splits position text [] [] position text
  | blank {position last : Nat} {c : Char} {text rest : List Char} {tokens : List Token}
      {comments : List (List Char)} (hc : IsBlank c)
      (h : Splits (position + 1) text tokens comments last rest) :
      Splits position (c :: text) tokens comments last rest
  | comment {position last : Nat} {body text rest : List Char} {tokens : List Token}
      {comments : List (List Char)} (hbody : '"' ∉ body)
      (h : Splits (position + (body.length + 2)) text tokens comments last rest) :
      Splits position ('"' :: (body ++ '"' :: text)) tokens (body :: comments) last rest
  | lexeme {position last : Nat} {kind : Kind} {lexeme text rest : List Char}
      {tokens : List Token} {comments : List (List Char)} (hlexeme : IsLexeme kind lexeme text)
      (h : Splits (position + lexeme.length) text tokens comments last rest) :
      Splits position (lexeme ++ text)
        (⟨kind, ⟨position, position + lexeme.length⟩⟩ :: tokens) comments last rest

/-- What stands behind the body of a string and keeps the string from being closed, and how many
characters of it belong to the defect. -/
inductive Breaks : List Char → Defect → (used : Nat) → Prop
  | textEnd : Breaks [] .unterminatedString 0
  | lineFeed (rest : List Char) : Breaks ('\n' :: rest) .unterminatedString 0
  | backslash : Breaks ['\\'] .unterminatedString 1
  | escape {c : Char} (hc : ¬ (c = '\'' ∨ c = 'n' ∨ c = '\\')) (rest : List Char) :
      Breaks ('\\' :: c :: rest) (.invalidEscape c) 2

/-- What is wrong with a text that begins with neither a blank nor a comment nor a lexeme. -/
inductive Stuck (position : Nat) : List Char → Fault → Prop
  | comment {body : List Char} (hbody : '"' ∉ body) :
      Stuck position ('"' :: body)
        (.located .unterminatedComment ⟨position, position + (body.length + 1)⟩)
  | string {body tail : List Char} {defect : Defect} {used : Nat} (hbody : StringBody body)
      (htail : Breaks tail defect used) :
      Stuck position ('\'' :: (body ++ tail))
        (.located defect ⟨position, position + (body.length + used + 1)⟩)
  | unexpected {c : Char} {rest : List Char} (hblank : ¬ IsBlank c) (hcomment : c ≠ '"')
      (hstring : c ≠ '\'')
      (hlexeme : ∀ lexeme following kind, lexeme ++ following = c :: rest →
        ¬ Pattern following kind lexeme) :
      Stuck position (c :: rest) (.located (.unexpectedChar c) ⟨position, position + 1⟩)

/-! ### Every text splits -/

/-- Characters of a sort to which no blank and no double quote belongs are neither. -/
theorem not_isBlank_and_ne {p : Char → Bool} {c : Char} (h : p c)
    (hblank : p ' ' = false ∧ p '\t' = false ∧ p '\r' = false ∧ p '\n' = false)
    (hquote : p '"' = false) : ¬ IsBlank c ∧ c ≠ '"' := by
  constructor
  · rintro (rfl | rfl | rfl | rfl)
    · exact Bool.false_ne_true (hblank.1.symm.trans h)
    · exact Bool.false_ne_true (hblank.2.1.symm.trans h)
    · exact Bool.false_ne_true (hblank.2.2.1.symm.trans h)
    · exact Bool.false_ne_true (hblank.2.2.2.symm.trans h)
  · rintro rfl
    exact Bool.false_ne_true (hquote.symm.trans h)

theorem not_isBlank_and_ne_of_leads {c : Char} (h : c.isLower ∨ c = '_') :
    ¬ IsBlank c ∧ c ≠ '"' := by
  rcases h with hlower | rfl
  · exact not_isBlank_and_ne hlower (by decide) (by decide)
  · decide

/-- Lexemes are not empty, and they begin with neither a blank nor a comment. -/
theorem Pattern.exists_eq_cons {following lexeme : List Char} {kind : Kind}
    (h : Pattern following kind lexeme) :
    ∃ first tail, lexeme = first :: tail ∧ ¬ IsBlank first ∧ first ≠ '"' := by
  cases h with
  | keyword word => cases word <;> exact ⟨_, _, rfl, by decide, by decide⟩
  | builtin which => cases which <;> exact ⟨_, _, rfl, by decide, by decide⟩
  | ident hfirst htail => exact ⟨_, _, rfl, not_isBlank_and_ne_of_leads hfirst⟩
  | classIdent hfirst htail =>
    exact ⟨_, _, rfl, not_isBlank_and_ne hfirst (by decide) (by decide)⟩
  | selector hfirst htail hfollowing => exact ⟨_, _, rfl, not_isBlank_and_ne_of_leads hfirst⟩
  | unsigned hfirst htail => exact ⟨_, _, rfl, not_isBlank_and_ne hfirst (by decide) (by decide)⟩
  | signed hsign hfirst htail =>
    refine ⟨_, _, rfl, ?_⟩
    rcases hsign with rfl | rfl <;> decide
  | string hbody => exact ⟨_, _, rfl, by decide, by decide⟩
  | mark sign => cases sign <;> exact ⟨_, _, rfl, by decide, by decide⟩

theorem Pattern.length_pos {following lexeme : List Char} {kind : Kind}
    (h : Pattern following kind lexeme) : 0 < lexeme.length := by
  obtain ⟨first, tail, rfl, -⟩ := h.exists_eq_cons
  exact Nat.succ_pos _

/-- Where anything matches, there is something that has to be read. -/
theorem Pattern.exists_isLexeme {following lexeme : List Char} {kind : Kind}
    (h : Pattern following kind lexeme) :
    ∃ longest rest longestKind, longest ++ rest = lexeme ++ following ∧
      IsLexeme longestKind longest rest := by
  -- Whenever something longer matches, less follows it.
  induction hlength : following.length using Nat.strongRecOn generalizing kind lexeme following with
  | _ length ih =>
    by_cases hlonger : ∃ other rest otherKind, other ++ rest = lexeme ++ following ∧
        Pattern rest otherKind other ∧ lexeme.length < other.length
    · obtain ⟨other, rest, otherKind, hsplit, hother, hlt⟩ := hlonger
      have hrest : rest.length < length := by
        have := congrArg List.length hsplit
        rw [List.length_append, List.length_append] at this
        omega
      obtain ⟨longest, last, longestKind, hlongest, hlexeme⟩ := ih _ hrest hother rfl
      exact ⟨longest, last, longestKind, hlongest.trans hsplit, hlexeme⟩
    have hlongest : ∀ other rest otherKind, other ++ rest = lexeme ++ following →
        Pattern rest otherKind other → other.length ≤ lexeme.length :=
      fun other rest otherKind hsplit hother ↦ Nat.le_of_not_lt fun hlt ↦
        hlonger ⟨other, rest, otherKind, hsplit, hother, hlt⟩
    by_cases hreserved : ∃ otherKind, Pattern following otherKind lexeme ∧ IsReserved otherKind
    · obtain ⟨otherKind, hother, hmeans⟩ := hreserved
      exact ⟨lexeme, following, otherKind, rfl, hother, hlongest, fun _ _ _ ↦ hmeans⟩
    · exact ⟨lexeme, following, kind, rfl, h, hlongest, fun other hother hmeans ↦
        absurd ⟨other, hother, hmeans⟩ hreserved⟩

/-- Behind a quote there is the body of a string, and behind that either the other quote or what
keeps the string from being closed. -/
theorem exists_stringBody (text : List Char) :
    ∃ body tail, text = body ++ tail ∧ StringBody body ∧
      ((∃ rest, tail = '\'' :: rest) ∨ ∃ defect used, Breaks tail defect used) := by
  induction hlength : text.length using Nat.strongRecOn generalizing text with
  | _ length ih =>
    subst hlength
    cases text with
    | nil => exact ⟨[], [], rfl, .nil, .inr ⟨_, _, .textEnd⟩⟩
    | cons c rest =>
      by_cases hquote : c = '\''
      · subst hquote
        exact ⟨[], _, rfl, .nil, .inl ⟨rest, rfl⟩⟩
      by_cases hline : c = '\n'
      · subst hline
        exact ⟨[], _, rfl, .nil, .inr ⟨_, _, .lineFeed rest⟩⟩
      by_cases hbackslash : c = '\\'
      · subst hbackslash
        cases rest with
        | nil => exact ⟨[], _, rfl, .nil, .inr ⟨_, _, .backslash⟩⟩
        | cons escaped rest =>
          by_cases hescape : escaped = '\'' ∨ escaped = 'n' ∨ escaped = '\\'
          · obtain ⟨body, tail, hsplit, hbody, htail⟩ :=
              ih rest.length (by simp only [List.length_cons]; omega) rest rfl
            exact ⟨_, tail, by rw [hsplit]; rfl, hbody.escape hescape, htail⟩
          · exact ⟨[], _, rfl, .nil, .inr ⟨_, _, .escape hescape rest⟩⟩
      · obtain ⟨body, tail, hsplit, hbody, htail⟩ := ih rest.length (Nat.lt_succ_self _) rest rfl
        exact ⟨_, tail, by rw [hsplit]; rfl, hbody.plain ⟨hquote, hbackslash, hline⟩, htail⟩

/-- A text splits up to its end, or up to a rest with which something is wrong. -/
theorem exists_splits (position : Nat) (text : List Char) :
    ∃ tokens comments last rest, Splits position text tokens comments last rest ∧
      (rest = [] ∨ ∃ fault, Stuck last rest fault) := by
  induction hlength : text.length using Nat.strongRecOn generalizing position text with
  | _ length ih =>
    subst hlength
    cases text with
    | nil => exact ⟨[], [], position, [], .done position [], .inl rfl⟩
    | cons c rest =>
      by_cases hblank : IsBlank c
      · obtain ⟨tokens, comments, last, stop, hsplits, hstop⟩ :=
          ih rest.length (Nat.lt_succ_self _) (position + 1) rest rfl
        exact ⟨tokens, comments, last, stop, .blank hblank hsplits, hstop⟩
      by_cases hcomment : c = '"'
      · subst hcomment
        by_cases hclosed : '"' ∈ rest
        · obtain ⟨body, text, rfl, hbody⟩ := List.eq_append_cons_of_mem hclosed
          have hlt : text.length < ('"' :: (body ++ '"' :: text)).length := by
            simp only [List.length_cons, List.length_append]
            omega
          obtain ⟨tokens, comments, last, stop, hsplits, hstop⟩ :=
            ih text.length hlt (position + (body.length + 2)) text rfl
          exact ⟨tokens, body :: comments, last, stop, .comment hbody hsplits, hstop⟩
        · exact ⟨[], [], position, _, .done position _, .inr ⟨_, .comment hclosed⟩⟩
      by_cases hmatches : ∃ lexeme following kind, lexeme ++ following = c :: rest ∧
          Pattern following kind lexeme
      · obtain ⟨lexeme, following, kind, hsplit, hpattern⟩ := hmatches
        obtain ⟨longest, text, longestKind, hlongest, hlexeme⟩ := hpattern.exists_isLexeme
        have hlt : text.length < (c :: rest).length := by
          have := hlexeme.pattern.length_pos
          rw [← hsplit, ← hlongest, List.length_append]
          omega
        obtain ⟨tokens, comments, last, stop, hsplits, hstop⟩ :=
          ih text.length hlt (position + longest.length) text rfl
        rw [← hsplit, ← hlongest]
        exact ⟨_, comments, last, stop, .lexeme hlexeme hsplits, hstop⟩
      refine ⟨[], [], position, c :: rest, .done position _, .inr ?_⟩
      by_cases hstring : c = '\''
      · subst hstring
        obtain ⟨body, tail, rfl, hbody, ⟨following, rfl⟩ | ⟨defect, used, hbreaks⟩⟩ :=
          exists_stringBody rest
        · refine absurd ⟨'\'' :: (body ++ ['\'']), following, _, ?_, .string hbody⟩ hmatches
          simp
        · exact ⟨_, .string hbody hbreaks⟩
      · exact ⟨_, .unexpected hblank hcomment hstring fun lexeme following kind hsplit hpattern ↦
          hmatches ⟨lexeme, following, kind, hsplit, hpattern⟩⟩

theorem Splits.add_length {position last : Nat} {text rest : List Char} {tokens : List Token}
    {comments : List (List Char)} (h : Splits position text tokens comments last rest) :
    position + text.length = last + rest.length := by
  induction h with
  | done => rfl
  | blank _ _ ih =>
    rw [← ih, List.length_cons]
    omega
  | comment _ _ ih =>
    rw [← ih]
    simp only [List.length_cons, List.length_append]
    omega
  | lexeme _ _ ih =>
    rw [← ih, List.length_append]
    omega

end Sol25.Lexis
