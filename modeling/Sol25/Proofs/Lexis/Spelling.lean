import Sol25.Proofs.Lexis.Reading

/-!
# How tokens are spelled

Every kind of token has one spelling (`spelling`), and whatever lexeme is read as a token of that
kind is spelled like this (`Pattern.eq_spelling`). Which kinds can be read at all is a matter of
the words in them (`Spelled`): a name must be a word that means nothing else, a part of a selector a
word with a colon behind it, and so on. These are the kinds that lexemes have
(`IsLexeme.spelled`), and the spelling of each is read as that kind wherever a blank, a comment or
the end of the text follows it (`isLexeme_spelling`), so any sequence of them can be written down
with a blank behind each (`exists_splits_of_spelled`).
-/

set_option autoImplicit false
set_option relaxedAutoImplicit false

namespace Sol25.Lexis

open Token (Kind)

variable {first c : Char} {tail lexeme following : List Char} {kind : Kind} {word : String}

/-! ### Words -/

/-- The words that name variables and selectors, keywords among them. -/
def LowerWord (word : String) : Prop :=
  ∃ first tail, word = String.ofList (first :: tail) ∧ (first.isLower ∨ first = '_') ∧
    ∀ c ∈ tail, c.isAlphanum ∨ c = '_'

/-- The words that name classes, built-in ones among them. -/
def UpperWord (word : String) : Prop :=
  ∃ first tail, word = String.ofList (first :: tail) ∧ first.isUpper ∧ ∀ c ∈ tail, c.isAlphanum

/-- A name that is no keyword. -/
def FreeName (word : String) : Prop := LowerWord word ∧ ∀ keyword : Keyword, word ≠ keyword.text

/-- The name of a class that is not built in. -/
def FreeClassName (word : String) : Prop :=
  UpperWord word ∧ ∀ which : BuiltinClass, word ≠ which.name

/-- A word with a colon behind it. Keywords are allowed here. -/
def SelectorPart (part : String) : Prop := ∃ word, LowerWord word ∧ part = word ++ ":"

/-- Digits, maybe behind a sign. -/
def Numeral (digits : String) : Prop :=
  ∃ sign first tail, digits = String.ofList (sign ++ first :: tail) ∧
    (sign = [] ∨ sign = ['+'] ∨ sign = ['-']) ∧ first.isDigit ∧ ∀ c ∈ tail, c.isDigit

/-- The characters of which names and selectors are made. -/
def IsNameChar (c : Char) : Prop := c.isAlphanum ∨ c = '_' ∨ c = ':'

theorem LowerWord.isNameChar (h : LowerWord word) : ∀ c ∈ word.toList, IsNameChar c := by
  obtain ⟨first, tail, rfl, hfirst, htail⟩ := h
  have hletter : first.isLower → first.isAlphanum := by
    intro hlower
    rw [Char.isAlphanum, isAlpha_iff.mpr (.inr hlower), Bool.true_or]
  rw [String.toList_ofList, List.forall_mem_cons]
  exact ⟨hfirst.imp hletter .inl, fun c hc ↦ (htail c hc).imp_right .inl⟩

theorem UpperWord.isNameChar (h : UpperWord word) : ∀ c ∈ word.toList, IsNameChar c := by
  obtain ⟨first, tail, rfl, hfirst, htail⟩ := h
  have hletter : first.isAlphanum := by
    rw [Char.isAlphanum, isAlpha_iff.mpr (.inl hfirst), Bool.true_or]
  rw [String.toList_ofList, List.forall_mem_cons]
  exact ⟨.inl hletter, fun c hc ↦ .inl (htail c hc)⟩

theorem SelectorPart.isNameChar {part : String} (h : SelectorPart part) :
    ∀ c ∈ part.toList, IsNameChar c := by
  obtain ⟨word, hword, rfl⟩ := h
  rw [String.toList_append, List.forall_mem_append]
  exact ⟨hword.isNameChar, List.forall_mem_singleton.mpr (.inr (.inr rfl))⟩

/-- The kinds of token that a text can hold. -/
def Spelled : Kind → Prop
  | .keyword _ | .builtin _ | .mark _ => True
  | .ident name => FreeName name
  | .classIdent name => FreeClassName name
  | .selector part => SelectorPart part
  | .stringLit body => StringBody body.toList
  | .intLit digits => Numeral digits
  | .eof => False

/-! ### Spellings -/

/-- How a token is written. -/
def spelling : Kind → List Char
  | .keyword word => word.text.toList
  | .builtin which => which.name.toList
  | .ident name | .classIdent name => name.toList
  | .selector part => part.toList
  | .stringLit body => '\'' :: (body.toList ++ ['\''])
  | .intLit digits => digits.toList
  | .mark sign => sign.text.toList
  | .eof => []

theorem Pattern.eq_spelling (h : Pattern following kind lexeme) : lexeme = spelling kind := by
  cases h <;> simp [spelling]

/-- Whatever is read as a token can be spelled: a name would not have been read as one if it meant
something else. -/
theorem IsLexeme.spelled (h : IsLexeme kind lexeme following) : Spelled kind := by
  cases h.pattern with
  | keyword | builtin | mark => trivial
  | ident hfirst htail =>
    refine ⟨⟨_, _, rfl, hfirst, htail⟩, fun keyword heq ↦ ?_⟩
    have hkeyword : Pattern following (.keyword keyword) keyword.text.toList := .keyword keyword
    rw [← heq, String.toList_ofList] at hkeyword
    exact h.reserved _ hkeyword trivial
  | classIdent hfirst htail =>
    refine ⟨⟨_, _, rfl, hfirst, htail⟩, fun which heq ↦ ?_⟩
    have hwhich : Pattern following (.builtin which) which.name.toList := .builtin which
    rw [← heq, String.toList_ofList] at hwhich
    exact h.reserved _ hwhich trivial
  | @selector first tail hfirst htail _ =>
    refine ⟨String.ofList (first :: tail), ⟨_, _, rfl, hfirst, htail⟩, ?_⟩
    rw [← String.toList_inj]
    simp
  | unsigned hfirst htail => exact ⟨[], _, _, rfl, .inl rfl, hfirst, htail⟩
  | @signed sign first tail hsign hfirst htail =>
    refine ⟨[sign], _, _, rfl, .inr ?_, hfirst, htail⟩
    exact hsign.imp (congrArg ([·])) (congrArg ([·]))
  | @string body hbody => rwa [Spelled, String.toList_ofList]

/-- What is none of these belongs to a lexeme that is no string. -/
def IsSeparator (c : Char) : Prop := IsBlank c ∨ c = '"'

theorem not_isSeparator {p : Char → Bool} (h : p c)
    (hblank : p ' ' = false ∧ p '\t' = false ∧ p '\r' = false ∧ p '\n' = false)
    (hquote : p '"' = false) : ¬ IsSeparator c :=
  not_or.mpr (not_isBlank_and_ne h hblank hquote)

theorem not_isSeparator_of_isAlphanum (h : c.isAlphanum) : ¬ IsSeparator c :=
  not_isSeparator h (by decide) (by decide)

theorem not_isSeparator_of_wordChar (h : c.isAlphanum ∨ c = '_') : ¬ IsSeparator c := by
  rcases h with h | rfl
  · exact not_isSeparator_of_isAlphanum h
  · exact not_or.mpr (by decide)

theorem not_isSeparator_of_leads (h : first.isLower ∨ first = '_') : ¬ IsSeparator first :=
  not_or.mpr (not_isBlank_and_ne_of_leads h)

theorem not_isSeparator_of_isDigit (h : c.isDigit) : ¬ IsSeparator c :=
  not_isSeparator h (by decide) (by decide)

/-- Where this follows a word or a number, it comes to its end. -/
def Separated (following : List Char) : Prop := ∀ c ∈ following.head?, IsSeparator c

theorem Separated.head?_ne_equals (h : Separated following) : following.head? ≠ some '=' := by
  intro heq
  exact absurd (h '=' heq) (not_or.mpr (by decide))

theorem pattern_spelling (h : Spelled kind) (hfollowing : Separated following) :
    Pattern following kind (spelling kind) := by
  cases kind with
  | keyword word => exact .keyword word
  | builtin which => exact .builtin which
  | mark sign => exact .mark sign
  | ident name =>
    obtain ⟨⟨first, tail, rfl, hfirst, htail⟩, -⟩ := h
    rw [spelling, String.toList_ofList]
    exact .ident hfirst htail
  | classIdent name =>
    obtain ⟨⟨first, tail, rfl, hfirst, htail⟩, -⟩ := h
    rw [spelling, String.toList_ofList]
    exact .classIdent hfirst htail
  | selector part =>
    obtain ⟨word, ⟨first, tail, rfl, hfirst, htail⟩, rfl⟩ := h
    have hpart : String.ofList (first :: tail) ++ ":" =
        String.ofList (first :: (tail ++ [':'])) := by
      rw [← String.toList_inj]
      simp
    rw [spelling, hpart, String.toList_ofList]
    exact .selector hfirst htail hfollowing.head?_ne_equals
  | stringLit body =>
    have hpattern : Pattern following _ _ := .string h
    rwa [String.ofList_toList] at hpattern
  | intLit digits =>
    obtain ⟨sign, first, tail, rfl, rfl | rfl | rfl, hfirst, htail⟩ := h <;>
      rw [spelling, String.toList_ofList]
    · exact .unsigned hfirst htail
    · exact .signed (.inl rfl) hfirst htail
    · exact .signed (.inr rfl) hfirst htail
  | eof => exact h.elim

/-- Words with a meaning are made of letters. -/
theorem Pattern.isAlpha_of_isReserved (h : Pattern following kind lexeme)
    (hkind : IsReserved kind) :
    ∃ first tail, lexeme = first :: tail ∧ first.isAlpha ∧ ∀ c ∈ tail, c.isAlphanum := by
  cases h with
  | keyword word =>
    obtain ⟨first, tail, heq, hfirst, htail⟩ := exists_toList_text_eq word
    exact ⟨first, tail, heq, isAlpha_iff.mpr (.inr hfirst), htail⟩
  | builtin which =>
    obtain ⟨first, tail, heq, hfirst, htail⟩ := exists_toList_name_eq which
    exact ⟨first, tail, heq, isAlpha_iff.mpr (.inl hfirst), htail⟩
  | _ => exact hkind.elim

theorem not_isUpper_of_leads (h : first.isLower ∨ first = '_') : ¬ first.isUpper := by
  intro hupper
  have hleads := leadsLowercase_of_isUpper hupper
  rw [leadsLowercase_iff.mpr h] at hleads
  cases hleads

theorem not_isAlpha_of_isDigit (h : c.isDigit) : ¬ c.isAlpha := by
  have hdigit : 48 ≤ c.toNat ∧ c.toNat ≤ 57 := Char.isDigit_iff_toNat.mp h
  rw [isAlpha_iff, isUpper_iff, isLower_iff]
  omega

theorem LowerWord.ne_name (h : LowerWord word) (which : BuiltinClass) : word ≠ which.name := by
  rintro rfl
  obtain ⟨lower, rest, hlower, hleads, -⟩ := h
  obtain ⟨upper, others, hupper, hisUpper, -⟩ := exists_toList_name_eq which
  rw [hlower, String.toList_ofList] at hupper
  obtain rfl := (List.cons.inj hupper).1
  exact not_isUpper_of_leads hleads hisUpper

theorem UpperWord.ne_text (h : UpperWord word) (keyword : Keyword) : word ≠ keyword.text := by
  rintro rfl
  obtain ⟨upper, rest, hupper, hisUpper, -⟩ := h
  obtain ⟨lower, others, hlower, hisLower, -⟩ := exists_toList_text_eq keyword
  rw [hupper, String.toList_ofList] at hlower
  obtain rfl := (List.cons.inj hlower).1
  exact not_isUpper_of_leads (.inl hisLower) hisUpper

/-- What can be spelled and means nothing beyond itself is not spelled like a word that does. -/
theorem isReserved_of_pattern_spelling (h : Spelled kind) {other : Kind}
    (hother : Pattern following other (spelling kind)) (hreserved : IsReserved other) :
    IsReserved kind := by
  obtain ⟨first, tail, heq, hfirst, htail⟩ := hother.isAlpha_of_isReserved hreserved
  cases kind with
  | keyword | builtin => trivial
  | ident name =>
    cases other with
    | keyword word => exact h.2 word (String.toList_inj.mp hother.eq_spelling)
    | builtin which => exact absurd (String.toList_inj.mp hother.eq_spelling) (h.1.ne_name which)
    | _ => exact hreserved.elim
  | classIdent name =>
    cases other with
    | keyword word => exact absurd (String.toList_inj.mp hother.eq_spelling) (h.1.ne_text word)
    | builtin which => exact h.2 which (String.toList_inj.mp hother.eq_spelling)
    | _ => exact hreserved.elim
  | selector part =>
    obtain ⟨word, -, rfl⟩ := h
    have hcolon : ':' ∈ first :: tail := by
      rw [← heq]
      simp [spelling]
    rcases List.mem_cons.mp hcolon with rfl | hcolon
    · exact absurd hfirst (by decide)
    · exact absurd (htail _ hcolon) (by decide)
  | stringLit body =>
    obtain rfl := (List.cons.inj heq).1
    exact absurd hfirst (by decide)
  | intLit digits =>
    obtain ⟨sign, digit, rest, rfl, hsign, hdigit, -⟩ := h
    rw [spelling, String.toList_ofList] at heq
    rcases hsign with rfl | rfl | rfl
    · obtain rfl := (List.cons.inj heq).1
      exact absurd hfirst (not_isAlpha_of_isDigit hdigit)
    · obtain rfl := (List.cons.inj heq).1
      exact absurd hfirst (by decide)
    · obtain rfl := (List.cons.inj heq).1
      exact absurd hfirst (by decide)
  | mark sign =>
    cases sign <;>
      (obtain rfl := (List.cons.inj heq).1
       exact absurd hfirst (by decide))
  | eof => exact h.elim

/-- Blanks and comments are no part of any lexeme but a string. -/
theorem Pattern.no_separator_or_string (h : Pattern following kind lexeme) :
    (∀ c ∈ lexeme, ¬ IsSeparator c) ∨
      ∃ body, lexeme = '\'' :: (body ++ ['\'']) ∧ StringBody body := by
  cases h with
  | string hbody => exact .inr ⟨_, rfl, hbody⟩
  | keyword word =>
    obtain ⟨first, tail, heq, hfirst, htail⟩ := exists_toList_text_eq word
    rw [heq]
    exact .inl (List.forall_mem_cons.mpr ⟨not_isSeparator_of_leads (.inl hfirst),
      fun c hc ↦ not_isSeparator_of_isAlphanum (htail c hc)⟩)
  | builtin which =>
    obtain ⟨first, tail, heq, hfirst, htail⟩ := exists_toList_name_eq which
    rw [heq]
    exact .inl (List.forall_mem_cons.mpr ⟨not_isSeparator hfirst (by decide) (by decide),
      fun c hc ↦ not_isSeparator_of_isAlphanum (htail c hc)⟩)
  | ident hfirst htail =>
    exact .inl (List.forall_mem_cons.mpr ⟨not_isSeparator_of_leads hfirst,
      fun c hc ↦ not_isSeparator_of_wordChar (htail c hc)⟩)
  | classIdent hfirst htail =>
    exact .inl (List.forall_mem_cons.mpr ⟨not_isSeparator hfirst (by decide) (by decide),
      fun c hc ↦ not_isSeparator_of_isAlphanum (htail c hc)⟩)
  | selector hfirst htail _ =>
    refine .inl (List.forall_mem_cons.mpr ⟨not_isSeparator_of_leads hfirst,
      List.forall_mem_append.mpr ⟨fun c hc ↦ not_isSeparator_of_wordChar (htail c hc), ?_⟩⟩)
    exact List.forall_mem_singleton.mpr (not_or.mpr (by decide))
  | unsigned hfirst htail =>
    exact .inl (List.forall_mem_cons.mpr ⟨not_isSeparator_of_isDigit hfirst,
      fun c hc ↦ not_isSeparator_of_isDigit (htail c hc)⟩)
  | signed hsign hfirst htail =>
    refine .inl (List.forall_mem_cons.mpr ⟨?_, List.forall_mem_cons.mpr
      ⟨not_isSeparator_of_isDigit hfirst, fun c hc ↦ not_isSeparator_of_isDigit (htail c hc)⟩⟩)
    rcases hsign with rfl | rfl <;> exact not_or.mpr (by decide)
  | mark sign =>
    have hall : (sign.text.toList.all fun c ↦ decide (¬ IsBlank c ∧ c ≠ '"')) = true := by
      cases sign <;> rfl
    exact .inl fun c hc ↦ not_or.mpr (of_decide_eq_true (List.all_eq_true.mp hall c hc))

/-- The body of a string ends in front of the first quote that is not escaped. -/
theorem StringBody.not_append_quote {body more : List Char} (h : StringBody body) :
    ¬ StringBody (body ++ '\'' :: more) := by
  induction h with
  | nil =>
    rintro (_ | ⟨hc, -⟩)
    exact hc.1 rfl
  | plain hc _ ih =>
    rw [List.cons_append]
    generalize _ ++ '\'' :: more = tail at ih ⊢
    rintro (_ | ⟨-, hbody⟩ | ⟨-, -⟩)
    · exact ih hbody
    · exact hc.2.1 rfl
  | escape hc _ ih =>
    rw [List.cons_append, List.cons_append]
    generalize _ ++ '\'' :: more = tail at ih ⊢
    rintro (_ | ⟨hplain, -⟩ | ⟨-, hbody⟩)
    · exact hplain.2.1 rfl
    · exact ih hbody

/-- Two strings that begin at the same place are the same. -/
theorem StringBody.eq_of_append_quote {body other rest rest' : List Char} (h : StringBody body)
    (hother : StringBody other) (heq : body ++ '\'' :: rest = other ++ '\'' :: rest') :
    body = other := by
  rcases List.append_eq_append_iff.mp heq with ⟨more, rfl, hmore⟩ | ⟨more, rfl, hmore⟩
  · cases more with
    | nil => rw [List.append_nil]
    | cons c more =>
      obtain rfl := (List.cons.inj hmore).1
      exact absurd hother h.not_append_quote
  · cases more with
    | nil => rw [List.append_nil]
    | cons c more =>
      obtain rfl := (List.cons.inj hmore).1
      exact absurd h hother.not_append_quote

/-- A lexeme that begins like a string is one. -/
theorem Pattern.exists_stringBody (h : Pattern following kind lexeme)
    (hquote : lexeme.head? = some '\'') :
    ∃ body, lexeme = '\'' :: (body ++ ['\'']) ∧ StringBody body := by
  cases h with
  | string hbody => exact ⟨_, rfl, hbody⟩
  | keyword word => cases word <;> exact absurd hquote (by decide)
  | builtin which => cases which <;> exact absurd hquote (by decide)
  | mark sign => cases sign <;> exact absurd hquote (by decide)
  | ident hfirst =>
    obtain rfl := Option.some.inj hquote
    exact absurd hfirst (by decide)
  | classIdent hfirst =>
    obtain rfl := Option.some.inj hquote
    exact absurd hfirst (by decide)
  | selector hfirst =>
    obtain rfl := Option.some.inj hquote
    exact absurd hfirst (by decide)
  | unsigned hfirst =>
    obtain rfl := Option.some.inj hquote
    exact absurd hfirst (by decide)
  | signed hsign =>
    obtain rfl := Option.some.inj hquote
    exact absurd hsign (by decide)

/-- Where a string begins, every lexeme is that string. -/
theorem Pattern.eq_of_string {body rest : List Char} (h : Pattern following kind lexeme)
    (hbody : StringBody body) (hsplit : '\'' :: (body ++ ['\'']) ++ rest = lexeme ++ following) :
    lexeme = '\'' :: (body ++ ['\'']) := by
  obtain ⟨first, tail, rfl, -⟩ := h.exists_eq_cons
  obtain ⟨rfl, -⟩ := List.cons.inj hsplit
  obtain ⟨inner, heq, hinner⟩ := h.exists_stringBody rfl
  rw [heq] at hsplit
  rw [List.cons_append, List.cons_append, List.append_assoc, List.append_assoc] at hsplit
  rw [heq, hinner.eq_of_append_quote hbody (List.cons.inj hsplit).2.symm]

/-- What can be spelled is read as it is spelled wherever a blank, a comment or the end of the text
follows. -/
theorem isLexeme_spelling (h : Spelled kind) (hfollowing : Separated following) :
    IsLexeme kind (spelling kind) following := by
  have hpattern := pattern_spelling h hfollowing
  refine ⟨hpattern, fun other rest otherKind hsplit hother ↦ ?_,
    fun _ hother hreserved ↦ isReserved_of_pattern_spelling h hother hreserved⟩
  rcases hother.no_separator_or_string with hfree | ⟨body, rfl, hbody⟩
  · -- Something longer would go on with what separates.
    rcases List.append_eq_append_iff.mp hsplit with ⟨more, heq, -⟩ | ⟨more, rfl, rfl⟩
    · rw [heq, List.length_append]
      exact Nat.le_add_right _ _
    · cases more with
      | nil => simp
      | cons c more => exact absurd (hfollowing c rfl) (hfree c (by simp))
  · exact Nat.le_of_eq (congrArg List.length (hpattern.eq_of_string hbody hsplit).symm)

/-- Whatever can be spelled can be written down, with a blank behind each token. -/
theorem exists_splits_of_spelled {kinds : List Kind} (h : ∀ kind ∈ kinds, Spelled kind)
    (position : Nat) :
    ∃ text tokens last, Splits position text tokens [] last [] ∧ tokens.map Token.kind = kinds := by
  induction kinds generalizing position with
  | nil => exact ⟨[], [], position, .done position [], rfl⟩
  | cons kind kinds ih =>
    obtain ⟨hkind, hkinds⟩ := List.forall_mem_cons.mp h
    obtain ⟨text, tokens, last, hsplits, rfl⟩ :=
      ih hkinds (position + (spelling kind).length + 1)
    refine ⟨spelling kind ++ ' ' :: text, _, last, .lexeme (isLexeme_spelling hkind ?_)
      (.blank (.inl rfl) hsplits), rfl⟩
    exact fun c hc ↦ .inl (.inl (Option.some.inj hc).symm)

end Sol25.Lexis
