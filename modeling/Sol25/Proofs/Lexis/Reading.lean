import Sol25.Proofs.Lexis.Pattern
import Sol25.Token.Scanner

/-!
# Reading a lexeme

A lexeme is read by its first character: a letter begins a word, a digit or a sign a number, a quote
a string, and what is left is a mark. Here it is shown that in this way the longest prefix of a text
that matches a pattern is found (`read_of_isLexeme`), and that where no lexeme can be read the
defect is the one that the text has (`located_read_of_stuck`).
-/

set_option autoImplicit false
set_option relaxedAutoImplicit false

namespace Sol25.Lexis

open Token (Kind)

variable {first c : Char} {tail rest following lexeme : List Char} {kind : Kind}

/-! ### First characters -/

theorem isUpper_iff : c.isUpper ↔ 65 ≤ c.toNat ∧ c.toNat ≤ 90 := by
  show decide ('A'.val ≤ c.val ∧ c.val ≤ 'Z'.val) = true ↔ _
  rw [decide_eq_true_eq, UInt32.le_iff_toNat_le, UInt32.le_iff_toNat_le]
  exact Iff.rfl

theorem isLower_iff : c.isLower ↔ 97 ≤ c.toNat ∧ c.toNat ≤ 122 := by
  show (decide ('a'.val ≤ c.val) && decide (c.val ≤ 'z'.val)) = true ↔ _
  rw [Bool.and_eq_true, decide_eq_true_eq, decide_eq_true_eq, UInt32.le_iff_toNat_le,
    UInt32.le_iff_toNat_le]
  exact Iff.rfl

theorem isAlpha_iff : c.isAlpha ↔ c.isUpper ∨ c.isLower := by
  show (c.isUpper || c.isLower) = true ↔ _
  rw [Bool.or_eq_true]

theorem leadsLowercase_iff : Lexeme.leadsLowercase c ↔ c.isLower ∨ c = '_' := by
  rw [Lexeme.leadsLowercase, Bool.or_eq_true, decide_eq_true_eq]

theorem leadsLowercase_of_isUpper (h : first.isUpper) : Lexeme.leadsLowercase first = false := by
  apply Bool.eq_false_iff.mpr
  intro hleads
  have hupper := isUpper_iff.mp h
  rcases leadsLowercase_iff.mp hleads with hlower | rfl
  · have := isLower_iff.mp hlower
    omega
  · exact absurd hupper.2 (by decide)

theorem read_of_leads (h : first.isLower ∨ first = '_') (rest : List Char) :
    Lexeme.read first rest = Lexeme.word first rest := by
  unfold Lexeme.read
  rw [if_pos]
  rw [Bool.or_eq_true, isAlpha_iff, decide_eq_true_eq]
  exact h.elim (fun hlower ↦ .inl (.inr hlower)) .inr

theorem read_of_isUpper (h : first.isUpper) (rest : List Char) :
    Lexeme.read first rest = Lexeme.word first rest := by
  unfold Lexeme.read
  rw [if_pos]
  rw [Bool.or_eq_true, isAlpha_iff]
  exact .inl (.inl h)

theorem read_of_isDigit (h : first.isDigit) (rest : List Char) :
    Lexeme.read first rest = Lexeme.integer first rest := by
  have hdigit : 48 ≤ first.toNat ∧ first.toNat ≤ 57 := Char.isDigit_iff_toNat.mp h
  have hword : ¬ (first.isAlpha || decide (first = '_')) := by
    rw [Bool.or_eq_true, isAlpha_iff, isUpper_iff, isLower_iff, decide_eq_true_eq]
    rintro ((hupper | hlower) | rfl)
    · omega
    · omega
    · exact absurd hdigit.2 (by decide)
  unfold Lexeme.read
  rw [if_neg hword, if_pos]
  rw [h, Bool.true_or]

theorem read_of_sign (h : first = '+' ∨ first = '-') (hdigit : c.isDigit) (rest : List Char) :
    Lexeme.read first (c :: rest) = Lexeme.integer first (c :: rest) := by
  unfold Lexeme.read
  rcases h with rfl | rfl
  · rw [if_neg (by decide), if_pos (by simp [Lexeme.isSign, hdigit])]
  · rw [if_neg (by decide), if_pos (by simp [Lexeme.isSign, hdigit])]

/-! ### Words -/

/-- Nothing that would make the lexeme longer follows it. -/
theorem IsLexeme.takeWhile_following (h : IsLexeme kind lexeme following) {p : Char → Bool}
    (hmore : ∀ more rest, (∀ c ∈ more, p c) → ∃ otherKind,
      Pattern rest otherKind (lexeme ++ more)) : following.takeWhile p = [] := by
  have hall : ∀ c ∈ following.takeWhile p, p c := by
    have := List.all_takeWhile (p := p) (l := following)
    simpa only [List.all_eq_true] using this
  obtain ⟨otherKind, hother⟩ := hmore _ (following.dropWhile p) hall
  have hsplit : lexeme ++ following.takeWhile p ++ following.dropWhile p = lexeme ++ following := by
    rw [List.append_assoc, List.takeWhile_append_dropWhile]
  have hle := h.longest _ _ _ hsplit hother
  rw [List.length_append] at hle
  exact List.length_eq_zero_iff.mp (by omega)

theorem takeWhile_append_of_all {p : Char → Bool} (htail : ∀ c ∈ tail, p c)
    (hfollowing : following.takeWhile p = []) : (tail ++ following).takeWhile p = tail := by
  rw [List.takeWhile_append_of_pos htail, hfollowing, List.append_nil]

theorem takeWhile_isWordCharAfter_of_leads (hfirst : first.isLower ∨ first = '_')
    (htail : ∀ c ∈ tail, c.isAlphanum ∨ c = '_')
    (hfollowing : following.takeWhile Lexeme.isWordChar = []) :
    (tail ++ following).takeWhile (Lexeme.isWordCharAfter first) = tail := by
  have hafter : Lexeme.isWordCharAfter first = Lexeme.isWordChar := by
    funext c
    rw [Lexeme.isWordCharAfter, if_pos (leadsLowercase_iff.mpr hfirst)]
  rw [hafter]
  refine takeWhile_append_of_all (fun c hc ↦ ?_) hfollowing
  simpa [Lexeme.isWordChar] using htail c hc

theorem pattern_of_ofWord?_eq_some {word : String} (h : Kind.ofWord? word = some kind)
    (following : List Char) : Pattern following kind word.toList ∧ IsReserved kind := by
  rw [Kind.ofWord?, Option.or_eq_some_iff] at h
  rcases h with h | ⟨-, h⟩
  · obtain ⟨found, hfound, rfl⟩ := Option.map_eq_some_iff.mp h
    have htext : found.text = word := by simpa using List.find?_some hfound
    rw [← htext]
    exact ⟨.keyword found, trivial⟩
  · obtain ⟨found, hfound, rfl⟩ := Option.map_eq_some_iff.mp h
    have hname : found.name = word := by simpa using List.find?_some hfound
    rw [← hname]
    exact ⟨.builtin found, trivial⟩

/-- A word that is read as a name has no other meaning. -/
theorem IsLexeme.ofWord?_eq_none (h : IsLexeme kind lexeme following)
    (hname : ¬ IsReserved kind) : Kind.ofWord? (String.ofList lexeme) = none := by
  cases hword : Kind.ofWord? (String.ofList lexeme) with
  | none => rfl
  | some otherKind =>
    obtain ⟨hpattern, hreserved⟩ := pattern_of_ofWord?_eq_some hword following
    rw [String.toList_ofList] at hpattern
    exact absurd (h.reserved otherKind hpattern hreserved) hname

theorem closesSelector_iff :
    Lexeme.closesSelector following ↔ ∃ rest, following = ':' :: rest ∧ rest.head? ≠ some '=' := by
  unfold Lexeme.closesSelector
  split
  · simp
  · next rest hrest =>
    simp only [List.cons.injEq, true_and, exists_eq_left', true_iff]
    intro hhead
    obtain ⟨more, rfl⟩ := List.head?_eq_some_iff.mp hhead
    exact hrest more rfl
  · next hother =>
    simp only [Bool.false_eq_true, false_iff, not_exists, not_and]
    rintro rest rfl
    exact absurd rfl (hother rest)

/-- A word led by a lowercase letter, if nothing longer can be read. -/
theorem IsLexeme.read_of_leads (h : IsLexeme kind (first :: tail) following)
    (hfirst : first.isLower ∨ first = '_') (htail : ∀ c ∈ tail, c.isAlphanum ∨ c = '_') :
    Lexeme.read first (tail ++ following) =
      ⟨.ok ((Kind.ofWord? (String.ofList (first :: tail))).getD
        (.ident (String.ofList (first :: tail)))), tail.length⟩ := by
  have hend : following.takeWhile Lexeme.isWordChar = [] := by
    refine h.takeWhile_following fun more rest hmore ↦ ⟨_, .ident hfirst fun c hc ↦ ?_⟩
    rcases List.mem_append.mp hc with hc | hc
    · exact htail c hc
    · simpa [Lexeme.isWordChar] using hmore c hc
  have hcloses : Lexeme.closesSelector following = false := by
    apply Bool.eq_false_iff.mpr
    intro hcloses
    obtain ⟨rest, rfl, hrest⟩ := closesSelector_iff.mp hcloses
    have hle := h.longest (first :: (tail ++ [':'])) rest _ (by simp) (.selector hfirst htail hrest)
    simp only [List.length_cons, List.length_append, List.length_nil] at hle
    omega
  have htakes := takeWhile_isWordCharAfter_of_leads hfirst htail hend
  rw [Lexis.read_of_leads hfirst]
  simp only [Lexeme.word, htakes, leadsLowercase_iff.mpr hfirst, List.drop_left, hcloses]
  rfl

/-- A word led by an uppercase letter, if nothing longer can be read. -/
theorem IsLexeme.read_of_isUpper (h : IsLexeme kind (first :: tail) following)
    (hfirst : first.isUpper) (htail : ∀ c ∈ tail, c.isAlphanum) :
    Lexeme.read first (tail ++ following) =
      ⟨.ok ((Kind.ofWord? (String.ofList (first :: tail))).getD
        (.classIdent (String.ofList (first :: tail)))), tail.length⟩ := by
  have hend : following.takeWhile Char.isAlphanum = [] := by
    refine h.takeWhile_following fun more rest hmore ↦ ⟨_, .classIdent hfirst fun c hc ↦ ?_⟩
    rcases List.mem_append.mp hc with hc | hc
    · exact htail c hc
    · exact hmore c hc
  have htakes : (tail ++ following).takeWhile (Lexeme.isWordCharAfter first) = tail := by
    have hafter : Lexeme.isWordCharAfter first = Char.isAlphanum := by
      funext c
      rw [Lexeme.isWordCharAfter, leadsLowercase_of_isUpper hfirst]
      rfl
    rw [hafter]
    exact takeWhile_append_of_all htail hend
  rw [Lexis.read_of_isUpper hfirst]
  simp only [Lexeme.word, htakes, leadsLowercase_of_isUpper hfirst]
  rfl

theorem read_selector (hfirst : first.isLower ∨ first = '_')
    (htail : ∀ c ∈ tail, c.isAlphanum ∨ c = '_') (hfollowing : following.head? ≠ some '=') :
    Lexeme.read first (tail ++ ':' :: following) =
      ⟨.ok (.selector (String.ofList (first :: (tail ++ [':'])))), tail.length + 1⟩ := by
  have htakes : (tail ++ ':' :: following).takeWhile (Lexeme.isWordCharAfter first) = tail :=
    takeWhile_isWordCharAfter_of_leads hfirst htail rfl
  have hcloses : Lexeme.closesSelector (':' :: following) = true :=
    closesSelector_iff.mpr ⟨following, rfl, hfollowing⟩
  have hpush : (String.ofList (first :: tail)).push ':' =
      String.ofList (first :: (tail ++ [':'])) := by
    rw [← List.cons_append, String.ofList_append]
    rfl
  rw [Lexis.read_of_leads hfirst]
  simp only [Lexeme.word, htakes, leadsLowercase_iff.mpr hfirst, List.drop_left, hcloses, hpush]
  rfl

/-! ### Integers, strings and marks -/

/-- An integer, if no further digit follows. -/
theorem integer_of_isDigit (htail : ∀ c ∈ tail, c.isDigit)
    (hfollowing : following.takeWhile Char.isDigit = []) :
    Lexeme.integer first (tail ++ following) =
      ⟨.ok (.intLit (String.ofList (first :: tail))), tail.length⟩ := by
  rw [Lexeme.integer, takeWhile_append_of_all htail hfollowing]

theorem isEscapable_iff : Lexeme.isEscapable c ↔ c = '\'' ∨ c = 'n' ∨ c = '\\' := by
  simp [Lexeme.isEscapable, or_assoc]

/-- The body of a string is gone over whatever follows it. -/
theorem StringBody.stringBody_append {body : List Char} (h : StringBody body) (read : Nat) :
    Lexeme.stringBody read (body ++ tail) = Lexeme.stringBody (read + body.length) tail := by
  induction h generalizing read with
  | nil => rfl
  | plain hc _ ih =>
    obtain ⟨hquote, hbackslash, hline⟩ := hc
    rw [List.cons_append, Lexeme.stringBody, if_neg hline, if_neg hquote, ih, List.length_cons]
    · congr 1
      omega
    · exact fun heq _ ↦ hbackslash heq
    · exact fun _ _ heq _ ↦ hbackslash heq
  | escape hc _ ih =>
    rw [List.cons_append, List.cons_append, Lexeme.stringBody, if_pos (isEscapable_iff.mpr hc), ih,
      List.length_cons, List.length_cons]
    congr 1
    omega

theorem read_string {body : List Char} (h : StringBody body) :
    Lexeme.read '\'' (body ++ '\'' :: following) =
      ⟨.ok (.stringLit (String.ofList body)), body.length + 1⟩ := by
  have hbody : Lexeme.stringBody 0 (body ++ '\'' :: following) = (.quote, body.length) := by
    rw [h.stringBody_append, Nat.zero_add]
    rfl
  change Lexeme.string _ = _
  simp only [Lexeme.string, hbody, List.take_left]

theorem read_broken_string {body : List Char} {defect : Defect} {used : Nat} (h : StringBody body)
    (htail : Breaks tail defect used) :
    Lexeme.read '\'' (body ++ tail) = ⟨.error defect, body.length + used⟩ := by
  show Lexeme.string _ = _
  rw [Lexeme.string, h.stringBody_append, Nat.zero_add]
  cases htail with
  | textEnd => rfl
  | lineFeed rest => rfl
  | backslash => rfl
  | escape hc rest =>
    rw [Lexeme.stringBody, if_neg fun hescapable ↦ hc (isEscapable_iff.mp hescapable)]

/-! ### Every lexeme -/

/-- A keyword looks like a name. -/
theorem exists_toList_text_eq (word : Keyword) :
    ∃ first tail, word.text.toList = first :: tail ∧ first.isLower ∧
      ∀ c ∈ tail, c.isAlphanum := by
  cases word <;> exact ⟨_, _, rfl, rfl, List.all_eq_true.mp rfl⟩

/-- The name of a built-in class looks like that of any other class. -/
theorem exists_toList_name_eq (which : BuiltinClass) :
    ∃ first tail, which.name.toList = first :: tail ∧ first.isUpper ∧
      ∀ c ∈ tail, c.isAlphanum := by
  cases which <;> exact ⟨_, _, rfl, rfl, List.all_eq_true.mp rfl⟩

theorem ofWord?_text (word : Keyword) : Kind.ofWord? word.text = some (.keyword word) := by
  cases word <;> rfl

theorem ofWord?_name (which : BuiltinClass) :
    Kind.ofWord? which.name = some (.builtin which) := by
  cases which <;> rfl

theorem read_of_mark {sign : Mark} (h : IsLexeme (.mark sign) (first :: tail) following)
    (htext : sign.text.toList = first :: tail) :
    Lexeme.read first (tail ++ following) = ⟨.ok (.mark sign), tail.length⟩ := by
  cases sign with
  | colon =>
    obtain ⟨rfl, rfl⟩ : ':' = first ∧ [] = tail := List.cons.inj htext
    have hequals : ∀ rest, following ≠ '=' :: rest := by
      rintro rest rfl
      have hle := h.longest [':', '='] rest _ rfl (.mark .assign)
      exact absurd hle (by decide)
    change Lexeme.mark ':' following = _
    rw [Lexeme.mark]
    · rfl
    · exact hequals
  | _ =>
    obtain ⟨rfl, rfl⟩ := List.cons.inj htext
    rfl

/-- What has to be read is read. -/
theorem read_of_isLexeme (h : IsLexeme kind (first :: tail) following) :
    Lexeme.read first (tail ++ following) = ⟨.ok kind, tail.length⟩ := by
  have hpattern := h.pattern
  generalize hlexeme : first :: tail = lexeme at hpattern
  cases hpattern with
  | keyword word =>
    obtain ⟨lead, others, htext, hlead, hothers⟩ := exists_toList_text_eq word
    obtain ⟨rfl, rfl⟩ := List.cons.inj (hlexeme.trans htext)
    rw [h.read_of_leads (.inl hlead) fun c hc ↦ .inl (hothers c hc), ← htext,
      String.ofList_toList, ofWord?_text]
    rfl
  | builtin which =>
    obtain ⟨lead, others, htext, hlead, hothers⟩ := exists_toList_name_eq which
    obtain ⟨rfl, rfl⟩ := List.cons.inj (hlexeme.trans htext)
    rw [h.read_of_isUpper hlead hothers, ← htext, String.ofList_toList, ofWord?_name]
    rfl
  | ident hfirst htail =>
    obtain ⟨rfl, rfl⟩ := List.cons.inj hlexeme
    rw [h.read_of_leads hfirst htail, h.ofWord?_eq_none id]
    rfl
  | classIdent hfirst htail =>
    obtain ⟨rfl, rfl⟩ := List.cons.inj hlexeme
    rw [h.read_of_isUpper hfirst htail, h.ofWord?_eq_none id]
    rfl
  | selector hfirst htail hfollowing =>
    obtain ⟨rfl, rfl⟩ := List.cons.inj hlexeme
    rw [List.append_assoc, List.singleton_append, read_selector hfirst htail hfollowing,
      List.length_append, List.length_singleton]
  | unsigned hfirst htail =>
    obtain ⟨rfl, rfl⟩ := List.cons.inj hlexeme
    have hend : following.takeWhile Char.isDigit = [] := by
      refine h.takeWhile_following fun more rest hmore ↦ ⟨_, .unsigned hfirst fun c hc ↦ ?_⟩
      exact (List.mem_append.mp hc).elim (htail c) (hmore c)
    rw [read_of_isDigit hfirst, integer_of_isDigit htail hend]
  | signed hsign hfirst htail =>
    obtain ⟨rfl, rfl⟩ := List.cons.inj hlexeme
    have hend : following.takeWhile Char.isDigit = [] := by
      refine h.takeWhile_following fun more rest hmore ↦ ⟨_, .signed hsign hfirst fun c hc ↦ ?_⟩
      exact (List.mem_append.mp hc).elim (htail c) (hmore c)
    rw [List.cons_append, read_of_sign hsign hfirst, ← List.cons_append,
      integer_of_isDigit (List.forall_mem_cons.mpr ⟨hfirst, htail⟩) hend]
  | string hbody =>
    obtain ⟨rfl, rfl⟩ := List.cons.inj hlexeme
    rw [List.append_assoc, List.singleton_append, read_string hbody, List.length_append,
      List.length_singleton]
  | mark sign => exact read_of_mark h hlexeme.symm

/-- Where no mark stands, the character that stands there is not expected. -/
theorem mark_of_forall_ne
    (h : ∀ (sign : Mark) following, first :: rest ≠ sign.text.toList ++ following) :
    Lexeme.mark first rest = ⟨.error (.unexpectedChar first), 0⟩ := by
  unfold Lexeme.mark
  split
  · exact absurd rfl (h .assign _)
  · exact absurd rfl (h .colon _)
  · exact absurd rfl (h .dot _)
  · exact absurd rfl (h .leftBrace _)
  · exact absurd rfl (h .rightBrace _)
  · exact absurd rfl (h .leftBracket _)
  · exact absurd rfl (h .rightBracket _)
  · exact absurd rfl (h .leftParen _)
  · exact absurd rfl (h .rightParen _)
  · exact absurd rfl (h .pipe _)
  · rfl

/-- Where no lexeme can be read, the defect is found. -/
theorem located_read_of_stuck {position : Nat} {fault : Fault} (hcomment : first ≠ '"')
    (h : Stuck position (first :: rest) fault) :
    Scanner.located (Lexeme.read first rest) position = .error fault := by
  cases h with
  | comment => exact absurd rfl hcomment
  | string hbody htail => rw [read_broken_string hbody htail]; rfl
  | unexpected _ _ hstring hlexeme =>
    have hleads : ¬ (first.isLower ∨ first = '_') := fun hleads ↦
      hlexeme [first] rest _ rfl (.ident hleads (List.forall_mem_nil _))
    have hupper : ¬ first.isUpper := fun hupper ↦
      hlexeme [first] rest _ rfl (.classIdent hupper (List.forall_mem_nil _))
    have hdigit : ¬ first.isDigit := fun hdigit ↦
      hlexeme [first] rest _ rfl (.unsigned hdigit (List.forall_mem_nil _))
    have hsign : ¬ (Lexeme.isSign first && rest.head?.any Char.isDigit) := by
      intro hboth
      obtain ⟨hsign, hnext⟩ := (Bool.and_eq_true _ _).mp hboth
      rw [Option.any_eq_true] at hnext
      obtain ⟨digit, hhead, hdigit⟩ := hnext
      obtain ⟨more, rfl⟩ := List.head?_eq_some_iff.mp hhead
      refine hlexeme [first, digit] more _ rfl (.signed ?_ hdigit (List.forall_mem_nil _))
      simpa [Lexeme.isSign] using hsign
    have hmark : Lexeme.read first rest = Lexeme.mark first rest := by
      unfold Lexeme.read
      rw [if_neg, if_neg, if_neg hstring]
      · simp [hdigit, hsign]
      · rw [Bool.or_eq_true, isAlpha_iff, decide_eq_true_eq]
        rintro ((huppercase | hlower) | hunderscore)
        · exact hupper huppercase
        · exact hleads (.inl hlower)
        · exact hleads (.inr hunderscore)
    rw [hmark, mark_of_forall_ne fun sign following hsplit ↦
      hlexeme sign.text.toList following _ hsplit.symm (.mark sign)]
    rfl

end Sol25.Lexis
