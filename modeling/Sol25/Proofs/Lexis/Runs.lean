import Sol25.Proofs.Lexis.Exact
import Sol25.Proofs.Moved

/-!
# A scanner that is asked for anything

A scanner can be asked for the next token, for all tokens, and for the description, in any order,
and a fault does not end it. `runs_ofText` says what holds whatever it has been asked for. It is
somewhere in the text, behind the beginning of its latest lexeme. Each answer but the end of the
input takes it further, so there are no more of these than the text has characters, and once the
end has come, it comes again and again. The tokens and faults that it hands out from some place on
are those of a fresh scanner in front of the text from there on, moved to where they are: what lies
behind has no influence, even where it is half of a string or a comment. And the description that it
holds is the first comment that has come to its close since it was last asked for one, also if the
call that closed the comment ended with a fault.

What a call uses up is never more than there is (`length_skip_le`, `more_read_le`). From
what holds of one call for a token, the same is concluded for a call for all of them
(`of_next_tokensOnto`), and then for a run by induction.
-/

set_option autoImplicit false
set_option relaxedAutoImplicit false

namespace Sol25

open Lexis

/-! ### What is used up is there -/

namespace Lexeme

theorem snd_stringBody_le (read : Nat) (text : List Char) :
    (stringBody read text).2 ≤ read + text.length := by
  fun_induction stringBody read text <;> simp only [List.length_cons, List.length_nil] at * <;>
    omega

/-- The quote that closes a string is not counted. -/
theorem snd_stringBody_lt {read : Nat} {text : List Char} (h : (stringBody read text).1 = .quote) :
    (stringBody read text).2 < read + text.length := by
  fun_induction stringBody read text <;> simp_all <;> omega

theorem more_word_le (first : Char) (rest : List Char) : (word first rest).more ≤ rest.length := by
  have htakes := (List.takeWhile_prefix (isWordCharAfter first) (l := rest)).length_le
  rw [word]
  split
  · split
    · next hcloses =>
      obtain ⟨behind, hbehind, -⟩ := closesSelector_iff.mp hcloses
      have hlength := congrArg List.length hbehind
      rw [List.length_drop, List.length_cons] at hlength
      show (rest.takeWhile (isWordCharAfter first)).length + 1 ≤ rest.length
      omega
    · exact htakes
  · exact htakes

theorem more_string_le (rest : List Char) : (string rest).more ≤ rest.length := by
  have hle := snd_stringBody_le 0 rest
  rw [string]
  split
  · next length heq =>
    have hlt := snd_stringBody_lt (congrArg Prod.fst heq)
    rw [heq, Nat.zero_add] at hlt
    exact hlt
  · next length heq =>
    rw [heq, Nat.zero_add] at hle
    exact hle
  · next c length heq =>
    rw [heq, Nat.zero_add] at hle
    exact hle

/-- A lexeme does not reach over the end of the text. -/
theorem more_read_le (first : Char) (rest : List Char) : (read first rest).more ≤ rest.length := by
  rw [read]
  split
  · exact more_word_le first rest
  · split
    · exact (List.takeWhile_prefix _).length_le
    · split
      · exact more_string_le rest
      · unfold mark
        split <;> simp

theorem outcome_word_ne_eof (first : Char) (rest : List Char) :
    (word first rest).outcome ≠ .ok .eof := by
  have hmeant : ∀ (word : String) (other : Token.Kind), other ≠ .eof →
      (Token.Kind.ofWord? word).getD other ≠ .eof := by
    intro word other hother
    cases hword : Token.Kind.ofWord? word with
    | none => exact hother
    | some kind => exact Scanner.kind_ne_eof (pattern_of_ofWord?_eq_some hword []).1
  rw [word]
  split
  · split
    · simp
    · exact fun heq ↦ hmeant _ (.ident _) (by simp) (Except.ok.inj heq)
  · exact fun heq ↦ hmeant _ (.classIdent _) (by simp) (Except.ok.inj heq)

/-- No lexeme is the end of the input. -/
theorem outcome_read_ne_eof (first : Char) (rest : List Char) :
    (read first rest).outcome ≠ .ok .eof := by
  rw [read]
  split
  · exact outcome_word_ne_eof first rest
  · split
    · simp [integer]
    · split
      · rw [string]
        split <;> simp
      · unfold mark
        split <;> simp

end Lexeme

namespace Trivia

theorem length_skip_le (length : Nat) (description? : Option String)
    (opened? : Option (Nat × List Char)) (text : List Char) :
    (skip length description? opened? text).length ≤ length + text.length := by
  fun_induction skip length description? opened? text <;>
    simp only [List.length_cons, List.length_nil] at * <;> omega

/-- What is skipped does not depend on the description. -/
theorem skip_congr (length : Nat) (description? other? : Option String)
    (opened? : Option (Nat × List Char)) (text : List Char) :
    (skip length description? opened? text).length = (skip length other? opened? text).length ∧
      (skip length description? opened? text).unclosed? =
        (skip length other? opened? text).unclosed? := by
  induction text generalizing length description? other? opened? with
  | nil => exact ⟨rfl, rfl⟩
  | cons c rest ih =>
    cases opened? with
    | none =>
      rw [skip, skip]
      split
      · exact ih ..
      · split
        · exact ih ..
        · exact ⟨rfl, rfl⟩
    | some opened =>
      rw [skip, skip]
      split
      · exact ih ..
      · exact ih ..

end Trivia

/-! ### The comments at the head of a text -/

/-- What stands in the comments in front of the first lexeme, as long as they are closed. -/
def Lexis.closedComments : List Char → List (List Char)
  | [] => []
  | c :: rest =>
    if IsBlank c then closedComments rest
    else if c = '"' ∧ '"' ∈ rest then
      rest.takeWhile (· ≠ '"') :: closedComments (rest.dropWhile (· ≠ '"')).tail
    else []
termination_by text => text.length
decreasing_by
  · exact Nat.lt_succ_self _
  · rw [List.length_tail]
    exact Nat.lt_succ_of_le (Nat.le_trans (Nat.sub_le _ _) (List.dropWhile_suffix _).length_le)

theorem Lexis.closedComments_comment {body : List Char} (hbody : '"' ∉ body) (rest : List Char) :
    closedComments ('"' :: (body ++ '"' :: rest)) = body :: closedComments rest := by
  have hpass : ∀ c ∈ body, decide (c ≠ '"') = true := fun c hc ↦
    decide_eq_true fun heq ↦ hbody (heq ▸ hc)
  rw [closedComments, if_neg (by decide), if_pos ⟨rfl, by simp⟩,
    List.takeWhile_append_of_pos hpass, List.dropWhile_append_of_pos hpass]
  simp

/-- A description that is held stays; otherwise it is the first comment. -/
theorem Trivia.description?_ofText (held? : Option String) (text : List Char) :
    (ofText held? text).description? =
      held?.or ((closedComments text).head?.map String.ofList) := by
  induction hlength : text.length using Nat.strongRecOn generalizing held? text with
  | _ length ih =>
    subst hlength
    cases text with
    | nil => rw [closedComments]; exact (Option.or_none).symm
    | cons c rest =>
      by_cases hblank : IsBlank c
      · rw [ofText, skip_blank hblank, skip_eq_add, closedComments, if_pos hblank]
        exact ih _ (Nat.lt_succ_self _) held? rest rfl
      by_cases hcomment : c = '"'
      · subst hcomment
        by_cases hclosed : '"' ∈ rest
        · obtain ⟨body, text, rfl, hbody⟩ := List.eq_append_cons_of_mem hclosed
          rw [ofText, skip_comment hbody, skip_eq_add, closedComments_comment hbody]
          refine (ih text.length ?_ _ text rfl).trans ?_
          · simp only [List.length_cons, List.length_append]
            omega
          · rw [Option.or_assoc, Option.some_or]
            rfl
        · rw [ofText, skip, if_pos rfl, skip_unclosed hclosed, closedComments, if_neg hblank,
            if_neg fun hboth ↦ hclosed hboth.2]
          exact (Option.or_none).symm
      · rw [ofText, skip_lexeme hblank hcomment, closedComments, if_neg hblank,
          if_neg fun hboth ↦ hcomment hboth.1]
        exact (Option.or_none).symm

namespace Scanner

/-! ### One call -/

variable {text : List Char} {scanner other : Scanner} {offset : Nat}

/-- The scanner is at a place in the text, and its latest lexeme has not begun any later. -/
structure Within (text : List Char) (scanner : Scanner) : Prop where
  rest_eq : scanner.rest = text.drop scanner.position
  start_le : scanner.start ≤ scanner.position
  position_le : scanner.position ≤ text.length

theorem within_ofText (text : List Char) : (ofText text).Within text :=
  ⟨rfl, Nat.le_refl 0, Nat.zero_le _⟩

theorem Within.length_rest (h : scanner.Within text) :
    scanner.position + scanner.rest.length = text.length := by
  have := h.position_le
  rw [h.rest_eq, List.length_drop]
  omega

/-- A scanner that leaves no more behind than there is stays in the text. -/
theorem Within.advance (h : scanner.Within text) {length : Nat}
    (hle : length ≤ scanner.rest.length) : (scanner.advance length).Within text := by
  have hlength := h.length_rest
  refine ⟨?_, Nat.le_add_right_of_le h.start_le, ?_⟩
  · rw [Scanner.advance, h.rest_eq, List.drop_drop]
  · show scanner.position + length ≤ text.length
    omega

theorem Within.pastTrivia (h : scanner.Within text) : scanner.pastTrivia.Within text := by
  have hle : scanner.trivia.length ≤ scanner.rest.length := by
    have := Trivia.length_skip_le 0 scanner.description? none scanner.rest
    rwa [Nat.zero_add] at this
  obtain ⟨hrest, hstart, hposition⟩ := h.advance hle
  exact ⟨hrest, hstart, hposition⟩

theorem Within.lexeme (h : scanner.Within text) : scanner.lexeme.2.Within text := by
  rw [Scanner.lexeme]
  split
  · exact ⟨h.rest_eq, Nat.le_refl _, h.position_le⟩
  · next first rest hrest =>
    have hle : (Lexeme.read first rest).length ≤ scanner.rest.length := by
      rw [hrest, Lexeme.length, List.length_cons]
      exact Nat.succ_le_succ (Lexeme.more_read_le first rest)
    obtain ⟨hbehind, -, hposition⟩ := h.advance hle
    exact ⟨hbehind, Nat.le_add_right _ _, hposition⟩

theorem Within.next (h : scanner.Within text) : scanner.next.2.Within text := by
  rw [Scanner.next]
  split
  · exact h.pastTrivia
  · exact h.pastTrivia.lexeme

/-- Only the end of the input leaves the place as it is. -/
theorem Within.position_lt_next (h : scanner.Within text) (hend : ¬ isEnd scanner.next.1) :
    scanner.position < scanner.next.2.position := by
  have hlt := rest_next_lt scanner hend
  have hbefore := h.length_rest
  have hafter := h.next.length_rest
  omega

theorem lexeme_of_rest_eq_nil (h : scanner.rest = []) :
    scanner.lexeme =
      (.ok ⟨.eof, ⟨scanner.position, scanner.position⟩⟩,
        { scanner with start := scanner.position }) := by
  rw [Scanner.lexeme, h]

theorem rest_eq_nil_of_isEnd_lexeme (hend : isEnd scanner.lexeme.1) : scanner.rest = [] := by
  rw [Scanner.lexeme] at hend
  split at hend
  · next hrest => exact hrest
  · next first rest hrest =>
    rw [located] at hend
    split at hend
    · next kind houtcome =>
      obtain rfl : kind = .eof := of_decide_eq_true hend
      exact absurd houtcome (Lexeme.outcome_read_ne_eof first rest)
    · cases hend

/-- The end comes only if nothing is left behind the trivia, and nothing else happens. -/
theorem next_of_isEnd (hend : isEnd scanner.next.1) :
    scanner.pastTrivia.rest = [] ∧ scanner.next =
      (.ok ⟨.eof, ⟨scanner.pastTrivia.position, scanner.pastTrivia.position⟩⟩,
        { scanner.pastTrivia with start := scanner.pastTrivia.position }) := by
  rw [Scanner.next] at hend ⊢
  cases hopen : scanner.trivia.unclosed? with
  | some quote =>
    rw [hopen] at hend
    cases hend
  | none =>
    rw [hopen] at hend
    have hrest := rest_eq_nil_of_isEnd_lexeme hend
    exact ⟨hrest, lexeme_of_rest_eq_nil hrest⟩

theorem rest_next_of_isEnd (hend : isEnd scanner.next.1) : scanner.next.2.rest = [] := by
  obtain ⟨hrest, hnext⟩ := next_of_isEnd hend
  rwa [hnext]

theorem Within.next_of_isEnd (h : scanner.Within text) (hend : isEnd scanner.next.1) :
    scanner.next.1 = .ok ⟨.eof, ⟨text.length, text.length⟩⟩ := by
  obtain ⟨hrest, hnext⟩ := Scanner.next_of_isEnd hend
  have hlength := h.pastTrivia.length_rest
  rw [hrest, List.length_nil, Nat.add_zero] at hlength
  rw [hnext, hlength]

/-- The scanners have the same text ahead, the one so many characters further on. -/
structure Shifted (offset : Nat) (scanner fresh : Scanner) : Prop where
  rest_eq : scanner.rest = fresh.rest
  position_eq : scanner.position = fresh.position + offset

namespace Shifted

variable {fresh : Scanner}

theorem trivia_eq (h : Shifted offset scanner fresh) :
    scanner.trivia.length = fresh.trivia.length ∧
      scanner.trivia.unclosed? = fresh.trivia.unclosed? := by
  rw [Scanner.trivia, Scanner.trivia, h.rest_eq]
  exact Trivia.skip_congr 0 _ _ none fresh.rest

theorem advance (h : Shifted offset scanner fresh) (length : Nat) :
    Shifted offset (scanner.advance length) (fresh.advance length) := by
  refine ⟨congrArg (List.drop length) h.rest_eq, ?_⟩
  rw [Scanner.advance, Scanner.advance, h.position_eq, Nat.add_right_comm]

theorem pastTrivia (h : Shifted offset scanner fresh) :
    Shifted offset scanner.pastTrivia fresh.pastTrivia := by
  rw [Scanner.pastTrivia, h.trivia_eq.1]
  exact ⟨(h.advance _).rest_eq, (h.advance _).position_eq⟩

theorem located_add (lexeme : Lexeme) (position offset : Nat) :
    located lexeme (position + offset) =
      ((located lexeme position).map (Token.moved (· + offset))).mapError
        (Fault.moved (· + offset)) := by
  rw [located, located, Nat.add_right_comm]
  cases lexeme.outcome <;> rfl

theorem lexeme (h : Shifted offset scanner fresh) :
    scanner.lexeme.1 = (fresh.lexeme.1.map (Token.moved (· + offset))).mapError
        (Fault.moved (· + offset)) ∧
      Shifted offset scanner.lexeme.2 fresh.lexeme.2 := by
  rw [Scanner.lexeme, Scanner.lexeme, h.rest_eq, h.position_eq]
  split
  · exact ⟨rfl, rfl, rfl⟩
  · next first rest hrest =>
    refine ⟨located_add _ _ _, ?_⟩
    exact ⟨(h.advance _).rest_eq, (h.advance _).position_eq⟩

theorem next (h : Shifted offset scanner fresh) :
    scanner.next.1 = (fresh.next.1.map (Token.moved (· + offset))).mapError
        (Fault.moved (· + offset)) ∧
      Shifted offset scanner.next.2 fresh.next.2 := by
  rw [Scanner.next, Scanner.next, h.trivia_eq.2]
  cases fresh.trivia.unclosed? with
  | some quote =>
    refine ⟨?_, h.pastTrivia⟩
    simp only [h.position_eq, h.pastTrivia.position_eq, Nat.add_right_comm _ offset quote]
    rfl
  | none => exact h.pastTrivia.lexeme

theorem tokensOnto (h : Shifted offset scanner fresh) (done : List Token) :
    (Scanner.tokensOnto (done.map (Token.moved (· + offset))) scanner).1 =
      ((Scanner.tokensOnto done fresh).1.map (List.map (Token.moved (· + offset)))).mapError
        (Fault.moved (· + offset)) := by
  fun_induction Scanner.tokensOnto done fresh generalizing scanner
  case case1 done fresh fault rest hfresh =>
    obtain ⟨hanswer, -⟩ := h.next
    rw [hfresh] at hanswer
    rw [tokensOnto_of_next_error (Prod.ext hanswer rfl)]
    rfl
  case case2 done fresh token rest hfresh hend =>
    obtain ⟨hanswer, -⟩ := h.next
    rw [hfresh] at hanswer
    rw [tokensOnto_of_next_eof (Prod.ext hanswer rfl) hend, ← List.map_cons,
      ← List.map_reverse]
    rfl
  case case3 done fresh token rest hfresh hend hlt ih =>
    obtain ⟨hanswer, hahead⟩ := h.next
    rw [hfresh] at hanswer hahead
    rw [tokensOnto_of_next_ok (Prod.ext hanswer rfl) hend, ← List.map_cons]
    exact ih hahead

end Shifted

/-! ### Runs -/

/-- What a scanner can be asked for. -/
inductive Request where
  /-- The next token. -/
  | next
  /-- All tokens up to the end, unless there is a fault. -/
  | tokens
  /-- The description, which is given away. -/
  | description

/-- The scanner when it has done what it was asked for. -/
def after (scanner : Scanner) : Request → Scanner
  | .next => scanner.next.2
  | .tokens => scanner.tokens.2
  | .description => scanner.takeDescription.2

def afterAll (scanner : Scanner) (requests : List Request) : Scanner :=
  requests.foldl after scanner

theorem afterAll_cons (scanner : Scanner) (request : Request) (rest : List Request) :
    scanner.afterAll (request :: rest) = (scanner.after request).afterAll rest := rfl

/-- What is kept by every call for one token is kept by a call for all of them. -/
theorem of_next_tokensOnto {P : Scanner → Prop} (hnext : ∀ scanner, P scanner → P scanner.next.2)
    (done : List Token) (h : P scanner) : P (tokensOnto done scanner).2 := by
  fun_induction tokensOnto done scanner
  case case1 done scanner fault ahead heq =>
    have hahead := hnext scanner h
    rwa [heq] at hahead
  case case2 done scanner token ahead heq hend =>
    have hahead := hnext scanner h
    rwa [heq] at hahead
  case case3 done scanner token ahead heq hend hlt ih =>
    have hahead := hnext scanner h
    rw [heq] at hahead
    exact ih hahead

theorem of_next_afterAll {P : Scanner → Prop} (hnext : ∀ scanner, P scanner → P scanner.next.2)
    (htake : ∀ scanner, P scanner → P scanner.takeDescription.2) (requests : List Request)
    (h : P scanner) : P (scanner.afterAll requests) := by
  induction requests generalizing scanner with
  | nil => exact h
  | cons request rest ih =>
    rw [afterAll_cons]
    apply ih
    cases request with
    | next => exact hnext scanner h
    | tokens => exact of_next_tokensOnto hnext [] h
    | description => exact htake scanner h

theorem Within.afterAll (h : scanner.Within text) (requests : List Request) :
    (scanner.afterAll requests).Within text :=
  of_next_afterAll (fun _ ↦ Within.next)
    (fun _ hwithin ↦ ⟨hwithin.rest_eq, hwithin.start_le, hwithin.position_le⟩) requests h

theorem isEnd_next_of_rest_eq_nil (h : scanner.rest = []) : isEnd scanner.next.1 := by
  obtain ⟨rest, position, start, description?⟩ := scanner
  obtain rfl : rest = [] := h
  rfl

/-- Once the end has come, it comes whenever a token is asked for. -/
theorem Within.next_afterAll_of_isEnd (h : scanner.Within text) (hend : isEnd scanner.next.1)
    (later : List Request) :
    (scanner.next.2.afterAll later).next.1 = .ok ⟨.eof, ⟨text.length, text.length⟩⟩ := by
  have hrest : (scanner.next.2.afterAll later).rest = [] :=
    of_next_afterAll (P := fun scanner ↦ scanner.rest = [])
      (fun _ hnil ↦ rest_next_of_isEnd (isEnd_next_of_rest_eq_nil hnil)) (fun _ hnil ↦ hnil) later
      (rest_next_of_isEnd hend)
  exact (h.next.afterAll later).next_of_isEnd (isEnd_next_of_rest_eq_nil hrest)

/-- What a scanner answers whenever it is asked for the next token. -/
def nexts (scanner : Scanner) : List Request → List (Except Fault Token)
  | [] => []
  | .next :: rest => scanner.next.1 :: scanner.next.2.nexts rest
  | request :: rest => (scanner.after request).nexts rest

theorem length_rest_next_le (scanner : Scanner) :
    scanner.next.2.rest.length ≤ scanner.rest.length := by
  by_cases hend : isEnd scanner.next.1
  · rw [rest_next_of_isEnd hend]
    exact Nat.zero_le _
  · exact Nat.le_of_lt (rest_next_lt scanner hend)

theorem length_rest_after_le (scanner : Scanner) (request : Request) :
    (scanner.after request).rest.length ≤ scanner.rest.length :=
  of_next_afterAll (P := fun ahead ↦ ahead.rest.length ≤ scanner.rest.length)
    (fun ahead hle ↦ Nat.le_trans (length_rest_next_le ahead) hle) (fun _ hle ↦ hle) [request]
    (Nat.le_refl _)

/-- Every answer but the end uses something up. -/
theorem countP_nexts_add_le (scanner : Scanner) (requests : List Request) :
    (scanner.nexts requests).countP (!isEnd ·) + (scanner.afterAll requests).rest.length ≤
      scanner.rest.length := by
  induction requests generalizing scanner with
  | nil => exact Nat.le_of_eq (Nat.zero_add _)
  | cons request rest ih =>
    have hrest := ih (scanner.after request)
    have hle := scanner.length_rest_after_le request
    rw [afterAll_cons]
    cases request with
    | next =>
      rw [after] at hrest hle ⊢
      rw [nexts, List.countP_cons]
      split
      · next hgoes =>
        have hlt := rest_next_lt scanner (by simpa using hgoes)
        omega
      · omega
    | tokens | description => exact Nat.le_trans hrest hle

/-! ### The description -/

/-- Whether a call for all tokens goes on when this has come. -/
def goesOn : Except Fault Token → Bool
  | .ok token => token.kind ≠ .eof
  | .error _ => false

theorem not_isEnd_of_goesOn {answer : Except Fault Token} (h : goesOn answer) : ¬ isEnd answer := by
  cases answer with
  | ok token => simpa [goesOn, isEnd] using h
  | error fault => exact Bool.false_ne_true

/-- The comments that come to their close in a call for all tokens. -/
def commentsOnTheWay (scanner : Scanner) : List (List Char) :=
  closedComments scanner.rest ++
    if h : goesOn scanner.next.1 then
      have := rest_next_lt scanner (not_isEnd_of_goesOn h)
      commentsOnTheWay scanner.next.2
    else []
termination_by scanner.rest.length

theorem commentsOnTheWay_of_goesOn (h : goesOn scanner.next.1) :
    scanner.commentsOnTheWay =
      closedComments scanner.rest ++ scanner.next.2.commentsOnTheWay := by
  rw [commentsOnTheWay, dif_pos h]

theorem commentsOnTheWay_of_not_goesOn (h : ¬ goesOn scanner.next.1) :
    scanner.commentsOnTheWay = closedComments scanner.rest := by
  rw [commentsOnTheWay, dif_neg h, List.append_nil]

/-- The comments that come to their close in a call. -/
def closedBy (scanner : Scanner) : Request → List (List Char)
  | .next => closedComments scanner.rest
  | .tokens => scanner.commentsOnTheWay
  | .description => []

/-- The comments that have come to their close since the description was last given away, if these
were the ones at first. -/
def closedSinceTaken (scanner : Scanner) (closed : List (List Char)) :
    List Request → List (List Char)
  | [] => closed
  | .description :: rest => (scanner.after .description).closedSinceTaken [] rest
  | request :: rest =>
    (scanner.after request).closedSinceTaken (closed ++ scanner.closedBy request) rest

theorem description?_next (scanner : Scanner) :
    scanner.next.2.description? =
      scanner.description?.or ((closedComments scanner.rest).head?.map String.ofList) := by
  rw [← Trivia.description?_ofText, next]
  split
  · rfl
  · rw [lexeme]
    split <;> rfl

theorem description?_tokensOnto (done : List Token) (scanner : Scanner) :
    (tokensOnto done scanner).2.description? =
      scanner.description?.or ((scanner.commentsOnTheWay).head?.map String.ofList) := by
  have hnext := description?_next
  fun_induction tokensOnto done scanner
  case case1 done scanner fault ahead heq =>
    rw [commentsOnTheWay_of_not_goesOn (by simp [heq, goesOn]), ← hnext, heq]
  case case2 done scanner token ahead heq hend =>
    rw [commentsOnTheWay_of_not_goesOn (by simp [heq, goesOn, hend]), ← hnext, heq]
  case case3 done scanner token ahead heq hend hlt ih =>
    have hgoes : goesOn scanner.next.1 := by simp [heq, goesOn, hend]
    rw [ih, commentsOnTheWay_of_goesOn hgoes, List.head?_append, Option.map_or,
      ← Option.or_assoc, ← hnext, heq]

/-- In a run, what is held is the first of the comments that have come to their close. -/
theorem description?_afterAll {closed : List (List Char)}
    (h : scanner.description? = closed.head?.map String.ofList) (requests : List Request) :
    (scanner.afterAll requests).description? =
      (scanner.closedSinceTaken closed requests).head?.map String.ofList := by
  induction requests generalizing scanner closed with
  | nil => exact h
  | cons request rest ih =>
    rw [afterAll_cons]
    cases request with
    | next =>
      refine ih ?_
      rw [after, description?_next, h, closedBy, List.head?_append, Option.map_or]
    | tokens =>
      refine ih ?_
      rw [after, tokens, description?_tokensOnto, h, closedBy, List.head?_append, Option.map_or]
    | description => exact ih rfl

/-! ### What holds in every run -/

/-- What holds of a scanner that has been asked for all this since it stood in front of the text. -/
structure Runs (text : List Char) (requests : List Request) (scanner : Scanner) : Prop where
  within : scanner.Within text
  progress : ¬ isEnd scanner.next.1 → scanner.position < scanner.next.2.position
  bounded : ((ofText text).nexts requests).countP (!isEnd ·) ≤ text.length
  ended : isEnd scanner.next.1 →
    scanner.next.1 = .ok ⟨.eof, ⟨text.length, text.length⟩⟩ ∧
      ∀ later, (scanner.next.2.afterAll later).next.1 = .ok ⟨.eof, ⟨text.length, text.length⟩⟩
  next_eq : scanner.next.1 =
    ((ofText (text.drop scanner.position)).next.1.map (Token.moved (· + scanner.position))).mapError
      (Fault.moved (· + scanner.position))
  tokens_eq : scanner.tokens.1 =
    ((ofText (text.drop scanner.position)).tokens.1.map
      (List.map (Token.moved (· + scanner.position)))).mapError (Fault.moved (· + scanner.position))
  description : scanner.takeDescription.1 =
    ((ofText text).closedSinceTaken [] requests).head?.map String.ofList

theorem runs_ofText (text : List Char) (requests : List Request) :
    Runs text requests ((ofText text).afterAll requests) := by
  have hwithin := (within_ofText text).afterAll requests
  have hshifted : Shifted ((ofText text).afterAll requests).position
      ((ofText text).afterAll requests)
      (ofText (text.drop ((ofText text).afterAll requests).position)) :=
    ⟨hwithin.rest_eq, (Nat.zero_add _).symm⟩
  have hcount := countP_nexts_add_le (ofText text) requests
  refine ⟨hwithin, hwithin.position_lt_next, Nat.le_trans (Nat.le_add_right _ _) hcount,
    fun hend ↦ ⟨hwithin.next_of_isEnd hend, hwithin.next_afterAll_of_isEnd hend⟩, hshifted.next.1,
    hshifted.tokensOnto [], description?_afterAll rfl requests⟩

end Scanner

end Sol25
