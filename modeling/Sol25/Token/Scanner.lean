import Sol25.Token.Lexeme
import Sol25.Token.Trivia

/-!
A scanner goes through a text and hands out its tokens one by one. A fault does not stop it: what
was used up for the fault is behind it, and the next call goes on from there. Every result but the
end of the input uses up at least one character, so the end is always reached.
-/

set_option autoImplicit false
set_option relaxedAutoImplicit false

namespace Sol25

structure Scanner where
  /-- The characters ahead. -/
  rest : List Char
  /-- The number of characters behind. -/
  position : Nat
  /-- Where the latest lexeme began. -/
  start : Nat
  /-- The text of a comment that nobody has taken yet. -/
  description? : Option String

namespace Scanner

/-- A scanner in front of a text. -/
def ofText (text : List Char) : Scanner := ⟨text, 0, 0, none⟩

/-- Leaves `length` characters behind. -/
def advance (scanner : Scanner) (length : Nat) : Scanner :=
  { scanner with rest := scanner.rest.drop length, position := scanner.position + length }

/-- The blanks and comments right ahead. -/
def trivia (scanner : Scanner) : Trivia := Trivia.ofText scanner.description? scanner.rest

/-- The scanner behind the blanks and comments, holding the description they may have brought. -/
def pastTrivia (scanner : Scanner) : Scanner :=
  { scanner.advance scanner.trivia.length with description? := scanner.trivia.description? }

/-- What a lexeme comes to when it is read at `position`. -/
def located (lexeme : Lexeme) (position : Nat) : Except Fault Token :=
  match lexeme.outcome with
  | .ok kind => .ok ⟨kind, ⟨position, position + lexeme.length⟩⟩
  | .error defect => .error (.located defect ⟨position, position + lexeme.length⟩)

/-- Reads the lexeme that begins right here. -/
def lexeme (scanner : Scanner) : Except Fault Token × Scanner :=
  match scanner.rest with
  | [] =>
    (.ok ⟨.eof, ⟨scanner.position, scanner.position⟩⟩, { scanner with start := scanner.position })
  | first :: rest =>
    (located (Lexeme.read first rest) scanner.position,
      { scanner.advance (Lexeme.read first rest).length with start := scanner.position })

/-- Reads the next token, or the fault that stands in its place. -/
def next (scanner : Scanner) : Except Fault Token × Scanner :=
  match scanner.trivia.unclosed? with
  | some quote =>
    (.error (.located .unterminatedComment
      ⟨scanner.position + quote, scanner.pastTrivia.position⟩), scanner.pastTrivia)
  | none => scanner.pastTrivia.lexeme

/-- Hands out the text of the comment that is held. A later comment may take its place. -/
def takeDescription (scanner : Scanner) : Option String × Scanner :=
  (scanner.description?, { scanner with description? := none })

/-- Whether a result says that nothing is left. -/
def isEnd : Except Fault Token → Bool
  | .ok token => token.kind = .eof
  | .error _ => false

theorem rest_pastTrivia (scanner : Scanner) :
    scanner.pastTrivia.rest = scanner.rest.drop scanner.trivia.length := rfl

theorem rest_lexeme_lt (scanner : Scanner) (h : ¬ isEnd scanner.lexeme.1) :
    (scanner.lexeme.2).rest.length < scanner.rest.length := by
  unfold lexeme at h ⊢
  split
  · simp_all [isEnd]
  · next first rest heq =>
    have : (scanner.rest.drop (Lexeme.read first rest).length).length < scanner.rest.length := by
      rw [heq, List.length_drop, List.length_cons, Lexeme.length]
      omega
    exact this

/-- Only the end of the input leaves everything where it was. -/
theorem rest_next_lt (scanner : Scanner) (h : ¬ isEnd scanner.next.1) :
    (scanner.next.2).rest.length < scanner.rest.length := by
  unfold next at h ⊢
  split
  · next quote hopen =>
    have hlt : 0 < scanner.trivia.length :=
      Trivia.lt_length_of_unclosed 0 scanner.description? scanner.rest
        (Option.isSome_of_eq_some hopen)
    have hne : scanner.rest ≠ [] := fun hnil ↦ by
      simp [trivia, hnil, Trivia.ofText, Trivia.skip] at hopen
    have := List.length_pos_iff.2 hne
    rw [rest_pastTrivia, List.length_drop]
    omega
  · next hopen =>
    simp only [hopen] at h
    refine Nat.lt_of_lt_of_le (rest_lexeme_lt _ h) ?_
    rw [rest_pastTrivia, List.length_drop]
    omega

/-- Reads on to the end of the input, with the tokens of `done` read before, the latest one first.
The first fault ends the reading. -/
def tokensOnto (done : List Token) (scanner : Scanner) : Except Fault (List Token) × Scanner :=
  match h : scanner.next with
  | (.error fault, ahead) => (.error fault, ahead)
  | (.ok token, ahead) =>
    if hend : token.kind = .eof then (.ok (token :: done).reverse, ahead)
    else
      have : ahead.rest.length < scanner.rest.length := by
        have := rest_next_lt scanner (by simp [h, isEnd, hend])
        rwa [h] at this
      tokensOnto (token :: done) ahead
termination_by scanner.rest.length

/-- All tokens from here on; the last one is the end of the input. -/
def tokens (scanner : Scanner) : Except Fault (List Token) × Scanner := tokensOnto [] scanner

/-- All results from here on, faults among them, up to and with the end of the input. -/
def results (scanner : Scanner) : List (Except Fault Token) × Scanner :=
  match h : scanner.next with
  | (result, ahead) =>
    if hend : isEnd result then ([result], ahead)
    else
      have : ahead.rest.length < scanner.rest.length := by
        have := rest_next_lt scanner (by simp [h, hend])
        rwa [h] at this
      let (others, last) := results ahead
      (result :: others, last)
termination_by scanner.rest.length

end Scanner

end Sol25
