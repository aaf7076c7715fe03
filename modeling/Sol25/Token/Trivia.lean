/-!
Trivia: the blanks and comments in front of a lexeme. A comment stands between double quotes, and
the first one of a program describes it.
-/

set_option autoImplicit false
set_option relaxedAutoImplicit false

namespace Sol25

/-- What was skipped at the head of a text. -/
structure Trivia where
  /-- The number of characters. -/
  length : Nat
  /-- The description that is held afterwards. -/
  description? : Option String
  /-- The offset of the quote whose comment no other quote closes. -/
  unclosed? : Option Nat
deriving DecidableEq

namespace Trivia

/-- The blanks of the language. A carriage return is one, so lines may end in either way. -/
def isSpace (c : Char) : Bool := c = ' ' || c = '\t' || c = '\r' || c = '\n'

/-- Skips the trivia at the head of a text, `length` characters of which lie behind. Inside a
comment, `opened?` holds the offset of its quote and its text so far, the last character first. The
text of a comment that comes to its close is kept unless a description is held already. -/
def skip (length : Nat) (description? : Option String) (opened? : Option (Nat × List Char)) :
    List Char → Trivia
  | [] => ⟨length, description?, opened?.map Prod.fst⟩
  | c :: rest =>
    match opened? with
    | none =>
      if c = '"' then skip (length + 1) description? (some (length, [])) rest
      else if isSpace c then skip (length + 1) description? none rest
      else ⟨length, description?, none⟩
    | some (quote, text) =>
      if c = '"' then
        skip (length + 1) (description?.or (some (String.ofList text.reverse))) none rest
      else skip (length + 1) description? (some (quote, c :: text)) rest

/-- The trivia at the head of a text, read while `description?` is held. -/
def ofText (description? : Option String) (text : List Char) : Trivia :=
  skip 0 description? none text

/-- Skipping never goes back. -/
theorem le_length_skip (length : Nat) (description? : Option String)
    (opened? : Option (Nat × List Char)) (text : List Char) :
    length ≤ (skip length description? opened? text).length := by
  fun_induction skip length description? opened? text <;> grind

/-- A comment that is left open has been begun: its quote has been skipped. -/
theorem lt_length_of_unclosed (length : Nat) (description? : Option String) (text : List Char)
    (h : (skip length description? none text).unclosed?.isSome) :
    length < (skip length description? none text).length := by
  cases text with
  | nil => simp [skip] at h
  | cons c rest =>
    simp only [skip] at h ⊢
    split
    · exact le_length_skip _ _ _ _
    · split
      · exact le_length_skip _ _ _ _
      · simp_all

end Trivia

end Sol25
