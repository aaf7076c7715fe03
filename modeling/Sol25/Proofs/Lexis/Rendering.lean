import Sol25.Proofs.Lexis.Exact
import Sol25.Proofs.Lexis.Spelling

/-!
# Tokens that are written down are read back

A text can be written from any kinds of token that texts can hold, with blanks and comments in front
of each and behind the last (`Item`, `rendered`). As long as something stands between neighbours,
the scanner gives back exactly these kinds, each at the place where it was written
(`renderedTokens`), and the description is the first of the comments
(`Scanner.tokens_ofText_rendered`). How much is written between them, and what, makes no difference.

What comes behind a token, if anything does, begins with a blank or a quote, and this is all that
has to be known for the token to be read as it is spelled; the rest is induction on the items.
-/

set_option autoImplicit false
set_option relaxedAutoImplicit false

namespace Sol25.Lexis

open Token (Kind)

/-! ### Writing a text -/

/-- What can be written between tokens and means nothing. -/
inductive Filler where
  | blank (c : Char) (hc : IsBlank c)
  | comment (body : List Char) (hbody : '"' ∉ body)

namespace Filler

def text : Filler → List Char
  | blank c _ => [c]
  | comment body _ => '"' :: (body ++ ['"'])

def comment? : Filler → Option (List Char)
  | blank _ _ => none
  | comment body _ => some body

/-- The text of a gap that is filled like this. -/
def gapText (gap : List Filler) : List Char := gap.flatMap text

end Filler

open Filler

/-- A kind of token that a text can hold, and what is written in front of it. -/
structure Item where
  gap : List Filler
  kind : Kind
  spelled : Spelled kind

def Item.text (item : Item) : List Char := gapText item.gap ++ spelling item.kind

/-- The items one behind the other, and what is written behind the last of them. -/
def rendered (items : List Item) (closing : List Filler) : List Char :=
  items.flatMap Item.text ++ gapText closing

/-- The tokens of the items if the first gap begins at this position. -/
def renderedTokens : (position : Nat) → List Item → List Token
  | _, [] => []
  | position, item :: items =>
    ⟨item.kind, ⟨position + (gapText item.gap).length, position + item.text.length⟩⟩ ::
      renderedTokens (position + item.text.length) items

theorem map_kind_renderedTokens (position : Nat) (items : List Item) :
    (renderedTokens position items).map Token.kind = items.map Item.kind := by
  induction items generalizing position with
  | nil => rfl
  | cons item items ih => rw [renderedTokens, List.map_cons, List.map_cons, ih]

/-! ### Reading it back -/

variable {position last : Nat} {gap closing : List Filler} {items : List Item}
  {text rest : List Char} {tokens : List Token} {comments : List (List Char)}

theorem Splits.behind_gap
    (h : Splits (position + (gapText gap).length) text tokens comments last rest) :
    Splits position (gapText gap ++ text) tokens (gap.filterMap comment? ++ comments) last
      rest := by
  induction gap generalizing position with
  | nil => exact h
  | cons filler gap ih =>
    have hlength : (gapText (filler :: gap)).length =
        filler.text.length + (gapText gap).length := List.length_append
    have htext : gapText (filler :: gap) ++ text = filler.text ++ (gapText gap ++ text) :=
      List.append_assoc ..
    rw [hlength, ← Nat.add_assoc] at h
    rw [htext]
    cases filler with
    | blank c hc => exact .blank hc (ih h)
    | comment body hbody =>
      have hbehind : '"' :: (body ++ ['"']) ++ (gapText gap ++ text) =
          '"' :: (body ++ '"' :: (gapText gap ++ text)) := by
        rw [List.cons_append, List.append_assoc]
        rfl
      have hquotes : (Filler.comment body hbody).text.length = body.length + 2 := by
        simp [Filler.text]
      rw [hquotes] at h
      change Splits position ('"' :: (body ++ ['"']) ++ _) _ (body :: _) _ _
      rw [hbehind]
      exact .comment hbody (ih h)

/-- A gap with something in it separates. -/
theorem separated_gapText_append (hne : gap ≠ []) (text : List Char) :
    Separated (gapText gap ++ text) := by
  obtain ⟨filler, gap, rfl⟩ := List.exists_cons_of_ne_nil hne
  cases filler with
  | blank c hc =>
    rintro _ ⟨⟩
    exact .inl hc
  | comment body hbody =>
    rintro _ ⟨⟩
    exact .inr rfl

theorem rendered_cons (item : Item) (items : List Item) (closing : List Filler) :
    rendered (item :: items) closing =
      gapText item.gap ++ (spelling item.kind ++ rendered items closing) := by
  rw [rendered, List.flatMap_cons, Item.text, List.append_assoc, List.append_assoc, rendered]

theorem separated_rendered (h : ∀ item ∈ items, item.gap ≠ []) :
    Separated (rendered items closing) := by
  cases items with
  | nil =>
    by_cases hclosing : closing = []
    · rw [hclosing]
      exact nofun
    · rw [← List.append_nil (rendered [] closing)]
      exact separated_gapText_append hclosing []
  | cons item items =>
    rw [rendered_cons]
    exact separated_gapText_append (h item List.mem_cons_self) _

/-- What has been written splits into what it was written from. -/
theorem splits_rendered (h : ∀ item ∈ items.tail, item.gap ≠ []) (closing : List Filler)
    (position : Nat) :
    ∃ last, Splits position (rendered items closing) (renderedTokens position items)
      ((items.flatMap Item.gap ++ closing).filterMap comment?) last [] := by
  induction items generalizing position with
  | nil =>
    have hdone :
        Splits position (gapText closing ++ []) [] (closing.filterMap comment? ++ []) _ [] :=
      .behind_gap (.done _ [])
    rw [List.append_nil, List.append_nil] at hdone
    exact ⟨_, hdone⟩
  | cons item items ih =>
    change ∀ item ∈ items, item.gap ≠ [] at h
    have hlength : position + item.text.length =
        position + (gapText item.gap).length + (spelling item.kind).length := by
      rw [Item.text, List.length_append, Nat.add_assoc]
    obtain ⟨last, hothers⟩ :=
      ih (fun other hother ↦ h other (List.mem_of_mem_tail hother)) (position + item.text.length)
    refine ⟨last, ?_⟩
    rw [rendered_cons, List.flatMap_cons, List.append_assoc, List.filterMap_append, renderedTokens,
      hlength]
    rw [hlength] at hothers
    exact .behind_gap (.lexeme (isLexeme_spelling item.spelled (separated_rendered h)) hothers)

end Sol25.Lexis

namespace Sol25.Scanner

open Lexis

/-- Whatever is written between them, tokens that a text can hold are read back as they were written
down, as long as neighbours do not touch. -/
theorem tokens_ofText_rendered (items : List Item) (closing : List Filler)
    (h : ∀ item ∈ items.tail, item.gap ≠ []) :
    (ofText (rendered items closing)).tokens.1 =
        .ok (renderedTokens 0 items ++
          [⟨.eof, ⟨(rendered items closing).length, (rendered items closing).length⟩⟩]) ∧
      (renderedTokens 0 items).map Token.kind = items.map Item.kind ∧
      (ofText (rendered items closing)).tokens.2.takeDescription.1 =
        ((items.flatMap Item.gap ++ closing).findSome? Filler.comment?).map String.ofList := by
  obtain ⟨last, hsplits⟩ := splits_rendered h closing 0
  obtain ⟨htokens, hdescription⟩ := tokens_ofText_of_splits hsplits
  rw [List.head?_filterMap] at hdescription
  exact ⟨htokens, map_kind_renderedTokens 0 items, hdescription⟩

/-- A name and a mark behind a comment and a line break. -/
theorem tokens_ofText_name_and_mark :
    (ofText ['x', '"', '!', '"', '\n', ':']).tokens.1 =
      .ok [⟨.ident "x", ⟨0, 1⟩⟩, ⟨.mark .colon, ⟨5, 6⟩⟩, ⟨.eof, ⟨6, 6⟩⟩] ∧
    (ofText ['x', '"', '!', '"', '\n', ':']).tokens.2.takeDescription.1 = some "!" := by
  have hname : Spelled (.ident "x") :=
    ⟨⟨'x', [], rfl, .inl rfl, List.forall_mem_nil _⟩, fun keyword ↦ by cases keyword <;> decide⟩
  have hread := tokens_ofText_rendered
    [⟨[], .ident "x", hname⟩,
      ⟨[.comment ['!'] (by decide), .blank '\n' (by decide)], .mark .colon, trivial⟩] []
    (by simp)
  exact ⟨hread.1, hread.2.2⟩

end Sol25.Scanner
