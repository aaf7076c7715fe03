import Sol25.Proofs.Diagnostics
import Sol25.Proofs.Parts

/-!
# Spans nest and follow the source

Spans are put together from those of tokens, the first one and the last one that were read, and
parentheses are read without leaving a trace. `Program.nested_of_ofText_eq_ok` says what comes of it
for every program that is read from a text. No span is empty or leaves the text. What stands inside
something else has its span inside the span of that, and what stands next to each other stands in
the order of the source without overlapping. A message begins where its receiver does, parentheses
around the receiver left out, a method with its selector, and a block reaches from its bracket to
the one that closes it (`Bracketed`). What is a lexeme by itself covers just that lexeme (`Lexed`).

Every span is made of some of the tokens behind the part that it belongs to (`Made`), and these
tokens follow one another. Spans made of tokens in front of others therefore come before spans made
of the others, so a list of parts is in order as soon as their tokens are (`InOrder`).
-/

set_option autoImplicit false
set_option relaxedAutoImplicit false

namespace Sol25

open Grammar Lexis
open Token (Kind)

/-! ### Spans in a text -/

namespace Span

/-- The span covers one character at least and none outside of the text. -/
def Proper (text : List Char) (span : Span) : Prop :=
  span.start < span.stop ∧ span.stop ≤ text.length

def Contains (outer inner : Span) : Prop :=
  outer.start ≤ inner.start ∧ inner.stop ≤ outer.stop

/-- The former has ended where the latter begins. -/
def Before (former latter : Span) : Prop := former.stop ≤ latter.start

/-- The inner spans lie in the outer one, one behind the other. -/
structure Holds (outer : Span) (inner : List Span) : Prop where
  contains : ∀ span ∈ inner, outer.Contains span
  ordered : inner.Pairwise Before

/-- Of two spans the former of which comes before the latter. -/
theorem merge_eq_of_before {former latter : Span} (hformer : former.start < former.stop)
    (hlatter : latter.start < latter.stop) (h : former.Before latter) :
    former.merge latter = ⟨former.start, latter.stop⟩ := by
  rw [Before] at h
  rw [merge, Nat.min_eq_left (by omega), Nat.max_eq_right (by omega)]

end Span

/-- The span covers a lexeme, which consists of these characters. -/
structure Lexed (text : List Char) (span : Span) (shown : List Char) : Prop where
  proper : span.Proper text
  slice : span.slice text = shown
  lexeme : ∃ kind, IsLexeme kind shown (text.drop span.stop)

/-- How a literal is written. -/
def LiteralKind.written : LiteralKind → String → List Char
  | .string, value => '\'' :: (value.toList ++ ['\''])
  | _, value => value.toList

/-- The mark that closes what this one opens. -/
def Mark.closing? : Mark → Option Mark
  | .leftParen => some .rightParen
  | .leftBracket => some .rightBracket
  | _ => none

/-- The marks that come in pairs inside the body of a method. -/
def brackets : List Kind :=
  [.mark .leftParen, .mark .rightParen, .mark .leftBracket, .mark .rightBracket]

/-- Kinds of token among which every parenthesis and every bracket that is opened is closed by its
own counterpart. -/
inductive Matched : List Kind → Prop
  | nil : Matched []
  | plain {kind : Kind} {rest : List Kind} (hkind : kind ∉ brackets) (hrest : Matched rest) :
    Matched (kind :: rest)
  | pair {opening closing : Mark} {inner rest : List Kind} (hpair : opening.closing? = some closing)
      (hinner : Matched inner) (hrest : Matched rest) :
      Matched (.mark opening :: (inner ++ .mark closing :: rest))

/-- The span reaches from one bracket of the text to the one that closes it. -/
def Bracketed (text : List Char) (tokens : List Token) (span : Span) : Prop :=
  (∃ before left inner right after, tokens = before ++ left :: (inner ++ right :: after) ∧
    left.kind = .mark .leftBracket ∧ Matched (inner.map Token.kind) ∧
    right.kind = .mark .rightBracket ∧ span = ⟨left.span.start, right.span.stop⟩) ∧
  ∃ between, span.slice text = '[' :: (between ++ [']'])

/-! ### What is said of a program -/

/-- The parameters of a block, and the targets and values of its assignments, as they follow one
another. -/
def Block.spans (block : Block) : List Span :=
  block.params.map Ident.span ++
    block.body.flatMap fun assignment ↦ [assignment.target.span, assignment.value.span]

structure Block.Nested (text : List Char) (tokens : List Token) (block : Block) : Prop where
  proper : block.span.Proper text
  bracketed : Bracketed text tokens block.span
  holds : block.span.Holds block.spans
  params : ∀ param ∈ block.params, Lexed text param.span param.name.toList
  targets : ∀ assignment ∈ block.body,
    Lexed text assignment.target.span assignment.target.name.toList

/-- What is said of an expression, apart from what is inside of its parts. -/
def Expr.Nested (text : List Char) (tokens : List Token) : Expr → Prop
  | .literal kind value span => Lexed text span (kind.written value)
  | .var name span => Lexed text span name.toList
  | .send receiver _ args span =>
    span.Proper text ∧ span.start = receiver.span.start ∧
      span.Holds (receiver.span :: args.map Expr.span)
  | .block content => content.Nested text tokens

structure Method.Nested (text : List Char) (tokens : List Token) (method : Method) : Prop where
  proper : method.span.Proper text
  /-- It begins with the first token of its selector, and its body follows the last one. -/
  heading : ∃ before first parts left after,
    tokens = before ++ (first :: (parts ++ left :: after)) ∧
      HeadingAt (first :: parts) (method.selector, method.arity) ∧
      left.kind = .mark .leftBracket ∧ method.span.start = first.span.start ∧
      method.body.span.start = left.span.start
  contains : method.span.Contains method.body.span
  stop : method.span.stop = method.body.span.stop

/-- A class, its parent and its methods. -/
def ClassDef.spans (declared : ClassDef) : List Span :=
  declared.name.span :: declared.parent.span :: declared.methods.map Method.span

structure Program.Nested (text : List Char) (tokens : List Token) (program : Program) : Prop where
  ordered : (program.classes.flatMap ClassDef.spans).Pairwise Span.Before
  names : ∀ declared ∈ program.classes,
    Lexed text declared.name.span declared.name.name.toList ∧
      Lexed text declared.parent.span declared.parent.name.toList
  methods : ∀ declared ∈ program.classes, ∀ method ∈ declared.methods, method.Nested text tokens
  parts : ∀ part, program.HasPart part → part.Nested text tokens

variable {text : List Char} {tokens used front back more : List Token} {span : Span}

/-! ### Spans of tokens -/

namespace Lexis

theorem Placed.proper {token : Token} (h : Placed text token) : token.span.Proper text := by
  obtain ⟨start, lexeme, following, rfl, hspan, hlexeme⟩ := h
  have hpos := hlexeme.pattern.length_pos
  rw [hspan]
  simp only [Span.Proper, List.length_append]
  omega

theorem Placed.lexed {token : Token} {shown : List Char} (h : Placed text token)
    (hshown : spelling token.kind = shown) : Lexed text token.span shown := by
  have hslice : token.span.slice text = shown := h.stands.slice_eq.trans hshown
  exact ⟨h.proper, hslice, token.kind, hslice ▸ h.isLexeme_slice⟩

end Lexis

/-- The span begins with one of the tokens, ends with one of them and is not empty. -/
def Made (used : List Token) (span : Span) : Prop :=
  ∃ first ∈ used, ∃ last ∈ used,
    span = ⟨first.span.start, last.span.stop⟩ ∧ span.start < span.stop

theorem Made.mono (h : Made used span) (hsubset : used ⊆ more) : Made more span := by
  obtain ⟨first, hfirst, last, hlast, hspan⟩ := h
  exact ⟨first, hsubset hfirst, last, hsubset hlast, hspan⟩

theorem Standing.made {token : Token} (h : Standing text used) (htoken : token ∈ used) :
    Made used token.span :=
  ⟨token, htoken, token, htoken, rfl, (h.placed token htoken).proper.1⟩

theorem Made.proper (h : Made used span) (hstanding : Standing text used) : span.Proper text := by
  obtain ⟨first, -, last, hlast, rfl, hlt⟩ := h
  exact ⟨hlt, (hstanding.placed last hlast).proper.2⟩

theorem Made.before {former latter : Span} (hformer : Made front former)
    (hlatter : Made back latter) (hstanding : Standing text (front ++ back)) :
    former.Before latter := by
  obtain ⟨-, -, last, hlast, rfl, -⟩ := hformer
  obtain ⟨first, hfirst, -, -, rfl, -⟩ := hlatter
  exact (List.pairwise_append.mp hstanding.ordered).2.2 last hlast first hfirst

/-- What contains the tokens contains what is made of them. -/
theorem Made.contained {outer : Span} (h : Made used span)
    (houter : ∀ token ∈ used, outer.Contains token.span) : outer.Contains span := by
  obtain ⟨first, hfirst, last, hlast, rfl, -⟩ := h
  exact ⟨(houter first hfirst).1, (houter last hlast).2⟩

/-- From what is made of the former tokens to one of the latter. -/
theorem Made.merge {former : Span} {last : Token} (hformer : Made front former)
    (hstanding : Standing text (front ++ back)) (hlast : last ∈ back) :
    former.merge last.span = ⟨former.start, last.span.stop⟩ ∧
      Made (front ++ back) (former.merge last.span) := by
  have hmade := hstanding.right.made hlast
  have hbefore := hformer.before hmade hstanding
  obtain ⟨first, hfirst, other, hother, rfl, hlt⟩ := hformer
  have hproper := (hstanding.placed last (List.mem_append_right _ hlast)).proper.1
  have hmerge := Span.merge_eq_of_before hlt hproper hbefore
  refine ⟨hmerge, first, List.mem_append_left _ hfirst, last, List.mem_append_right _ hlast,
    hmerge, ?_⟩
  rw [Span.Before] at hbefore
  rw [hmerge]
  exact Nat.lt_trans hlt (Nat.lt_of_le_of_lt hbefore hproper)

theorem Standing.stop_le {last : Token} (h : Standing text used)
    (hlast : used.getLast? = some last) : ∀ token ∈ used, token.span.stop ≤ last.span.stop := by
  obtain ⟨earlier, rfl⟩ := List.getLast?_eq_some_iff.mp hlast
  intro token htoken
  rcases List.mem_append.mp htoken with htoken | htoken
  · have hbefore : token.span.stop ≤ last.span.start :=
      (List.pairwise_append.mp h.ordered).2.2 token htoken last (List.mem_singleton_self _)
    have hproper := (h.placed last (List.mem_append_right _ (List.mem_singleton_self _))).proper.1
    omega
  · rw [List.mem_singleton.mp htoken]

theorem Standing.start_le {first : Token} (h : Standing text used)
    (hfirst : used.head? = some first) : ∀ token ∈ used, first.span.start ≤ token.span.start := by
  obtain ⟨later, rfl⟩ := List.head?_eq_some_iff.mp hfirst
  refine List.forall_mem_cons.mpr ⟨Nat.le_refl _, fun token htoken ↦ ?_⟩
  have hbefore : first.span.stop ≤ token.span.start :=
    (List.pairwise_cons.mp h.ordered).1 token htoken
  have hproper := (h.placed first List.mem_cons_self).proper.1
  omega

/-- What stands behind the first token, in front of others. -/
theorem isInfix_cons_append (first : Token) (inner back : List Token) :
    inner <:+: first :: (inner ++ back) :=
  (List.prefix_append _ _).isInfix.trans (List.suffix_cons _ _).isInfix

/-! ### Spans one behind the other -/

/-- The spans are made of the tokens and stand one behind the other. -/
structure InOrder (used : List Token) (spans : List Span) : Prop where
  made : ∀ span ∈ spans, Made used span
  ordered : spans.Pairwise Span.Before

theorem InOrder.nil : InOrder used [] := ⟨List.forall_mem_nil _, .nil⟩

theorem Made.inOrder (h : Made used span) : InOrder used [span] :=
  ⟨List.forall_mem_singleton.mpr h, List.pairwise_singleton _ _⟩

theorem InOrder.mono {spans : List Span} (h : InOrder used spans) (hsubset : used ⊆ more) :
    InOrder more spans :=
  ⟨fun span hspan ↦ (h.made span hspan).mono hsubset, h.ordered⟩

theorem InOrder.append {former latter : List Span} (hformer : InOrder front former)
    (hlatter : InOrder back latter) (hstanding : Standing text (front ++ back)) :
    InOrder (front ++ back) (former ++ latter) := by
  refine ⟨List.forall_mem_append.mpr ⟨?_, ?_⟩, List.pairwise_append.mpr
    ⟨hformer.ordered, hlatter.ordered, fun first hfirst second hsecond ↦ ?_⟩⟩
  · exact fun span hspan ↦ (hformer.made span hspan).mono (List.subset_append_left _ _)
  · exact fun span hspan ↦ (hlatter.made span hspan).mono (List.subset_append_right _ _)
  · exact (hformer.made first hfirst).before (hlatter.made second hsecond) hstanding

theorem InOrder.holds {spans : List Span} {outer : Span} (h : InOrder used spans)
    (houter : ∀ token ∈ used, outer.Contains token.span) : outer.Holds spans :=
  ⟨fun span hspan ↦ (h.made span hspan).contained houter, h.ordered⟩

theorem Grammar.ManyAt.inOrder {α : Type} {At : List Token → α → Prop} {items : List α}
    {spans : α → List Span}
    (hitem : ∀ used item, At used item → Standing text used → InOrder used (spans item))
    (h : ManyAt At used items) (hstanding : Standing text used) :
    InOrder used (items.flatMap spans) := by
  induction h with
  | nil => exact .nil
  | cons hat _ ih =>
    rw [List.flatMap_cons]
    exact (hitem _ _ hat hstanding.left).append (ih hstanding.right) hstanding

/-! ### Where the spans of the parts come from -/

theorem span_of_atom? {token : Token} {expr : Expr} (h : Reading.atom? token = some expr) :
    expr.span = token.span ∧ expr.children = [] := by
  obtain ⟨kind, place⟩ := token
  cases kind with
  | keyword word =>
    cases word <;> cases h
    all_goals exact ⟨rfl, rfl⟩
  | builtin _ | classIdent _ | ident _ | stringLit _ | intLit _ =>
    cases h
    exact ⟨rfl, rfl⟩
  | selector _ | mark _ | eof => cases h

theorem nested_of_atom? {token : Token} {expr : Expr} (h : Reading.atom? token = some expr)
    (hplaced : Placed text token) : expr.Nested text tokens := by
  have hlexed := hplaced.lexed rfl
  obtain ⟨kind, place⟩ := token
  cases kind with
  | keyword word =>
    cases word <;> cases h
    all_goals exact hlexed
  | builtin _ | classIdent _ | ident _ | stringLit _ | intLit _ =>
    cases h
    exact hlexed
  | selector _ | mark _ | eof => cases h

theorem span_of_anyClass? {token : Token} {ident : Ident}
    (h : Reading.anyClass? token = some ident) :
    ident.span = token.span ∧ spelling token.kind = ident.name.toList := by
  obtain ⟨kind, place⟩ := token
  cases kind with
  | builtin _ | classIdent _ =>
    cases h
    exact ⟨rfl, rfl⟩
  | keyword _ | ident _ | selector _ | stringLit _ | intLit _ | mark _ | eof => cases h

namespace Grammar

/-- A block reaches from its first token to its last one, and these are brackets. -/
theorem BlockAt.exists_parts {block : Block} (h : BlockAt used block)
    (hstanding : Standing text used) :
    ∃ left head inner right, used = left :: (head ++ (inner ++ [right])) ∧
      used.getLast? = some right ∧ left.kind = .mark .leftBracket ∧ ParamsAt head block.params ∧
      BodyAt inner block.body ∧ right.kind = .mark .rightBracket ∧
      block.span = ⟨left.span.start, right.span.stop⟩ ∧ Made used block.span := by
  obtain @⟨left, right, head, inner, params, body, hleft, hparams, hbody, hright⟩ := h
  have hlast : (left :: (head ++ (inner ++ [right]))).getLast? = some right := by
    rw [← List.append_assoc, ← List.cons_append, List.getLast?_concat]
  have hmem : right ∈ head ++ (inner ++ [right]) := by simp
  have hopened := (hstanding.sublist (List.sublist_append_left [left] _)).made
    (List.mem_singleton_self left)
  obtain ⟨hspan, hmade⟩ := hopened.merge hstanding hmem
  exact ⟨left, head, inner, right, rfl, hlast, hleft, hparams, hbody, hright, hspan, hmade⟩

theorem BlockAt.made {block : Block} (h : BlockAt used block) (hstanding : Standing text used) :
    Made used block.span := by
  obtain ⟨_, _, _, _, -, -, -, -, -, -, -, hmade⟩ := h.exists_parts hstanding
  exact hmade

mutual

theorem OperandAt.made : ∀ {used : List Token} {expr : Expr}, OperandAt used expr →
    Standing text used → Made used expr.span
  | _, _, .atom h, hstanding => by
    rw [(span_of_atom? h).1]
    exact hstanding.made (List.mem_singleton_self _)
  | _, _, .parenthesized _ h _, hstanding =>
    (h.made (hstanding.sublist ((List.sublist_append_left _ _).cons _))).mono
      (List.subset_cons_of_subset _ (List.subset_append_left _ _))
  | _, _, .block h, hstanding => h.made hstanding

theorem ExpressionAt.made : ∀ {used : List Token} {expr : Expr}, ExpressionAt used expr →
    Standing text used → Made used expr.span
  | _, _, .plain h, hstanding => h.made hstanding
  | _, _, .unary h, hstanding =>
    ((h.made hstanding.left).merge hstanding (List.mem_singleton_self _)).2
  | _, _, .keyword h _ hspan, hstanding => by
    obtain ⟨last, hlast, rfl⟩ := Option.map_eq_some_iff.mp hspan
    exact ((h.made hstanding.left).merge hstanding (List.mem_of_getLast? hlast)).2

end

theorem MessageAt.inOrder {used : List Token} {selector : String} {args : List Expr}
    (h : MessageAt used selector args) (hstanding : Standing text used) :
    InOrder used (args.map Expr.span) := by
  cases h with
  | last _ harg => exact (harg.made hstanding.tail).inOrder.mono (List.subset_cons_self _ _)
  | more _ harg hmore =>
    have hinside := hstanding.tail
    have harg := (harg.made hinside.left).inOrder
    have hargs := hmore.inOrder hinside.right
    exact (harg.append hargs hinside).mono (List.subset_cons_self _ _)

theorem ParamsAt.inOrder {params : List Ident} (h : ParamsAt used params)
    (hstanding : Standing text used) : InOrder used (params.map Ident.span) := by
  induction h with
  | bar => exact .nil
  | param _ _ ih =>
    have hinside := hstanding.tail
    have hothers := ih hinside.tail
    rw [← List.singleton_append] at hinside
    have hname := hinside.left.made (List.mem_singleton_self _)
    exact (hname.inOrder.append hothers hinside).mono (List.subset_cons_self _ _)

theorem AssignmentAt.inOrder {assignment : Assignment} (h : AssignmentAt used assignment)
    (hstanding : Standing text used) :
    InOrder used [assignment.target.span, assignment.value.span] := by
  obtain @⟨sign, dot, inner, target, value, _, hvalue, _⟩ := h
  have hsublist : (⟨.ident target.name, target.span⟩ :: inner).Sublist
      (⟨.ident target.name, target.span⟩ :: sign :: (inner ++ [dot])) :=
    ((List.sublist_append_left _ _).cons sign).cons_cons _
  have hinside : Standing text ([⟨.ident target.name, target.span⟩] ++ inner) :=
    hstanding.sublist hsublist
  have htarget := hinside.left.made (List.mem_singleton_self _)
  have hvalue := hvalue.made hinside.right
  exact (htarget.inOrder.append hvalue.inOrder hinside).mono hsublist.subset

theorem BodyAt.inOrder : ∀ {used : List Token} {body : List Assignment}, BodyAt used body →
    Standing text used →
      InOrder used (body.flatMap fun assignment ↦ [assignment.target.span, assignment.value.span])
  | _, _, .nil, _ => .nil
  | _, _, .cons h hmore, hstanding =>
    (h.inOrder hstanding.left).append (hmore.inOrder hstanding.right) hstanding

theorem BlockAt.inOrder {block : Block} (h : BlockAt used block) (hstanding : Standing text used) :
    InOrder used block.spans := by
  obtain ⟨left, head, inner, right, rfl, -, -, hparams, hbody, -⟩ := h.exists_parts hstanding
  have hsublist : (head ++ inner).Sublist (left :: (head ++ (inner ++ [right]))) :=
    ((List.Sublist.refl head).append (List.sublist_append_left inner [right])).cons left
  have hinside := hstanding.sublist hsublist
  have hparams := hparams.inOrder hinside.left
  have hbody := hbody.inOrder hinside.right
  exact (hparams.append hbody hinside).mono hsublist.subset

/-- A method reaches from the first token of its selector to the last of its body. -/
theorem MethodAt.made {method : Method} (h : MethodAt used method)
    (hstanding : Standing text used) : Made used method.span := by
  obtain ⟨_, _, hfirstSpan, hlastSpan⟩ := h
  obtain ⟨first, hfirst, rfl⟩ := Option.map_eq_some_iff.mp hfirstSpan
  obtain ⟨last, hlast, rfl⟩ := Option.map_eq_some_iff.mp hlastSpan
  have hhead := hstanding.left.made (List.mem_of_head? hfirst)
  exact (hhead.merge hstanding (List.mem_of_getLast? hlast)).2

theorem ClassAt.inOrder {declared : ClassDef} (h : ClassAt used declared)
    (hstanding : Standing text used) : InOrder used declared.spans := by
  obtain @⟨word, colon, parentToken, left, right, name, parent, inner, methods, _, _, hparent, _,
    hmethods, _⟩ := h
  have hsublist : (⟨.classIdent name.name, name.span⟩ :: parentToken :: inner).Sublist
      (word :: ⟨.classIdent name.name, name.span⟩ :: colon :: parentToken :: left ::
        (inner ++ [right])) :=
    (((((List.sublist_append_left inner [right]).cons left).cons_cons parentToken).cons
      colon).cons_cons _).cons word
  have hnames : Standing text ([⟨.classIdent name.name, name.span⟩] ++ ([parentToken] ++ inner)) :=
    hstanding.sublist hsublist
  have hparents := hnames.right
  have hname := hnames.left.made (List.mem_singleton_self _)
  have hparentMade := hparents.left.made (List.mem_singleton_self parentToken)
  rw [← (span_of_anyClass? hparent).1] at hparentMade
  have hinner : InOrder inner (methods.flatMap fun method ↦ [method.span]) :=
    hmethods.inOrder (fun _ _ hat hinside ↦ (hat.made hinside).inOrder) hparents.right
  rw [← List.map_eq_flatMap] at hinner
  exact (hname.inOrder.append (hparentMade.inOrder.append hinner hparents) hnames).mono
    hsublist.subset

/-! ### Brackets -/

end Grammar

theorem Matched.append {front back : List Kind} (hfront : Matched front) (hback : Matched back) :
    Matched (front ++ back) := by
  induction hfront with
  | nil => exact hback
  | plain hkind _ ih => exact .plain hkind ih
  | @pair opening closing inner rest hpair hinner _ _ ih =>
    rw [List.cons_append, List.append_assoc]
    exact .pair hpair hinner ih

theorem matched_singleton {kind : Kind} (h : kind ∉ brackets) : Matched [kind] := .plain h .nil

theorem not_mem_brackets_of_atom? {token : Token} {expr : Expr}
    (h : Reading.atom? token = some expr) : token.kind ∉ brackets := by
  obtain ⟨kind, place⟩ := token
  cases kind with
  | mark _ => cases h
  | keyword _ | builtin _ | classIdent _ | ident _ | stringLit _ | intLit _ | selector _ | eof =>
    simp [brackets]

namespace Grammar

theorem ParamsAt.matched {params : List Ident} (h : ParamsAt used params) :
    Matched (used.map Token.kind) := by
  induction h with
  | bar hbar =>
    rw [List.map_singleton, hbar]
    exact matched_singleton (by decide)
  | param hcolon _ ih =>
    rw [List.map_cons, hcolon]
    exact .plain (by decide) (.plain (by simp [brackets]) ih)

mutual

theorem OperandAt.matched : ∀ {used : List Token} {expr : Expr}, OperandAt used expr →
    Matched (used.map Token.kind)
  | _, _, .atom h => matched_singleton (not_mem_brackets_of_atom? h)
  | _, _, .parenthesized hleft h hright => by
    rw [List.map_cons, List.map_append, List.map_singleton, hleft, hright]
    exact .pair rfl h.matched .nil
  | _, _, .block h => h.matched

theorem ExpressionAt.matched : ∀ {used : List Token} {expr : Expr}, ExpressionAt used expr →
    Matched (used.map Token.kind)
  | _, _, .plain h => h.matched
  | _, _, .unary h => by
    rw [List.map_append]
    exact h.matched.append (matched_singleton (by simp [brackets]))
  | _, _, .keyword h hmore _ => by
    rw [List.map_append]
    exact h.matched.append hmore.matched

theorem MessageAt.matched : ∀ {used : List Token} {selector : String} {args : List Expr},
    MessageAt used selector args → Matched (used.map Token.kind)
  | _, _, _, .last hpart h => by
    rw [List.map_cons, hpart]
    exact .plain (by simp [brackets]) h.matched
  | _, _, _, .more hpart h hmore => by
    rw [List.map_cons, List.map_append, hpart]
    exact .plain (by simp [brackets]) (h.matched.append hmore.matched)

theorem BlockAt.matched : ∀ {used : List Token} {block : Block}, BlockAt used block →
    Matched (used.map Token.kind)
  | _, _, .block hleft hparams hbody hright => by
    rw [← List.append_assoc, List.map_cons, List.map_append, List.map_append, List.map_singleton,
      hleft, hright]
    exact .pair rfl (hparams.matched.append hbody.matched) .nil

theorem BodyAt.matched : ∀ {used : List Token} {body : List Assignment}, BodyAt used body →
    Matched (used.map Token.kind)
  | _, _, .nil => .nil
  | _, _, .cons h hmore => by
    rw [List.map_append]
    exact h.matched.append hmore.matched

theorem AssignmentAt.matched : ∀ {used : List Token} {assignment : Assignment},
    AssignmentAt used assignment → Matched (used.map Token.kind)
  | _, _, .assignment hsign h hdot => by
    rw [List.map_cons, List.map_cons, List.map_append, List.map_singleton, hsign, hdot]
    exact .plain (by simp [brackets]) (.plain (by decide)
      (h.matched.append (matched_singleton (by decide))))

end

/-! ### Blocks and messages -/

theorem ParamsAt.mem_tokens {params : List Ident} (h : ParamsAt used params) :
    ∀ param ∈ params, ⟨.ident param.name, param.span⟩ ∈ used := by
  induction h with
  | bar => exact List.forall_mem_nil _
  | param _ _ ih =>
    exact List.forall_mem_cons.mpr ⟨List.mem_cons_of_mem _ List.mem_cons_self, fun param hparam ↦
      List.mem_cons_of_mem _ (List.mem_cons_of_mem _ (ih param hparam))⟩

/-- The target is a token, and the value stands behind some of the tokens. -/
theorem AssignmentAt.exists_inner {assignment : Assignment} (h : AssignmentAt used assignment) :
    ⟨.ident assignment.target.name, assignment.target.span⟩ ∈ used ∧
      ∃ inner, inner <:+: used ∧ ExpressionAt inner assignment.value := by
  obtain @⟨sign, dot, inner, target, value, _, hvalue, _⟩ := h
  have hinner := isInfix_cons_append sign inner [dot]
  exact ⟨List.mem_cons_self, inner, hinner.trans (List.suffix_cons _ _).isInfix, hvalue⟩

theorem BodyAt.exists_of_mem : ∀ {used : List Token} {body : List Assignment}, BodyAt used body →
    ∀ assignment ∈ body, ∃ inner, inner <:+: used ∧ AssignmentAt inner assignment
  | _, _, .nil => List.forall_mem_nil _
  | _, _, .cons h hmore => by
    refine List.forall_mem_cons.mpr ⟨⟨_, (List.prefix_append _ _).isInfix, h⟩,
      fun assignment hassignment ↦ ?_⟩
    obtain ⟨inner, hwithin, hat⟩ := hmore.exists_of_mem assignment hassignment
    exact ⟨inner, hwithin.trans (List.suffix_append _ _).isInfix, hat⟩

theorem BlockAt.nested {block : Block} (h : BlockAt used block) (hstanding : Standing text tokens)
    (hwithin : used <:+: tokens) : block.Nested text tokens := by
  have hused := hstanding.sublist hwithin.sublist
  have horder := h.inOrder hused
  obtain ⟨left, head, inner, right, rfl, hlast, hleft, hparams, hbody, hright, hspan, hmade⟩ :=
    h.exists_parts hused
  have hinside : ∀ token ∈ left :: (head ++ (inner ++ [right])),
      block.span.Contains token.span := by
    rw [hspan]
    exact fun token htoken ↦ ⟨hused.start_le rfl token htoken, hused.stop_le hlast token htoken⟩
  refine ⟨hmade.proper hused, ⟨?_, ?_⟩, horder.holds hinside, fun param hparam ↦ ?_,
    fun assignment hassignment ↦ ?_⟩
  · obtain ⟨before, after, rfl⟩ := hwithin
    refine ⟨before, left, head ++ inner, right, after, by simp, hleft, ?_, hright, hspan⟩
    rw [List.map_append]
    exact hparams.matched.append hbody.matched
  · have hrightMem : right ∈ head ++ (inner ++ [right]) := by simp
    have hbefore : left.span.stop ≤ right.span.start :=
      (List.pairwise_cons.mp hused.ordered).1 right hrightMem
    have hopening := hused.placed left List.mem_cons_self
    have hclosing := hused.placed right (List.mem_cons_of_mem _ hrightMem)
    have hmerge := Span.merge_eq_of_before hopening.proper.1 hclosing.proper.1 hbefore
    obtain ⟨between, hstands⟩ := exists_stands_merge hopening.stands hclosing.stands hbefore
    rw [hleft, hright, hmerge, ← hspan] at hstands
    exact ⟨between, hstands.slice_eq⟩
  · have hmem := List.mem_append_left (inner ++ [right]) (hparams.mem_tokens param hparam)
    exact (hused.placed _ (List.mem_cons_of_mem left hmem)).lexed rfl
  · obtain ⟨part, hpart, hat⟩ := hbody.exists_of_mem assignment hassignment
    have hmem := List.mem_append_left [right] (hpart.subset hat.exists_inner.1)
    exact (hused.placed _ (List.mem_cons_of_mem left (List.mem_append_right head hmem))).lexed rfl

/-- Parentheses around the receiver stand in front of the message, and so what holds it does not
hold all of its tokens. -/
theorem nested_send {receiver : Expr} {args : List Expr} {last : Token} (selector : String)
    (hreceiver : OperandAt used receiver) (hargs : InOrder more (args.map Expr.span))
    (hlast : more.getLast? = some last) (hstanding : Standing text (used ++ more)) :
    (Expr.send receiver selector args (receiver.span.merge last.span)).Nested text tokens := by
  have hmade := hreceiver.made hstanding.left
  have hmore := hstanding.sublist (List.sublist_append_right used more)
  obtain ⟨hspan, hwhole⟩ := hmade.merge hstanding (List.mem_of_getLast? hlast)
  have hproper := hmade.proper hstanding.left
  have hbefore := hmade.before (hmore.made (List.mem_of_getLast? hlast)) hstanding
  have hlastProper := (hmore.placed last (List.mem_of_getLast? hlast)).proper
  rw [Expr.Nested]
  have hordered := (hmade.inOrder.append hargs hstanding).ordered
  refine ⟨hwhole.proper hstanding, by rw [hspan], ?_, hordered⟩
  rw [hspan]
  refine List.forall_mem_cons.mpr ⟨⟨Nat.le_refl _, ?_⟩, fun arg harg ↦ ⟨?_, ?_⟩⟩
  · exact Nat.le_trans hbefore (Nat.le_of_lt hlastProper.1)
  · exact Nat.le_trans (Nat.le_of_lt hproper.1) (hmade.before (hargs.made arg harg) hstanding)
  · obtain ⟨-, -, final, hfinal, rfl, -⟩ := hargs.made arg harg
    exact hmore.stop_le hlast final hfinal

mutual

theorem OperandAt.nested : ∀ {used : List Token} {expr : Expr}, OperandAt used expr →
    Standing text tokens → used <:+: tokens → expr.Nested text tokens
  | _, _, .atom h, hstanding, hwithin =>
    nested_of_atom? h (hstanding.placed _ (hwithin.subset (List.mem_singleton_self _)))
  | _, _, .parenthesized _ h _, hstanding, hwithin =>
    h.nested hstanding ((isInfix_cons_append _ _ _).trans hwithin)
  | _, _, .block h, hstanding, hwithin => h.nested hstanding hwithin

theorem ExpressionAt.nested : ∀ {used : List Token} {expr : Expr}, ExpressionAt used expr →
    Standing text tokens → used <:+: tokens → expr.Nested text tokens
  | _, _, .plain h, hstanding, hwithin => h.nested hstanding hwithin
  | _, _, .unary h, hstanding, hwithin =>
    nested_send _ h .nil rfl (hstanding.sublist hwithin.sublist)
  | _, _, .keyword h hmore hspan, hstanding, hwithin => by
    obtain ⟨last, hlast, rfl⟩ := Option.map_eq_some_iff.mp hspan
    have hused := hstanding.sublist hwithin.sublist
    have hargs := hmore.inOrder hused.right
    exact nested_send _ h hargs hlast hused

end

/-! ### The parts of an expression -/

theorem MessageAt.exists_of_mem : ∀ {used : List Token} {selector : String} {args : List Expr},
    MessageAt used selector args → ∀ arg ∈ args, ∃ inner, inner <:+: used ∧ OperandAt inner arg
  | _, _, _, .last _ h => List.forall_mem_singleton.mpr ⟨_, (List.suffix_cons _ _).isInfix, h⟩
  | _, _, _, .more _ h hmore => by
    refine List.forall_mem_cons.mpr ⟨⟨_, isInfix_cons_append _ _ _, h⟩, fun arg harg ↦ ?_⟩
    obtain ⟨inner, hwithin, hat⟩ := hmore.exists_of_mem arg harg
    exact ⟨inner,
      hwithin.trans ((List.suffix_append _ _).trans (List.suffix_cons _ _)).isInfix, hat⟩

theorem BlockAt.exists_value {block : Block} (h : BlockAt used block) :
    ∀ assignment ∈ block.body, ∃ inner, inner <:+: used ∧ ExpressionAt inner assignment.value := by
  obtain @⟨left, right, head, body, _, _, _, _, hbody, _⟩ := h
  intro assignment hassignment
  obtain ⟨part, hpart, hat⟩ := hbody.exists_of_mem assignment hassignment
  obtain ⟨-, inner, hinner, hvalue⟩ := hat.exists_inner
  have hback : body <:+: left :: (head ++ (body ++ [right])) := by
    rw [← List.append_assoc]
    exact (List.suffix_append head body).isInfix.trans (isInfix_cons_append _ _ _)
  exact ⟨inner, (hinner.trans hpart).trans hback, hvalue⟩

mutual

/-- What stands directly inside an expression stands behind some of its tokens. -/
theorem OperandAt.exists_child : ∀ {used : List Token} {expr : Expr}, OperandAt used expr →
    ∀ child ∈ expr.children, ∃ inner, inner <:+: used ∧ ExpressionAt inner child
  | _, _, .atom h => by
    rw [(span_of_atom? h).2]
    exact List.forall_mem_nil _
  | _, _, .parenthesized _ h _ => fun child hchild ↦ by
    obtain ⟨inner, hwithin, hat⟩ := h.exists_child child hchild
    exact ⟨inner, hwithin.trans (isInfix_cons_append _ _ _), hat⟩
  | _, _, .block h => List.forall_mem_map.mpr h.exists_value

theorem ExpressionAt.exists_child : ∀ {used : List Token} {expr : Expr}, ExpressionAt used expr →
    ∀ child ∈ expr.children, ∃ inner, inner <:+: used ∧ ExpressionAt inner child
  | _, _, .plain h => h.exists_child
  | _, _, .unary h =>
    List.forall_mem_singleton.mpr ⟨_, (List.prefix_append _ _).isInfix, .plain h⟩
  | _, _, .keyword h hmore _ => by
    refine List.forall_mem_cons.mpr ⟨⟨_, (List.prefix_append _ _).isInfix, .plain h⟩,
      fun arg harg ↦ ?_⟩
    obtain ⟨inner, hwithin, hat⟩ := hmore.exists_of_mem arg harg
    exact ⟨inner, hwithin.trans (List.suffix_append _ _).isInfix, .plain hat⟩

end

theorem ExpressionAt.nested_of_partOf {whole part : Expr} (h : ExpressionAt used whole)
    (hwithin : used <:+: tokens) (hstanding : Standing text tokens) (hpart : part.PartOf whole) :
    part.Nested text tokens := by
  have hchildren : ∀ expr : Expr, (∃ inner, inner <:+: tokens ∧ ExpressionAt inner expr) →
      ∀ child ∈ expr.children, ∃ inner, inner <:+: tokens ∧ ExpressionAt inner child := by
    rintro expr ⟨outer, houter, hat⟩ child hchild
    obtain ⟨inner, hinner, hchildAt⟩ := hat.exists_child child hchild
    exact ⟨inner, hinner.trans houter, hchildAt⟩
  obtain ⟨inner, hinner, hat⟩ := hpart.of_children hchildren ⟨used, hwithin, h⟩
  exact hat.nested hstanding hinner

/-! ### Methods and classes -/

theorem HeadingAt.ne_nil {selector : String × Nat} (h : HeadingAt used selector) : used ≠ [] := by
  cases h with
  | name => exact List.cons_ne_nil _ _
  | parts hkinds hne =>
    rintro rfl
    exact hne (List.map_eq_nil_iff.mp hkinds.symm)

theorem MethodAt.nested {method : Method} (h : MethodAt used method)
    (hstanding : Standing text tokens) (hwithin : used <:+: tokens) :
    method.Nested text tokens := by
  have hused := hstanding.sublist hwithin.sublist
  have hproper := (h.made hused).proper hused
  obtain @⟨head, body, selector, content, _, _, hhead, hbody, hfirstSpan, hlastSpan⟩ := h
  obtain ⟨first, parts, rfl⟩ := List.exists_cons_of_ne_nil hhead.ne_nil
  obtain ⟨left, params, inner, right, rfl, hlast, hleft, -, -, -, hspan, -⟩ :=
    hbody.exists_parts hused.right
  obtain rfl := Option.some.inj hfirstSpan
  rw [hlast] at hlastSpan
  obtain rfl := Option.some.inj hlastSpan
  have hbefore : first.span.stop ≤ left.span.start :=
    (List.pairwise_append.mp hused.ordered).2.2 first List.mem_cons_self left List.mem_cons_self
  have hopened := (hused.sublist (List.sublist_append_left (first :: parts) _)).made
    List.mem_cons_self
  have hmerge := (hopened.merge hused (List.mem_of_getLast? hlast)).1
  have hfirst := (hused.placed first (List.mem_append_left _ List.mem_cons_self)).proper.1
  have hstart : (first.span.merge right.span).start = first.span.start := by rw [hmerge]
  have hbodyStart : content.span.start = left.span.start := by rw [hspan]
  obtain ⟨before, after, rfl⟩ := hwithin
  refine ⟨hproper, ⟨before, first, parts, left, params ++ (inner ++ right :: after), by simp, hhead,
    hleft, hstart, hbodyStart⟩, ?_, ?_⟩
  · change (first.span.merge right.span).Contains content.span
    rw [hmerge, hspan]
    exact ⟨Nat.le_trans (Nat.le_of_lt hfirst) hbefore, Nat.le_refl _⟩
  · change (first.span.merge right.span).stop = content.span.stop
    rw [hmerge, hspan]

theorem MethodAt.exists_body {method : Method} (h : MethodAt used method) :
    ∃ inner, inner <:+: used ∧ BlockAt inner method.body := by
  obtain ⟨_, hbody, _, _⟩ := h
  exact ⟨_, (List.suffix_append _ _).isInfix, hbody⟩

theorem ClassAt.lexed {declared : ClassDef} (h : ClassAt used declared)
    (hstanding : Standing text used) :
    Lexed text declared.name.span declared.name.name.toList ∧
      Lexed text declared.parent.span declared.parent.name.toList := by
  obtain @⟨_, _, parentToken, _, _, _, _, _, _, _, _, hparent, _, _, _⟩ := h
  obtain ⟨hspan, hspelling⟩ := span_of_anyClass? hparent
  rw [hspan]
  exact ⟨(hstanding.placed _ (List.mem_cons_of_mem _ List.mem_cons_self)).lexed rfl,
    (hstanding.placed parentToken (by simp)).lexed hspelling⟩

theorem ManyAt.exists_infix_of_mem {α : Type} {At : List Token → α → Prop} {items : List α}
    (h : ManyAt At used items) : ∀ item ∈ items, ∃ inner, inner <:+: used ∧ At inner item := by
  induction h with
  | nil => exact List.forall_mem_nil _
  | cons hitem _ ih =>
    refine List.forall_mem_cons.mpr ⟨⟨_, (List.prefix_append _ _).isInfix, hitem⟩,
      fun item hmem ↦ ?_⟩
    obtain ⟨inner, hwithin, hat⟩ := ih item hmem
    exact ⟨inner, hwithin.trans (List.suffix_append _ _).isInfix, hat⟩

theorem ClassAt.exists_method {declared : ClassDef} (h : ClassAt used declared) :
    ∀ method ∈ declared.methods, ∃ inner, inner <:+: used ∧ MethodAt inner method := by
  obtain @⟨word, colon, parentToken, left, right, name, _, inner, _, _, _, _, _, hmethods, _⟩ := h
  intro method hmethod
  obtain ⟨part, hpart, hat⟩ := hmethods.exists_infix_of_mem method hmethod
  refine ⟨part, hpart.trans ⟨[word, ⟨.classIdent name.name, name.span⟩, colon, parentToken, left],
    [right], ?_⟩, hat⟩
  simp

end Grammar

/-! ### Programs -/

theorem Program.nested_of_manyAt {program : Program} (h : ManyAt ClassAt tokens program.classes)
    (hstanding : Standing text tokens) : program.Nested text tokens := by
  have hordered : InOrder tokens (program.classes.flatMap ClassDef.spans) :=
    h.inOrder (fun _ _ hat hused ↦ hat.inOrder hused) hstanding
  have hmethods : ∀ declared ∈ program.classes, ∀ method ∈ declared.methods,
      ∃ inner, inner <:+: tokens ∧ MethodAt inner method := by
    intro declared hdeclared method hmethod
    obtain ⟨used, hused, hat⟩ := h.exists_infix_of_mem declared hdeclared
    obtain ⟨inner, hinner, hmethodAt⟩ := hat.exists_method method hmethod
    exact ⟨inner, hinner.trans hused, hmethodAt⟩
  refine ⟨hordered.ordered, fun declared hdeclared ↦ ?_, fun declared hdeclared method hmethod ↦ ?_,
    fun part hpart ↦ ?_⟩
  · obtain ⟨used, hused, hat⟩ := h.exists_infix_of_mem declared hdeclared
    exact hat.lexed (hstanding.sublist hused.sublist)
  · obtain ⟨inner, hinner, hat⟩ := hmethods declared hdeclared method hmethod
    exact hat.nested hstanding hinner
  · obtain ⟨declared, hdeclared, method, hmethod, hinside⟩ := hpart
    obtain ⟨inner, hinner, hat⟩ := hmethods declared hdeclared method hmethod
    obtain ⟨body, hbody, hbodyAt⟩ := hat.exists_body
    have hexpression : ExpressionAt body (.block method.body) := .plain (.block hbodyAt)
    exact hexpression.nested_of_partOf (hbody.trans hinner) hstanding hinside

/-- The spans of a program that is read from a text nest and follow the text. -/
theorem Program.nested_of_ofText_eq_ok {program : Program} (h : Program.ofText text = .ok program) :
    ∃ tokens, (Scanner.ofText text).tokens.1 =
        .ok (tokens ++ [⟨.eof, ⟨text.length, text.length⟩⟩]) ∧ program.Nested text tokens := by
  obtain ⟨tokens, comments, hsplits, hclasses, -⟩ := Program.ofText_eq_ok_iff.mp h
  exact ⟨tokens, (Scanner.tokens_ofText_of_splits hsplits).1,
    Program.nested_of_manyAt (Reading.classesAt_of_classes_eq_ok hclasses)
      ⟨hsplits.placed [] rfl, hsplits.ordered⟩⟩

/-- A message in parentheses is the receiver of another one, whose arguments are a number in
parentheses and a block, and which stands in parentheses itself. -/
def messagesInParentheses : List Char :=
  "class Main:Object\x7brun[|x:=((self a)b:(1)c:[:y|z:='s'.]).]\x7d".toList

theorem Program.nested_of_messagesInParentheses :
    ∃ program, ofText messagesInParentheses = .ok program ∧
      ∃ tokens, (Scanner.ofText messagesInParentheses).tokens.1 =
          .ok (tokens ++ [⟨.eof, ⟨messagesInParentheses.length, messagesInParentheses.length⟩⟩]) ∧
        program.Nested messagesInParentheses tokens := by
  obtain ⟨program, hread⟩ : ∃ program, ofText messagesInParentheses = .ok program :=
    exists_eq_ok_of_isOk (by decide +kernel)
  exact ⟨program, hread, nested_of_ofText_eq_ok hread⟩

end Sol25
