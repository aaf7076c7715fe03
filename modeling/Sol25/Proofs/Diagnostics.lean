import Mathlib.Data.List.TakeWhile
import Sol25.Proofs.Analysis.FirstFault
import Sol25.Proofs.Grammar.Arity
import Sol25.Proofs.Grammar.Located
import Sol25.Proofs.Grammar.Stopping
import Sol25.Proofs.Lexis.Places
import Sol25.Proofs.Stages

/-!
# A fault points at what it names

Every fault with a place carries a span of the text, and what the span covers is what the fault is
about (`Defect.Names`): the character, the lexeme, the name that is wrong or the whole of a message
or a method, as the case may be. `names_of_documentOf_eq_error` says this of every fault that keeps
a text from having a document.

A fault of the first stage comes from the rest at which the text is stuck, and one of the second
stage from the token at which the readers stop. For a fault of the analysis the parts of the program
are followed back to the tokens behind them (`OperandAt`), and the tokens to the text (`Placed`).
-/

set_option autoImplicit false
set_option relaxedAutoImplicit false

namespace Sol25

open Check (forall_mem_faultUnless)
open Grammar Lexis
open Token (Kind)

/-- A selector up to its first colon. -/
def firstPart (selector : String) : List Char :=
  selector.toList.takeWhile (· ≠ ':') ++ (selector.toList.dropWhile (· ≠ ':')).take 1

/-- What a defect is about is what the span covers. -/
def Defect.Names (text : List Char) (span : Span) : Defect → Prop
  | .unexpectedChar c => span.slice text = [c]
  | .invalidEscape c => ∃ body, span.slice text = '\'' :: (body ++ ['\\', c])
  | .unterminatedComment =>
    (∃ body, span.slice text = '"' :: body ∧ '"' ∉ body) ∧ span.stop = text.length
  | .unterminatedString =>
    (∃ body, span.slice text = '\'' :: body) ∧
      (span.stop = text.length ∨ text[span.stop]? = some '\n')
  | .unexpectedToken _ got =>
    (∃ kind, got = kind.display ∧ IsLexeme kind (span.slice text) (text.drop span.stop)) ∨
      got = Kind.eof.display ∧ span.slice text = [] ∧ span.start = text.length
  | .nestingTooDeep _ => span.slice text = ['('] ∨ span.slice text = ['[']
  | .undefinedVariable name | .undefinedClass name | .variableCollision name
  | .duplicateParameter name | .duplicateClass name | .circularInheritance name =>
    span.slice text = name.toList
  | .missingRun => span.slice text = "Main".toList
  | .undefinedMethod className _ => className.toList <+: span.slice text
  | .duplicateMethod _ selector | .arityMismatch selector _ _ =>
    firstPart selector <+: span.slice text ∧ (span.slice text).getLast? = some ']'

/-- A fault that has a place has it within the text, and names what stands there. -/
def Fault.Names (text : List Char) : Fault → Prop
  | .located defect span => span.Within text ∧ defect.Names text span
  | .unlocated _ => True

variable {text : List Char} {tokens used : List Token} {fault : Fault}

/-! ### Faults of the first two stages -/

theorem names_of_stands {defect : Defect} {span : Span} {shown : List Char}
    (h : Stands text span shown) (hnames : span.slice text = shown → defect.Names text span) :
    (Fault.located defect span).Names text :=
  ⟨h.within, hnames h.slice_eq⟩

/-- The fault of a text that is stuck stands at the head of the rest. -/
theorem names_of_stuck {front rest : List Char} (h : Stuck front.length rest fault) :
    fault.Names (front ++ rest) := by
  have hstands (shown back : List Char) :
      Stands (front ++ (shown ++ back)) ⟨front.length, front.length + shown.length⟩ shown :=
    ⟨front, back, rfl, rfl⟩
  cases h with
  | @comment body hbody =>
    have hcomment := hstands ('"' :: body) []
    rw [List.append_nil] at hcomment
    exact names_of_stands hcomment fun hslice ↦ ⟨⟨body, hslice, hbody⟩, by simp⟩
  | @string body tail defect used hbody htail =>
    cases htail with
    | textEnd =>
      exact names_of_stands (hstands ('\'' :: body) []) fun hslice ↦
        ⟨⟨body, hslice⟩, .inl (by simp)⟩
    | lineFeed rest =>
      exact names_of_stands (hstands ('\'' :: body) ('\n' :: rest)) fun hslice ↦
        ⟨⟨body, hslice⟩, .inr (by simp)⟩
    | backslash =>
      have hstring := hstands ('\'' :: (body ++ ['\\'])) []
      simp only [List.length_cons, List.length_append, List.length_nil, List.append_nil] at hstring
      exact names_of_stands hstring fun hslice ↦ ⟨⟨_, hslice⟩, .inl (by simp)⟩
    | @escape c hc rest =>
      have hstring := hstands ('\'' :: (body ++ ['\\', c])) rest
      simp only [List.cons_append, List.length_cons, List.length_append, List.length_nil,
        List.append_assoc, List.nil_append] at hstring
      exact names_of_stands hstring fun hslice ↦ ⟨body, hslice⟩
  | @unexpected c rest _ _ _ _ => exact names_of_stands (hstands [c] rest) id

theorem Grammar.spelling_of_isOpening {kind : Kind} (h : Reading.IsOpening kind) :
    spelling kind = ['('] ∨ spelling kind = ['['] := by
  rcases h with rfl | rfl
  · exact .inl rfl
  · exact .inr rfl

/-- The readers stop in front of a token or at the end of the input, and in front of an opening if
they complain about their depth. -/
theorem names_of_classes_eq_error {comments : List (List Char)} {rest : List Token}
    {reason : Reading.Reason} (hplaced : ∀ token ∈ tokens, Placed text token)
    (h : Reading.classes tokens = .error ⟨reason, rest⟩) :
    ((Session.ofSplit text rest comments).fault reason).Names text := by
  obtain ⟨used, more, program, htokens, -, hlimit⟩ := Reading.completable_classes h
  change tokens = used ++ rest at htokens
  cases rest with
  | nil =>
    have hend : Stands text ⟨text.length, text.length⟩ [] := ⟨text, [], by simp, rfl⟩
    cases reason with
    | expected what => exact names_of_stands hend fun hslice ↦ .inr ⟨rfl, hslice, rfl⟩
    | tooDeep =>
      obtain ⟨⟨kind, hkind, -⟩, -⟩ := hlimit rfl
      cases hkind
  | cons token rest =>
    have htoken : Placed text token := hplaced token (by rw [htokens]; simp)
    cases reason with
    | expected what =>
      exact ⟨htoken.stands.within, .inl ⟨token.kind, rfl, htoken.isLexeme_slice⟩⟩
    | tooDeep =>
      obtain ⟨⟨kind, hkind, hopening⟩, -⟩ := hlimit rfl
      obtain rfl := Option.some.inj hkind
      refine names_of_stands htoken.stands fun hslice ↦ ?_
      rw [Defect.Names, hslice]
      exact spelling_of_isOpening hopening

/-! ### Faults of the analysis -/

/-- These tokens stand in the text, one behind the other. -/
structure Standing (text : List Char) (tokens : List Token) : Prop where
  placed : ∀ token ∈ tokens, Placed text token
  ordered : tokens.Pairwise Precedes

theorem Standing.sublist (h : Standing text tokens) (hused : used.Sublist tokens) :
    Standing text used :=
  ⟨fun token htoken ↦ h.placed token (hused.subset htoken), h.ordered.sublist hused⟩

theorem Standing.left {front back : List Token} (h : Standing text (front ++ back)) :
    Standing text front :=
  h.sublist (List.sublist_append_left _ _)

theorem Standing.tail {token : Token} (h : Standing text (token :: used)) : Standing text used :=
  h.sublist (List.sublist_cons_self _ _)

theorem Standing.right {front back : List Token} (h : Standing text (front ++ back)) :
    Standing text back :=
  h.sublist (List.sublist_append_right _ _)

/-- Some of the tokens come from one of the items. -/
theorem Grammar.ManyAt.exists_of_mem {α : Type} {At : List Token → α → Prop} {items : List α}
    (h : ManyAt At tokens items) : ∀ item ∈ items, ∃ used, used.Sublist tokens ∧ At used item := by
  induction h with
  | nil => exact List.forall_mem_nil _
  | cons hitem _ ih =>
    refine List.forall_mem_cons.mpr ⟨⟨_, List.sublist_append_left _ _, hitem⟩, fun item hmem ↦ ?_⟩
    obtain ⟨used, hsublist, hat⟩ := ih item hmem
    exact ⟨used, hsublist.trans (List.sublist_append_right _ _), hat⟩

section

variable {program : Program} {expr : Expr}

/-- A class that is named by a token stands where the token does. -/
theorem exists_token_of_atom {token : Token} {name : String} (h : Reading.atom? token = some expr)
    (hname : expr.className? = some name) :
    token.span = expr.span ∧ spelling token.kind = name.toList := by
  obtain ⟨kind, span⟩ := token
  cases kind with
  | keyword word => cases word <;> cases h <;> cases hname
  | builtin which | classIdent own =>
    cases h
    obtain rfl := Option.some.inj hname
    exact ⟨rfl, rfl⟩
  | ident _ | stringLit _ | intLit _ =>
    cases h
    cases hname
  | selector _ | mark _ | eof => cases h

theorem names_of_atom {token : Token} (h : Reading.atom? token = some expr)
    (hplaced : Placed text token) (visible : List String) :
    ∀ fault ∈ program.exprFaults visible expr, fault.Names text := by
  have hstands := hplaced.stands
  obtain ⟨kind, span⟩ := token
  cases kind with
  | keyword word =>
    cases word <;> cases h
    all_goals try exact List.forall_mem_nil _
    all_goals exact forall_mem_faultUnless (names_of_stands hstands id)
  | builtin which | classIdent own | ident name =>
    cases h
    exact forall_mem_faultUnless (names_of_stands hstands id)
  | stringLit _ | intLit _ =>
    cases h
    exact List.forall_mem_nil _
  | selector _ | mark _ | eof => cases h

mutual

/-- A class that is named by an operand is one of its tokens. -/
theorem Grammar.OperandAt.exists_token : ∀ {used : List Token} {expr : Expr} {name : String},
    OperandAt used expr → expr.className? = some name →
      ∃ token ∈ used, token.span = expr.span ∧ spelling token.kind = name.toList
  | _, _, _, .atom h, hname => ⟨_, List.mem_singleton_self _, exists_token_of_atom h hname⟩
  | _, _, _, .parenthesized _ h _, hname => by
    obtain ⟨token, htoken, heq⟩ := h.exists_token hname
    exact ⟨token, List.mem_cons_of_mem _ (List.mem_append_left _ htoken), heq⟩
  | _, _, _, .block _, hname => nomatch hname

theorem Grammar.ExpressionAt.exists_token : ∀ {used : List Token} {expr : Expr} {name : String},
    ExpressionAt used expr → expr.className? = some name →
      ∃ token ∈ used, token.span = expr.span ∧ spelling token.kind = name.toList
  | _, _, _, .plain h, hname => h.exists_token hname
  | _, _, _, .unary _, hname => nomatch hname
  | _, _, _, .keyword _ _ _, hname => nomatch hname

end

/-- A message to a class that is named begins with the name. -/
theorem names_of_mem_messageFaults {used more : List Token} {receiver : Expr} {selector : String}
    {last : Span} (h : OperandAt used receiver) (hstanding : Standing text (used ++ more))
    (hlast : more.getLast?.map Token.span = some last) :
    ∀ fault ∈ program.messageFaults receiver selector (receiver.span.merge last),
      fault.Names text := by
  unfold Program.messageFaults
  split
  · exact List.forall_mem_nil _
  · next name hname =>
    obtain ⟨token, htoken, hspan, hspelling⟩ := h.exists_token hname
    obtain ⟨final, hfinal, rfl⟩ := Option.map_eq_some_iff.mp hlast
    have hmem : final ∈ more := List.mem_of_getLast? hfinal
    have hfirst := (hstanding.placed token (List.mem_append_left _ htoken)).stands
    have hend := (hstanding.placed final (List.mem_append_right _ hmem)).stands
    have hle : token.span.stop ≤ final.span.start :=
      (List.pairwise_append.mp hstanding.ordered).2.2 token htoken final hmem
    obtain ⟨between, hstands⟩ := exists_stands_merge hfirst hend hle
    rw [hspan, hspelling] at hstands
    refine forall_mem_faultUnless (names_of_stands hstands fun hslice ↦ ?_)
    rw [Defect.Names, hslice]
    exact List.prefix_append _ _

/-- Every parameter stands where its name was read. -/
theorem Grammar.ParamsAt.stands {params : List Ident} (h : ParamsAt used params)
    (hstanding : Standing text used) :
    ∀ param ∈ params, Stands text param.span param.name.toList := by
  induction h with
  | bar => exact List.forall_mem_nil _
  | param _ _ ih =>
    have hname := hstanding.placed _ (List.mem_cons_of_mem _ List.mem_cons_self)
    refine List.forall_mem_cons.mpr ⟨hname.stands, ih (hstanding.sublist ?_)⟩
    exact ((List.Sublist.refl _).cons _).cons _

mutual

theorem Grammar.OperandAt.names : ∀ {used : List Token} {expr : Expr}, OperandAt used expr →
    Standing text used → ∀ visible, ∀ fault ∈ program.exprFaults visible expr, fault.Names text
  | _, _, .atom h, hstanding => names_of_atom h (hstanding.placed _ (List.mem_singleton_self _))
  | _, _, .parenthesized _ h _, hstanding =>
    h.names (hstanding.sublist ((List.sublist_append_left _ _).cons _))
  | _, _, .block h, hstanding => by
    intro visible
    rw [Program.exprFaults]
    exact h.names hstanding visible

theorem Grammar.ExpressionAt.names : ∀ {used : List Token} {expr : Expr}, ExpressionAt used expr →
    Standing text used → ∀ visible, ∀ fault ∈ program.exprFaults visible expr, fault.Names text
  | _, _, .plain h, hstanding => h.names hstanding
  | _, _, .unary h, hstanding => by
    intro visible
    rw [Program.exprFaults, Program.argsFaults, List.nil_append, List.forall_mem_append]
    exact ⟨h.names hstanding.left visible,
      names_of_mem_messageFaults h hstanding rfl⟩
  | _, _, .keyword h hmore hlast, hstanding => by
    intro visible
    rw [Program.exprFaults, List.forall_mem_append, List.forall_mem_append]
    exact ⟨h.names hstanding.left visible,
      hmore.names hstanding.right visible,
      names_of_mem_messageFaults h hstanding hlast⟩

theorem Grammar.MessageAt.names : ∀ {used : List Token} {selector : String} {args : List Expr},
    MessageAt used selector args → Standing text used →
      ∀ visible, ∀ fault ∈ program.argsFaults visible args, fault.Names text
  | _, _, _, .last _ h, hstanding => by
    intro visible
    rw [Program.argsFaults, Program.argsFaults, List.append_nil]
    exact h.names (hstanding.sublist ((List.Sublist.refl _).cons _)) visible
  | _, _, _, .more _ h hmore, hstanding => by
    intro visible
    rw [Program.argsFaults, List.forall_mem_append]
    exact ⟨h.names (hstanding.sublist ((List.sublist_append_left _ _).cons _)) visible,
      hmore.names (hstanding.sublist ((List.sublist_append_right _ _).cons _)) visible⟩

theorem Grammar.BlockAt.names : ∀ {used : List Token} {block : Block}, BlockAt used block →
    Standing text used → ∀ visible, ∀ fault ∈ program.blockFaults visible block, fault.Names text
  | _, _, .block _ hparams hbody _, hstanding => by
    intro visible
    have hinside := hstanding.tail
    have hstands := hparams.stands hinside.left
    rw [Program.blockFaults, List.forall_mem_append, List.forall_mem_map]
    refine ⟨fun param hparam ↦ names_of_stands (hstands param (mem_of_mem_repeats hparam)) id, ?_⟩
    exact hbody.names (hinside.sublist
      ((List.sublist_append_left _ _).trans (List.sublist_append_right _ _))) _ _

theorem Grammar.BodyAt.names : ∀ {used : List Token} {body : List Assignment}, BodyAt used body →
    Standing text used →
      ∀ params visible, ∀ fault ∈ program.bodyFaults params visible body, fault.Names text
  | _, _, .nil, _ => by
    intro params visible
    rw [Program.bodyFaults]
    exact List.forall_mem_nil _
  | _, _, .cons (.assignment _ h _) hmore, hstanding => by
    intro params visible
    have hfirst := hstanding.left
    have htarget := (hfirst.placed _ List.mem_cons_self).stands
    have hvalue := hfirst.sublist (((List.sublist_append_left _ _).cons _).cons _)
    rw [Program.bodyFaults, List.forall_mem_append, List.forall_mem_append]
    exact ⟨forall_mem_faultUnless (names_of_stands htarget id), h.names hvalue _,
      hmore.names hstanding.right _ _⟩

end

/-! ### Methods -/

theorem Lexis.LowerWord.not_mem_colon {word : String} (h : LowerWord word) : ':' ∉ word.toList :=
  List.count_eq_zero.mp h.count_colon

/-- A selector without a colon is a part by itself. -/
theorem firstPart_eq_toList {word : String} (h : ':' ∉ word.toList) :
    firstPart word = word.toList := by
  have hpass : ∀ c ∈ word.toList, decide (c ≠ ':') := fun c hc ↦
    decide_eq_true fun heq ↦ h (heq ▸ hc)
  rw [firstPart, List.takeWhile_eq_self_iff.mpr hpass, List.dropWhile_eq_nil_iff.mpr hpass]
  exact List.append_nil _

theorem firstPart_append {word : String} (h : ':' ∉ word.toList) (rest : String) :
    firstPart (word ++ ":" ++ rest) = (word ++ ":").toList := by
  have hpass : ∀ c ∈ word.toList, decide (c ≠ ':') := fun c hc ↦
    decide_eq_true fun heq ↦ h (heq ▸ hc)
  have hsplit : (word ++ ":" ++ rest).toList = word.toList ++ ':' :: rest.toList := by simp
  rw [firstPart, hsplit, List.takeWhile_append_of_pos hpass, List.dropWhile_append_of_pos hpass]
  simp

/-- The selector of a method begins with its first part. -/
theorem Grammar.HeadingAt.exists_first {selector : String × Nat} (h : HeadingAt used selector)
    (hstanding : Standing text used) :
    ∃ first, used.head? = some first ∧ spelling first.kind = firstPart selector.1 := by
  cases h with
  | name =>
    refine ⟨_, rfl, ?_⟩
    obtain ⟨hword, -⟩ := (hstanding.placed _ List.mem_cons_self).spelled
    exact (firstPart_eq_toList hword.not_mem_colon).symm
  | @parts used parts hkinds hne =>
    obtain ⟨part, others, rfl⟩ := List.exists_cons_of_ne_nil hne
    obtain ⟨first, rest, rfl, hfirst, -⟩ := List.map_eq_cons_iff.mp hkinds
    refine ⟨first, rfl, ?_⟩
    have hspelled := (hstanding.placed first List.mem_cons_self).spelled
    rw [hfirst] at hspelled ⊢
    obtain ⟨word, hword, rfl⟩ := hspelled
    rw [String.join_cons, firstPart_append hword.not_mem_colon]
    rfl

theorem Grammar.BlockAt.exists_last {block : Block} (h : BlockAt used block) :
    ∃ last, used.getLast? = some last ∧ last.kind = .mark .rightBracket := by
  obtain @⟨left, right, head, inner, _, _, _, _, _, hright⟩ := h
  refine ⟨right, ?_, hright⟩
  rw [← List.append_assoc, ← List.cons_append, List.getLast?_concat]

/-- A method reaches from the first part of its selector to the bracket that ends its body. -/
theorem Grammar.MethodAt.exists_stands {method : Method} (h : MethodAt used method)
    (hstanding : Standing text used) :
    ∃ between, Stands text method.span (firstPart method.selector ++ (between ++ [']'])) := by
  obtain @⟨head, body, selector, _, _, _, hhead, hbody, hfirst, hlast⟩ := h
  obtain ⟨first, hhead?, hspelling⟩ :=
    hhead.exists_first hstanding.left
  obtain ⟨last, hlast?, hright⟩ := hbody.exists_last
  rw [hhead?] at hfirst
  rw [hlast?] at hlast
  obtain rfl := Option.some.inj hfirst
  obtain rfl := Option.some.inj hlast
  have hfirstMem : first ∈ head := List.mem_of_head? hhead?
  have hlastMem : last ∈ body := List.mem_of_getLast? hlast?
  have hfirstStands := (hstanding.placed first (List.mem_append_left _ hfirstMem)).stands
  have hlastStands := (hstanding.placed last (List.mem_append_right _ hlastMem)).stands
  rw [hspelling] at hfirstStands
  rw [hright] at hlastStands
  exact exists_stands_merge hfirstStands hlastStands
    ((List.pairwise_append.mp hstanding.ordered).2.2 first hfirstMem last hlastMem)

/-- What is about a method as a whole begins with its selector and ends with its body. -/
theorem prefix_and_getLast?_of_slice {selector : String} {between shown : List Char}
    (h : shown = firstPart selector ++ (between ++ [']'])) :
    firstPart selector <+: shown ∧ shown.getLast? = some ']' := by
  subst h
  exact ⟨List.prefix_append _ _, by rw [← List.append_assoc, List.getLast?_concat]⟩

theorem Grammar.MethodAt.names {method : Method} (h : MethodAt used method)
    (hstanding : Standing text used) : ∀ fault ∈ program.methodFaults method, fault.Names text := by
  obtain ⟨between, hstands⟩ := h.exists_stands hstanding
  rw [Program.methodFaults, List.forall_mem_append]
  refine ⟨forall_mem_faultUnless (names_of_stands hstands prefix_and_getLast?_of_slice), ?_⟩
  obtain ⟨hhead, hbody, -, -⟩ := h
  exact hbody.names hstanding.right _

/-! ### Classes and programs -/

theorem Grammar.ClassAt.stands_name {declared : ClassDef} (h : ClassAt used declared)
    (hstanding : Standing text used) :
    Stands text declared.name.span declared.name.name.toList := by
  obtain ⟨_, _, _, _, _, _⟩ := h
  exact (hstanding.placed _ (List.mem_cons_of_mem _ List.mem_cons_self)).stands

theorem Grammar.ClassAt.stands_parent {declared : ClassDef} (h : ClassAt used declared)
    (hstanding : Standing text used) :
    Stands text declared.parent.span declared.parent.name.toList := by
  obtain @⟨_, _, parentToken, _, _, _, _, _, _, _, _, hparent, _, _, _⟩ := h
  have hstands := (hstanding.placed parentToken (by simp)).stands
  obtain ⟨kind, span⟩ := parentToken
  cases kind with
  | builtin which | classIdent name =>
    obtain rfl := Option.some.inj hparent
    exact hstands
  | keyword _ | ident _ | selector _ | stringLit _ | intLit _ | mark _ | eof => cases hparent

theorem Grammar.ClassAt.exists_methodAt {declared : ClassDef} (h : ClassAt used declared)
    (hstanding : Standing text used) :
    ∀ method ∈ declared.methods, ∃ used, Standing text used ∧ MethodAt used method := by
  obtain @⟨_, _, _, _, right, _, _, inner, _, _, _, _, _, hmethods, _⟩ := h
  intro method hmethod
  obtain ⟨used, hsublist, hat⟩ := hmethods.exists_of_mem method hmethod
  refine ⟨used, hstanding.sublist (hsublist.trans ?_), hat⟩
  exact (((((List.sublist_append_left inner [right]).cons _).cons _).cons _).cons _).cons _

theorem Grammar.ClassAt.names {declared : ClassDef} (h : ClassAt used declared)
    (hstanding : Standing text used) :
    ∀ fault ∈ program.classFaults declared, fault.Names text := by
  have hname := h.stands_name hstanding
  have hmethods := h.exists_methodAt hstanding
  rw [Program.classFaults, List.forall_mem_append, List.forall_mem_append, List.forall_mem_map]
  refine ⟨forall_mem_faultUnless (names_of_stands hname id), fun method hmethod ↦ ?_,
    fun fault hfault ↦ ?_⟩
  · obtain ⟨used, hused, hat⟩ := hmethods method (mem_of_mem_repeats hmethod)
    obtain ⟨between, hstands⟩ := hat.exists_stands hused
    exact names_of_stands hstands prefix_and_getLast?_of_slice
  · obtain ⟨method, hmethod, hmem⟩ := List.mem_flatMap.mp hfault
    obtain ⟨used, hused, hat⟩ := hmethods method hmethod
    exact hat.names hused fault hmem

theorem names_of_mem_faults (h : ManyAt ClassAt tokens program.classes)
    (hstanding : Standing text tokens) : ∀ fault ∈ program.faults, fault.Names text := by
  have hclasses : ∀ declared ∈ program.classes, ∃ used, Standing text used ∧
      ClassAt used declared := fun declared hdeclared ↦ by
    obtain ⟨used, hsublist, hat⟩ := h.exists_of_mem declared hdeclared
    exact ⟨used, hstanding.sublist hsublist, hat⟩
  rw [Program.faults, List.forall_mem_append, List.forall_mem_append, List.forall_mem_append]
  refine ⟨?_, ?_, ?_, ?_⟩
  · rw [Program.nameFaults, List.forall_mem_map]
    intro declared hdeclared
    obtain ⟨used, hused, hat⟩ := hclasses declared (mem_of_mem_repeats hdeclared)
    exact names_of_stands (hat.stands_name hused) id
  · intro fault hfault
    obtain ⟨declared, hdeclared, hmem⟩ := List.mem_flatMap.mp hfault
    obtain ⟨used, hused, hat⟩ := hclasses declared hdeclared
    exact forall_mem_faultUnless (names_of_stands (hat.stands_parent hused) id) fault hmem
  · intro fault hfault
    obtain ⟨declared, hdeclared, hmem⟩ := List.mem_flatMap.mp hfault
    obtain ⟨used, hused, hat⟩ := hclasses declared hdeclared
    exact hat.names hused fault hmem
  · unfold Program.startFaults
    split
    · exact List.forall_mem_singleton.mpr trivial
    · next declared hmain =>
      have hname : declared.name.name = Analysis.mainClass := by simpa using List.find?_some hmain
      obtain ⟨used, hused, hat⟩ := hclasses declared (List.mem_of_find?_eq_some hmain)
      have hstands := hat.stands_name hused
      rw [hname] at hstands
      exact forall_mem_faultUnless (names_of_stands hstands id)

end

/-! ### All faults -/

/-- What the analysis of a program answers with is one of its faults. -/
theorem Analyzer.mem_faults_of_analyze_eq_some {program : Program}
    (h : (Analyzer.fresh.analyze program).1 = some fault) : fault ∈ program.faults := by
  rw [(finds_analyze_fresh program).fault] at h
  exact List.mem_of_head? h

/-- A text has no document because of a fault in it, and if the fault has a place, it names what
stands there. -/
theorem names_of_documentOf_eq_error {defect : Defect} {span : Span}
    (h : documentOf text = .error (.located defect span)) :
    span.Within text ∧ defect.Names text span := by
  change (Fault.located defect span).Names text
  rcases exists_of_documentOf_eq_error h with hread | ⟨program, hread, hanalysis⟩
  · rcases Program.exists_of_ofText_eq_error hread with
      ⟨tokens, comments, last, rest, hsplits, hstuck⟩ |
        ⟨tokens, comments, reason, rest, hsplits, hclasses, heq⟩
    · obtain ⟨front, rfl, rfl⟩ := hsplits.exists_front
      rw [Nat.zero_add] at hstuck
      exact names_of_stuck hstuck
    · rw [heq]
      exact names_of_classes_eq_error (hsplits.placed [] rfl) hclasses
  · obtain ⟨tokens, comments, hsplits, hclasses, -⟩ := Program.ofText_eq_ok_iff.mp hread
    exact names_of_mem_faults (Reading.classesAt_of_classes_eq_ok hclasses)
      ⟨hsplits.placed [] rfl, hsplits.ordered⟩ _
      (Analyzer.mem_faults_of_analyze_eq_some hanalysis)

/-- A word where the name of a class is due. -/
def classTwice : List Char := "class class".toList

/-- A method that assigns what no name is bound to. -/
def unboundValue : List Char := "class Main:Object\x7brun[|x:=y.]\x7d".toList

/-- A string that is left open is shown from its quote on, a word that is not expected is shown
itself, and so is a name that is not bound. -/
theorem names_of_fault_in_each_stage :
    (documentOf ['\'', 'a'] = .error (.located .unterminatedString ⟨0, 2⟩) ∧
        (⟨0, 2⟩ : Span).Within ['\'', 'a'] ∧
        Defect.unterminatedString.Names ['\'', 'a'] ⟨0, 2⟩) ∧
      (documentOf classTwice =
          .error (.located (.unexpectedToken "class identifier" "'class'") ⟨6, 11⟩) ∧
        (⟨6, 11⟩ : Span).Within classTwice ∧
        (Defect.unexpectedToken "class identifier" "'class'").Names classTwice ⟨6, 11⟩) ∧
      documentOf unboundValue = .error (.located (.undefinedVariable "y") ⟨26, 27⟩) ∧
        (⟨26, 27⟩ : Span).Within unboundValue ∧
        (Defect.undefinedVariable "y").Names unboundValue ⟨26, 27⟩ := by
  have hstring : documentOf ['\'', 'a'] = .error (.located .unterminatedString ⟨0, 2⟩) := by
    decide +kernel
  have hword : documentOf classTwice =
      .error (.located (.unexpectedToken "class identifier" "'class'") ⟨6, 11⟩) := by
    decide +kernel
  have hname : documentOf unboundValue =
      .error (.located (.undefinedVariable "y") ⟨26, 27⟩) := by
    decide +kernel
  exact ⟨⟨hstring, names_of_documentOf_eq_error hstring⟩,
    ⟨hword, names_of_documentOf_eq_error hword⟩, hname, names_of_documentOf_eq_error hname⟩

end Sol25
