import Sol25.Proofs.Grammar.Sound

/-!
# The tokens behind each part of a program

The grammar once more, this time with the tokens themselves in the place of their kinds, and with
the very values that are read: which tokens stand behind an operand, an expression and so on, and
which spans are made of theirs (`OperandAt` and those beside it). Parentheses leave no trace in the
span of what is inside them; a message reaches from its receiver to its last token, a block from
bracket to bracket, and a method from its selector to the end of its body.

Whatever a reader reads stands behind the tokens it has used up (`Locates`). This is proved for the
readers in the order in which they are made, and `classesAt_of_classes_eq_ok` is the result for
whole programs.
-/

set_option autoImplicit false
set_option relaxedAutoImplicit false

namespace Sol25

open Token (Kind)

namespace Grammar

/-- Items that stand one behind the other. -/
inductive ManyAt {α : Type} (At : List Token → α → Prop) : List Token → List α → Prop
  | nil : ManyAt At [] []
  | cons {used more : List Token} {item : α} {items : List α} (h : At used item)
      (hmore : ManyAt At more items) : ManyAt At (used ++ more) (item :: items)

/-- Parameters, and the bar behind them. -/
inductive ParamsAt : List Token → List Ident → Prop
  | bar {bar : Token} (hbar : bar.kind = .mark .pipe) : ParamsAt [bar] []
  | param {colon : Token} {param : Ident} {used : List Token} {params : List Ident}
      (hcolon : colon.kind = .mark .colon) (hused : ParamsAt used params) :
      ParamsAt (colon :: ⟨.ident param.name, param.span⟩ :: used) (param :: params)

mutual

inductive OperandAt : List Token → Expr → Prop
  | atom {token : Token} {expr : Expr} (h : Reading.atom? token = some expr) :
      OperandAt [token] expr
  | parenthesized {left right : Token} {used : List Token} {expr : Expr}
      (hleft : left.kind = .mark .leftParen) (h : ExpressionAt used expr)
      (hright : right.kind = .mark .rightParen) : OperandAt (left :: (used ++ [right])) expr
  | block {used : List Token} {content : Block} (h : BlockAt used content) :
      OperandAt used (.block content)

inductive ExpressionAt : List Token → Expr → Prop
  | plain {used : List Token} {expr : Expr} (h : OperandAt used expr) : ExpressionAt used expr
  | unary {used : List Token} {receiver : Expr} {name : Ident} (h : OperandAt used receiver) :
      ExpressionAt (used ++ [⟨.ident name.name, name.span⟩])
        (.send receiver name.name [] (receiver.span.merge name.span))
  | keyword {used more : List Token} {receiver : Expr} {selector : String} {args : List Expr}
      {last : Span} (h : OperandAt used receiver) (hmore : MessageAt more selector args)
      (hlast : more.getLast?.map Token.span = some last) :
      ExpressionAt (used ++ more) (.send receiver selector args (receiver.span.merge last))

/-- A part of the selector in front of each argument. -/
inductive MessageAt : List Token → String → List Expr → Prop
  | last {token : Token} {part : String} {used : List Token} {arg : Expr}
      (hpart : token.kind = .selector part) (h : OperandAt used arg) :
      MessageAt (token :: used) part [arg]
  | more {token : Token} {part selector : String} {used more : List Token} {arg : Expr}
      {args : List Expr} (hpart : token.kind = .selector part) (h : OperandAt used arg)
      (hmore : MessageAt more selector args) :
      MessageAt (token :: (used ++ more)) (part ++ selector) (arg :: args)

inductive BlockAt : List Token → Block → Prop
  | block {left right : Token} {head used : List Token} {params : List Ident}
      {body : List Assignment} (hleft : left.kind = .mark .leftBracket)
      (hparams : ParamsAt head params) (hbody : BodyAt used body)
      (hright : right.kind = .mark .rightBracket) :
      BlockAt (left :: (head ++ (used ++ [right]))) ⟨params, body, left.span.merge right.span⟩

inductive BodyAt : List Token → List Assignment → Prop
  | nil : BodyAt [] []
  | cons {used more : List Token} {assignment : Assignment} {rest : List Assignment}
      (h : AssignmentAt used assignment) (hmore : BodyAt more rest) :
      BodyAt (used ++ more) (assignment :: rest)

inductive AssignmentAt : List Token → Assignment → Prop
  | assignment {sign dot : Token} {used : List Token} {target : Ident} {value : Expr}
      (hsign : sign.kind = .mark .assign) (h : ExpressionAt used value)
      (hdot : dot.kind = .mark .dot) :
      AssignmentAt (⟨.ident target.name, target.span⟩ :: sign :: (used ++ [dot])) ⟨target, value⟩

end

/-- The selector of a method and the number of its arguments. -/
inductive HeadingAt : List Token → String × Nat → Prop
  | name {name : Ident} : HeadingAt [⟨.ident name.name, name.span⟩] (name.name, 0)
  | parts {used : List Token} {parts : List String} (h : used.map Token.kind = parts.map .selector)
      (hne : parts ≠ []) : HeadingAt used (String.join parts, parts.length)

inductive MethodAt : List Token → Method → Prop
  | method {head used : List Token} {selector : String × Nat} {body : Block} {first last : Span}
      (hhead : HeadingAt head selector) (hbody : BlockAt used body)
      (hfirst : head.head?.map Token.span = some first)
      (hlast : used.getLast?.map Token.span = some last) :
      MethodAt (head ++ used) ⟨selector.1, selector.2, body, first.merge last⟩

inductive ClassAt : List Token → ClassDef → Prop
  | classDef {word colon parentToken left right : Token} {name parent : Ident}
      {used : List Token} {methods : List Method} (hword : word.kind = .keyword .classWord)
      (hcolon : colon.kind = .mark .colon) (hparent : Reading.anyClass? parentToken = some parent)
      (hleft : left.kind = .mark .leftBrace) (hmethods : ManyAt MethodAt used methods)
      (hright : right.kind = .mark .rightBrace) :
      ClassAt (word :: ⟨.classIdent name.name, name.span⟩ :: colon :: parentToken :: left ::
        (used ++ [right])) ⟨name, parent, methods⟩

end Grammar

namespace Reading

open Grammar

variable {α β : Type} {tokens : List Token}

/-- The tokens that were used up for what was read. -/
structure Uses (read : Read α tokens) (used : List Token) : Prop where
  tokens : tokens = used ++ read.rest
  first : used.head?.map Token.span = some read.first
  last : used.getLast?.map Token.span = some read.last

/-- Whatever the reader reads stands behind the tokens it has used up. -/
def Locates (reader : Reader α) (At : List Token → α → Prop) : Prop :=
  ∀ tokens read, reader tokens = .ok read → ∃ used, Uses read used ∧ At used read.value

theorem Uses.map {read : Read α tokens} {used : List Token} (h : Uses read used) (f : α → β) :
    Uses (read.map f) used :=
  ⟨h.tokens, h.first, h.last⟩

theorem Uses.andThen {former : Read α tokens} {latter : Read β former.rest}
    {used more : List Token} (hformer : Uses former used) (hlatter : Uses latter more) :
    Uses (former.andThen latter) (used ++ more) := by
  refine ⟨eq_append_trans hformer.tokens hlatter.tokens, ?_, ?_⟩
  · obtain ⟨token, htoken, hspan⟩ := Option.map_eq_some_iff.mp hformer.first
    rw [List.head?_append, htoken]
    exact congrArg some hspan
  · obtain ⟨token, htoken, hspan⟩ := Option.map_eq_some_iff.mp hlatter.last
    rw [List.getLast?_append, htoken]
    exact congrArg some hspan

theorem uses_of_next?_eq_some {value? : Token → Option α} {read : Read α tokens}
    (h : next? value? tokens = some read) :
    ∃ token, Uses read [token] ∧ value? token = some read.value := by
  cases tokens with
  | nil => cases h
  | cons token rest =>
    obtain ⟨value, hvalue, rfl⟩ := Option.map_eq_some_iff.mp h
    exact ⟨token, ⟨rfl, rfl, rfl⟩, hvalue⟩

theorem uses_of_require_eq_ok {what : String} {value? : Token → Option α} {read : Read α tokens}
    (h : require what value? tokens = .ok read) :
    ∃ token, Uses read [token] ∧ value? token = some read.value := by
  unfold require at h
  split at h
  · next hnext =>
    cases h
    exact uses_of_next?_eq_some hnext
  · cases h

theorem uses_of_requireKind_eq_ok {kind : Kind} {read : Read Unit tokens}
    (h : requireKind kind tokens = .ok read) : ∃ token, Uses read [token] ∧ token.kind = kind := by
  obtain ⟨token, huses, hkind⟩ := uses_of_require_eq_ok h
  exact ⟨token, huses, isKind_eq_some_iff.mp hkind⟩

theorem uses_of_requireName_eq_ok {what : String} {read : Read Ident tokens}
    (h : require what name? tokens = .ok read) :
    Uses read [⟨.ident read.value.name, read.value.span⟩] := by
  obtain ⟨token, huses, hname⟩ := uses_of_require_eq_ok h
  rwa [name?_eq_some_iff.mp hname] at huses

/-! ### Repetitions -/

theorem manyAt_of_manyThen_eq_ok {close : Mark} {item : Reader α} {At : List Token → α → Prop}
    (h : Locates item At) {read : Read (List α) tokens}
    (hread : manyThen close item tokens = .ok read) :
    ∃ used last, Uses read (used ++ [last]) ∧ last.kind = .mark close ∧
      ManyAt At used read.value := by
  induction hlength : tokens.length using Nat.strongRecOn generalizing tokens with
  | _ length ih =>
    rw [manyThen] at hread
    split at hread
    · next closing hclosing =>
      cases hread
      obtain ⟨token, huses, hkind⟩ := uses_of_next?_eq_some hclosing
      exact ⟨[], token, huses.map _, isKind_eq_some_iff.mp hkind, .nil⟩
    · obtain ⟨first, hfirst, hread⟩ := exists_of_bind_eq_ok hread
      obtain ⟨others, hothers, hread⟩ := exists_of_bind_eq_ok hread
      cases hread
      obtain ⟨used, huses, hat⟩ := h _ _ hfirst
      obtain ⟨more, last, husesMore, hlast, hmore⟩ := ih _ (hlength ▸ first.shorter) hothers rfl
      refine ⟨used ++ more, last, ?_, hlast, .cons hat hmore⟩
      rw [List.append_assoc]
      exact (huses.andThen husesMore).map _

theorem paramsAt_of_params_eq_ok {read : Read (List Ident) tokens} (h : params tokens = .ok read) :
    ∃ used, Uses read used ∧ ParamsAt used read.value := by
  induction hlength : tokens.length using Nat.strongRecOn generalizing tokens with
  | _ length ih =>
    rw [params] at h
    split at h
    · next colon hcolon =>
      obtain ⟨param, hparam, h⟩ := exists_of_bind_eq_ok h
      obtain ⟨others, hothers, h⟩ := exists_of_bind_eq_ok h
      cases h
      obtain ⟨sign, husesSign, hsign⟩ := uses_of_next?_eq_some hcolon
      have husesName := uses_of_requireName_eq_ok hparam
      obtain ⟨used, huses, hparams⟩ :=
        ih _ (hlength ▸ Nat.lt_trans param.shorter colon.shorter) hothers rfl
      exact ⟨_, (husesSign.andThen (husesName.andThen huses)).map _,
        .param (isKind_eq_some_iff.mp hsign) hparams⟩
    · obtain ⟨bar, hbar, h⟩ := exists_of_bind_eq_ok h
      cases h
      obtain ⟨token, huses, hkind⟩ := uses_of_requireKind_eq_ok hbar
      exact ⟨[token], huses.map _, .bar hkind⟩

/-! ### Operands and what is made of them -/

theorem bodyAt_of_manyAt {used : List Token} {body : List Assignment}
    (h : ManyAt AssignmentAt used body) : BodyAt used body := by
  induction h with
  | nil => exact .nil
  | cons hitem _ ih => exact .cons hitem ih

theorem locates_assignmentWith {expression : Reader Expr} (h : Locates expression ExpressionAt) :
    Locates (assignmentWith expression) AssignmentAt := by
  intro tokens read hread
  obtain ⟨target, htarget, hread⟩ := exists_of_bind_eq_ok hread
  obtain ⟨sign, hsign, hread⟩ := exists_of_bind_eq_ok hread
  obtain ⟨value, hvalue, hread⟩ := exists_of_bind_eq_ok hread
  obtain ⟨dot, hdot, hread⟩ := exists_of_bind_eq_ok hread
  cases hread
  have husesTarget := uses_of_requireName_eq_ok htarget
  obtain ⟨signToken, husesSign, hsignKind⟩ := uses_of_requireKind_eq_ok hsign
  obtain ⟨used, huses, hat⟩ := h _ _ hvalue
  obtain ⟨dotToken, husesDot, hdotKind⟩ := uses_of_requireKind_eq_ok hdot
  exact ⟨_, (husesTarget.andThen (husesSign.andThen (huses.andThen husesDot))).map _,
    .assignment hsignKind hat hdotKind⟩

theorem messageAt_of_argumentsWith_eq_ok {operand : Reader Expr} (h : Locates operand OperandAt)
    {token : Token} {part : String} {read : Read (String × List Expr) tokens}
    (hpart : token.kind = .selector part) (hread : argumentsWith operand part tokens = .ok read) :
    ∃ used, Uses read used ∧ MessageAt (token :: used) read.value.1 read.value.2 := by
  induction hlength : tokens.length using Nat.strongRecOn generalizing tokens token part with
  | _ length ih =>
    rw [argumentsWith] at hread
    obtain ⟨argument, hargument, hread⟩ := exists_of_bind_eq_ok hread
    obtain ⟨used, huses, hat⟩ := h _ _ hargument
    split at hread
    · cases hread
      exact ⟨used, huses.map _, .last hpart hat⟩
    · next next hnext =>
      obtain ⟨others, hothers, hread⟩ := exists_of_bind_eq_ok hread
      cases hread
      obtain ⟨nextToken, husesNext, hnextPart⟩ := uses_of_next?_eq_some hnext
      obtain ⟨more, husesMore, hmore⟩ := ih _ (hlength ▸ Nat.lt_trans next.shorter argument.shorter)
        (part?_eq_some_iff.mp hnextPart) hothers rfl
      exact ⟨_, (huses.andThen (husesNext.andThen husesMore)).map _, .more hpart hat hmore⟩

theorem locates_expressionWith {operand : Reader Expr} (h : Locates operand OperandAt) :
    Locates (expressionWith operand) ExpressionAt := by
  intro tokens read hread
  obtain ⟨receiver, hreceiver, hread⟩ := exists_of_bind_eq_ok hread
  obtain ⟨used, huses, hat⟩ := h _ _ hreceiver
  split at hread
  · next selector hselector =>
    cases hread
    obtain ⟨token, husesName, hname⟩ := uses_of_next?_eq_some hselector
    rw [name?_eq_some_iff] at hname
    subst hname
    have hspan : selector.last = selector.value.span := (Option.some.inj husesName.last).symm
    refine ⟨_, (huses.andThen husesName).map _, ?_⟩
    change ExpressionAt _ (.send receiver.value selector.value.name []
      (receiver.value.span.merge selector.last))
    rw [hspan]
    exact .unary hat
  · split at hread
    · next part hpart =>
      obtain ⟨message, hmessage, hread⟩ := exists_of_bind_eq_ok hread
      cases hread
      obtain ⟨token, husesPart, hpartKind⟩ := uses_of_next?_eq_some hpart
      obtain ⟨more, husesMore, hmore⟩ :=
        messageAt_of_argumentsWith_eq_ok h (part?_eq_some_iff.mp hpartKind) hmessage
      have husesMessage := husesPart.andThen husesMore
      exact ⟨_, (huses.andThen husesMessage).map _, .keyword hat hmore husesMessage.last⟩
    · cases hread
      exact ⟨used, huses, .plain hat⟩

theorem locates_blockWith {operand : Reader Expr} (h : Locates operand OperandAt) :
    Locates (blockWith operand) BlockAt := by
  intro tokens read hread
  obtain ⟨left, hleft, hread⟩ := exists_of_bind_eq_ok hread
  obtain ⟨names, hnames, hread⟩ := exists_of_bind_eq_ok hread
  obtain ⟨body, hbody, hread⟩ := exists_of_bind_eq_ok hread
  cases hread
  obtain ⟨leftToken, husesLeft, hleftKind⟩ := uses_of_requireKind_eq_ok hleft
  obtain ⟨head, husesHead, hparams⟩ := paramsAt_of_params_eq_ok hnames
  obtain ⟨used, right, husesBody, hrightKind, hmany⟩ :=
    manyAt_of_manyThen_eq_ok (locates_assignmentWith (locates_expressionWith h)) hbody
  have hfirst : left.first = leftToken.span := (Option.some.inj husesLeft.first).symm
  have hlast : body.last = right.span := by
    have hspan := husesBody.last
    rw [List.getLast?_concat] at hspan
    exact (Option.some.inj hspan).symm
  refine ⟨_, (husesLeft.andThen (husesHead.andThen husesBody)).map _, ?_⟩
  change BlockAt _ ⟨names.value, body.value, left.first.merge body.last⟩
  rw [hfirst, hlast]
  exact .block hleftKind hparams (bodyAt_of_manyAt hmany) hrightKind

theorem locates_parenthesizedWith {operand : Reader Expr} (h : Locates operand OperandAt) :
    Locates (parenthesizedWith operand) OperandAt := by
  intro tokens read hread
  obtain ⟨left, hleft, hread⟩ := exists_of_bind_eq_ok hread
  obtain ⟨value, hvalue, hread⟩ := exists_of_bind_eq_ok hread
  obtain ⟨right, hright, hread⟩ := exists_of_bind_eq_ok hread
  cases hread
  obtain ⟨leftToken, husesLeft, hleftKind⟩ := uses_of_requireKind_eq_ok hleft
  obtain ⟨used, huses, hat⟩ := locates_expressionWith h _ _ hvalue
  obtain ⟨rightToken, husesRight, hrightKind⟩ := uses_of_requireKind_eq_ok hright
  exact ⟨_, (husesLeft.andThen (huses.andThen husesRight)).map _,
    .parenthesized hleftKind hat hrightKind⟩

theorem locates_requireAtom : Locates (require "expression" atom?) OperandAt := by
  intro tokens read hread
  obtain ⟨token, huses, hatom⟩ := uses_of_require_eq_ok hread
  exact ⟨[token], huses, .atom hatom⟩

theorem locates_operandWith {inner? : Option (Reader Expr)}
    (h : ∀ inner ∈ inner?, Locates inner OperandAt) : Locates (operandWith inner?) OperandAt := by
  intro tokens read hread
  unfold operandWith at hread
  split at hread
  · split at hread
    · exact locates_parenthesizedWith (h _ rfl) _ _ hread
    · cases hread
  · split at hread
    · obtain ⟨content, hblock, rfl⟩ := exists_of_map_eq_ok hread
      obtain ⟨used, huses, hat⟩ := locates_blockWith (h _ rfl) _ _ hblock
      exact ⟨used, huses.map _, .block hat⟩
    · cases hread
  · exact locates_requireAtom _ _ hread

theorem locates_operand (depth : Nat) : Locates (operand depth) OperandAt := by
  induction depth with
  | zero => exact locates_operandWith nofun
  | succ depth ih => exact locates_operandWith fun inner hinner ↦ Option.some.inj hinner ▸ ih

/-! ### Methods, classes and programs -/

theorem uses_of_parts?_eq_some {read : Read (List String) tokens} (h : parts? tokens = some read) :
    ∃ used, Uses read used ∧ used.map Token.kind = read.value.map .selector ∧ read.value ≠ [] := by
  induction tokens with
  | nil => cases h
  | cons token rest ih =>
    unfold parts? at h
    split at h
    · cases h
    · next part hpart =>
      rw [part?_eq_some_iff] at hpart
      split at h
      · cases h
        exact ⟨[token], ⟨rfl, rfl, rfl⟩, by simp [hpart], by simp⟩
      · next others hothers =>
        cases h
        obtain ⟨used, huses, hkinds, -⟩ := ih hothers
        refine ⟨token :: used, ⟨congrArg (token :: ·) huses.tokens, rfl, ?_⟩,
          by simp [hpart, hkinds], by simp⟩
        obtain ⟨last, hlast, hspan⟩ := Option.map_eq_some_iff.mp huses.last
        rw [List.getLast?_cons, hlast]
        exact congrArg some hspan

theorem locates_heading : Locates heading HeadingAt := by
  intro tokens read hread
  unfold heading at hread
  split at hread
  · next name hname =>
    cases hread
    obtain ⟨token, huses, htoken⟩ := uses_of_next?_eq_some hname
    rw [name?_eq_some_iff] at htoken
    subst htoken
    exact ⟨_, huses.map _, .name⟩
  · split at hread
    · next parts hparts =>
      cases hread
      obtain ⟨used, huses, hkinds, hne⟩ := uses_of_parts?_eq_some hparts
      exact ⟨used, huses.map _, .parts hkinds hne⟩
    · cases hread

theorem locates_method : Locates method MethodAt := by
  intro tokens read hread
  obtain ⟨selector, hselector, hread⟩ := exists_of_bind_eq_ok hread
  obtain ⟨body, hbody, hread⟩ := exists_of_bind_eq_ok hread
  cases hread
  obtain ⟨head, husesHead, hhead⟩ := locates_heading _ _ hselector
  obtain ⟨used, huses, hat⟩ := locates_blockWith (locates_operand maxNesting) _ _ hbody
  exact ⟨_, (husesHead.andThen huses).map _, .method hhead hat husesHead.first huses.last⟩

theorem locates_classDef : Locates classDef ClassAt := by
  intro tokens read hread
  obtain ⟨word, hword, hread⟩ := exists_of_bind_eq_ok hread
  obtain ⟨name, hname, hread⟩ := exists_of_bind_eq_ok hread
  obtain ⟨colon, hcolon, hread⟩ := exists_of_bind_eq_ok hread
  obtain ⟨parent, hparent, hread⟩ := exists_of_bind_eq_ok hread
  obtain ⟨left, hleft, hread⟩ := exists_of_bind_eq_ok hread
  obtain ⟨methods, hmethods, hread⟩ := exists_of_bind_eq_ok hread
  cases hread
  obtain ⟨wordToken, husesWord, hwordKind⟩ := uses_of_requireKind_eq_ok hword
  obtain ⟨nameToken, husesName, hnameKind⟩ := uses_of_require_eq_ok hname
  obtain ⟨colonToken, husesColon, hcolonKind⟩ := uses_of_requireKind_eq_ok hcolon
  obtain ⟨parentToken, husesParent, hparentKind⟩ := uses_of_require_eq_ok hparent
  obtain ⟨leftToken, husesLeft, hleftKind⟩ := uses_of_requireKind_eq_ok hleft
  obtain ⟨used, right, husesMethods, hrightKind, hmany⟩ :=
    manyAt_of_manyThen_eq_ok locates_method hmethods
  rw [ownClass?_eq_some_iff] at hnameKind
  subst hnameKind
  exact ⟨_, (husesWord.andThen (husesName.andThen (husesColon.andThen (husesParent.andThen
    (husesLeft.andThen husesMethods))))).map _,
    .classDef hwordKind hcolonKind hparentKind hleftKind hmany hrightKind⟩

/-- Classes that are read up to the end of the input stand one behind the other. -/
theorem classesAt_of_classes_eq_ok {declared : List ClassDef} (h : classes tokens = .ok declared) :
    ManyAt ClassAt tokens declared := by
  induction hlength : tokens.length using Nat.strongRecOn generalizing tokens declared with
  | _ length ih =>
    cases tokens with
    | nil =>
      rw [classes] at h
      cases h
      exact .nil
    | cons token rest =>
      rw [classes] at h
      obtain ⟨first, hfirst, h⟩ := exists_of_bind_eq_ok h
      obtain ⟨others, hothers, h⟩ := exists_of_bind_eq_ok h
      cases h
      obtain ⟨used, huses, hat⟩ := locates_classDef _ _ hfirst
      have hmany := ManyAt.cons hat (ih _ (hlength ▸ first.shorter) hothers rfl)
      rwa [← huses.tokens] at hmany

end Reading

end Sol25
