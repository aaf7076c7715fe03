import Sol25.Proofs.Grammar.Sound

/-!
# What is derived is read

In front of any further tokens, a reader takes exactly the tokens that a derivation tree of its
symbol yields and makes of them what the tree means (`Reads`). Nothing need be known of what comes
behind an operand, a block or a method. Behind an expression neither a name nor a part of a selector
may come, or the reader would go on with it (`EndsExpression`); in the grammar a point or a closing
parenthesis stands there, which ends it (`endsExpression_of_mark`).

Each reader is treated on the assumption that its parts read what they should. The assumptions are
discharged together by recursion on the trees (`reads_operand` and those below it): a tree within
the nesting allowed hands the rest of the allowance to its parts. `exists_classes_eq_ok_of_derives`
is the result for whole programs.
-/

set_option autoImplicit false
set_option relaxedAutoImplicit false

namespace Sol25.Reading

open Token (Kind)
open Grammar

variable {τ α β : Type} {tokens rest used : List Token}

/-- In front of `rest` the reader takes what the tree derives, and nothing more, for what it
means. -/
def Reads (reader : Reader α) (symbol : Symbol τ α) (tree : τ) (rest : List Token) : Prop :=
  ∀ tokens used, tokens = used ++ rest → used.map Token.kind = symbol.kinds tree →
    ∃ read, reader tokens = .ok read ∧ read.rest = rest ∧
      symbol.placeless read.value = symbol.meaning tree

/-- An expression ends where neither a name nor a part of a selector comes next. -/
def EndsExpression (rest : List Token) : Prop :=
  ∀ token ∈ rest.head?, name? token = none ∧ part? token = none

theorem bind_eq_ok {first : Except Stop α} {next : α → Except Stop β} {value : α} {result : β}
    (hfirst : first = .ok value) (hnext : next value = .ok result) :
    (first >>= next) = .ok result := by
  rw [hfirst]
  exact hnext

/-! ### Single tokens -/

theorem next?_cons {value? : Token → Option α} {token : Token} {value : α}
    (htokens : tokens = token :: rest) (hvalue : value? token = some value) :
    ∃ read, next? value? tokens = some read ∧ read.rest = rest ∧ read.value = value := by
  subst htokens
  exact ⟨_, Option.map_eq_some_iff.mpr ⟨value, hvalue, rfl⟩, rfl, rfl⟩

theorem next?_eq_none {value? : Token → Option α}
    (h : ∀ token ∈ tokens.head?, value? token = none) : next? value? tokens = none := by
  cases tokens with
  | nil => rfl
  | cons token rest => exact Option.map_eq_none_iff.mpr (h token rfl)

theorem next?_of_cons_eq_none {value? : Token → Option α} {token : Token}
    (htokens : tokens = token :: rest) (hvalue : value? token = none) :
    next? value? tokens = none := by
  apply next?_eq_none
  rw [htokens]
  intro other hother
  rwa [← Option.mem_some_iff.mp hother]

theorem require_cons (what : String) {value? : Token → Option α} {token : Token} {value : α}
    (htokens : tokens = token :: rest) (hvalue : value? token = some value) :
    ∃ read, require what value? tokens = .ok read ∧ read.rest = rest ∧ read.value = value := by
  obtain ⟨read, hread, hrest, hval⟩ := next?_cons htokens hvalue
  exact ⟨read, by rw [require, hread], hrest, hval⟩

theorem isKind_of_kind {kind : Kind} {token : Token} (h : token.kind = kind) :
    isKind kind token = some () :=
  isKind_eq_some_iff.mpr h

theorem requireKind_cons {kind : Kind} {token : Token} (htokens : tokens = token :: rest)
    (hkind : token.kind = kind) :
    ∃ read, requireKind kind tokens = .ok read ∧ read.rest = rest := by
  obtain ⟨read, hread, hrest, -⟩ :=
    require_cons kind.display htokens (isKind_of_kind hkind)
  exact ⟨read, hread, hrest⟩

theorem name?_of_kind {token : Token} {name : String} (h : token.kind = .ident name) :
    name? token = some ⟨name, token.span⟩ := by
  rw [name?, h]

/-- What an atom of the grammar derives is accepted, and for what the atom means. -/
theorem exists_atom?_eq_some {atom : Atom} {token : Token} (h : token.kind = atom.kind) :
    ∃ value, atom? token = some value ∧ value.placeless = atom.meaning := by
  obtain ⟨kind, span⟩ := token
  subst h
  cases atom with
  | className which => cases which <;> exact ⟨_, rfl, rfl⟩
  | _ => exact ⟨_, rfl, rfl⟩

theorem exists_anyClass?_eq_some {which : ClassName} {token : Token}
    (h : token.kind = which.kind) :
    ∃ value, anyClass? token = some value ∧ value.placeless = which.meaning := by
  obtain ⟨kind, span⟩ := token
  subst h
  cases which <;> exact ⟨_, rfl, rfl⟩

/-- Tokens of these kinds are those of the front part and, behind them, those of the back part. -/
theorem exists_append_of_map_kind {front back : List Kind}
    (h : used.map Token.kind = front ++ back) (htokens : tokens = used ++ rest) :
    ∃ usedFront usedBack, tokens = usedFront ++ (usedBack ++ rest) ∧
      usedFront.map Token.kind = front ∧ usedBack.map Token.kind = back := by
  obtain ⟨usedFront, usedBack, rfl, hfront, hback⟩ := List.map_eq_append_iff.mp h
  exact ⟨usedFront, usedBack, by rw [htokens, List.append_assoc], hfront, hback⟩

theorem exists_cons_of_map_kind {front : Kind} {back : List Kind}
    (h : used.map Token.kind = front :: back) (htokens : tokens = used ++ rest) :
    ∃ token usedBack, tokens = token :: (usedBack ++ rest) ∧ token.kind = front ∧
      usedBack.map Token.kind = back := by
  obtain ⟨token, usedBack, rfl, hfront, hback⟩ := List.map_eq_cons_iff.mp h
  exact ⟨token, usedBack, htokens, hfront, hback⟩

theorem exists_singleton_of_map_kind {kind : Kind}
    (h : used.map Token.kind = [kind]) (htokens : tokens = used ++ rest) :
    ∃ token, tokens = token :: rest ∧ token.kind = kind := by
  obtain ⟨token, usedBack, htokens, hkind, hback⟩ := exists_cons_of_map_kind h htokens
  rw [List.map_eq_nil_iff.mp hback] at htokens
  exact ⟨token, htokens, hkind⟩

/-- A mark ends every expression in front of it. -/
theorem endsExpression_of_mark {mark : Mark}  (h : used.map Token.kind = [.mark mark]) :
    EndsExpression (used ++ rest) := by
  obtain ⟨token, rfl, hkind⟩ := List.map_eq_singleton_iff.mp h
  rintro token ⟨⟩
  exact ⟨by rw [name?, hkind], by rw [part?, hkind]⟩

/-! ### Repetitions -/

/-- Items are read until the mark behind them, provided that none of them begins with it. -/
theorem reads_manyThen {close : Mark} {item : Reader α} (symbol : Symbol τ α) (trees : List τ)
    (hstart : ∀ tree ∈ trees, ∃ kind kinds, symbol.kinds tree = kind :: kinds ∧
      kind ≠ .mark close)
    (hitem : ∀ tree ∈ trees, ∀ rest, Reads item symbol tree rest)
    (htokens : tokens = used ++ rest)
    (hused : used.map Token.kind = trees.flatMap symbol.kinds ++ [.mark close]) :
    ∃ read, manyThen close item tokens = .ok read ∧ read.rest = rest ∧
      read.value.map symbol.placeless = trees.map symbol.meaning := by
  induction trees generalizing tokens used with
  | nil =>
    obtain ⟨token, htoken, hkind⟩ := exists_singleton_of_map_kind hused htokens
    obtain ⟨closing, hclosing, hrest, -⟩ :=
      next?_cons htoken (isKind_of_kind hkind)
    exact ⟨_, by rw [manyThen, hclosing], hrest, rfl⟩
  | cons tree trees ih =>
    rw [List.flatMap_cons, List.append_assoc] at hused
    obtain ⟨usedFirst, usedOthers, hsplit, hfirst, hothers⟩ :=
      exists_append_of_map_kind hused htokens
    obtain ⟨first, hfirstRead, hfirstRest, hfirstValue⟩ :=
      hitem tree List.mem_cons_self _ _ _ hsplit hfirst
    obtain ⟨others, hothersRead, hothersRest, hothersValue⟩ :=
      ih (fun tree htree ↦ hstart tree (List.mem_cons_of_mem _ htree))
        (fun tree htree ↦ hitem tree (List.mem_cons_of_mem _ htree)) hfirstRest hothers
    have hopen : next? (isKind (.mark close)) tokens = none := by
      obtain ⟨kind, kinds, hkinds, hne⟩ := hstart tree List.mem_cons_self
      obtain ⟨token, usedMore, htoken, hkind, -⟩ :=
        exists_cons_of_map_kind (hfirst.trans hkinds) hsplit
      apply next?_of_cons_eq_none htoken
      rw [isKind, hkind, if_neg hne]
    refine ⟨(first.andThen others).map (first.value :: ·), ?_, hothersRest, ?_⟩
    · rw [manyThen, hopen]
      exact bind_eq_ok hfirstRead (bind_eq_ok hothersRead rfl)
    · show symbol.placeless first.value :: others.value.map symbol.placeless = _
      rw [hfirstValue, hothersValue, List.map_cons]

theorem reads_params (names : List String) (htokens : tokens = used ++ rest)
    (hused : used.map Token.kind = names.flatMap paramKinds ++ [.mark .pipe]) :
    ∃ read, params tokens = .ok read ∧ read.rest = rest ∧
      read.value.map Ident.placeless = names.map placelessIdent := by
  induction names generalizing tokens used with
  | nil =>
    obtain ⟨token, htoken, hkind⟩ := exists_singleton_of_map_kind hused htokens
    obtain ⟨bar, hbar, hrest⟩ := requireKind_cons htoken hkind
    have hcolon : next? (isKind (.mark .colon)) tokens = none := by
      apply next?_of_cons_eq_none htoken
      rw [isKind, hkind, if_neg (by decide)]
    exact ⟨_, by rw [params, hcolon]; exact bind_eq_ok hbar rfl, hrest, rfl⟩
  | cons name names ih =>
    obtain ⟨sign, usedMore, hsign, hsignKind, hmore⟩ := exists_cons_of_map_kind hused htokens
    obtain ⟨word, usedOthers, hword, hwordKind, hothers⟩ := exists_cons_of_map_kind hmore rfl
    obtain ⟨colon, hcolon, hcolonRest, -⟩ :=
      next?_cons hsign (isKind_of_kind hsignKind)
    obtain ⟨param, hparam, hparamRest, hparamValue⟩ :=
      require_cons "identifier" (hcolonRest.trans hword) (name?_of_kind hwordKind)
    obtain ⟨others, hothersRead, hothersRest, hothersValue⟩ := ih hparamRest hothers
    refine ⟨(colon.andThen (param.andThen others)).map (param.value :: ·), ?_, hothersRest, ?_⟩
    · rw [params, hcolon]
      exact bind_eq_ok hparam (bind_eq_ok hothersRead rfl)
    · show param.value.placeless :: others.value.map Ident.placeless = _
      rw [hparamValue, hothersValue]
      rfl

/-! ### Operands and what is made of them -/

theorem reads_assignmentWith {depth : Nat} {expression : Reader Expr} {tree : AssignmentTree}
    (h : ∀ rest, EndsExpression rest →
      Reads expression (.expression depth) tree.value rest) :
    ∀ rest, Reads (assignmentWith expression) (.assignment depth) tree rest := by
  intro rest tokens used htokens hused
  obtain ⟨name, inner⟩ := tree
  change used.map Token.kind = AssignmentTree.kinds _ at hused
  rw [AssignmentTree.kinds] at hused
  obtain ⟨word, usedMore, hword, hwordKind, hmore⟩ := exists_cons_of_map_kind hused htokens
  obtain ⟨sign, usedLast, hsign, hsignKind, hlast⟩ := exists_cons_of_map_kind hmore rfl
  obtain ⟨usedValue, usedDot, hvalue, hvalueKinds, hdot⟩ := exists_append_of_map_kind hlast rfl
  obtain ⟨stop, hstop, hstopKind⟩ := exists_singleton_of_map_kind hdot rfl
  obtain ⟨target, htarget, htargetRest, htargetValue⟩ :=
    require_cons "identifier" hword (name?_of_kind hwordKind)
  obtain ⟨assign, hassign, hassignRest⟩ := requireKind_cons (htargetRest.trans hsign) hsignKind
  obtain ⟨value, hvalueRead, hvalueRest, hvalueMeaning⟩ :=
    h _ (endsExpression_of_mark hdot) _ _ (hassignRest.trans hvalue) hvalueKinds
  obtain ⟨dot, hdotRead, hdotRest⟩ := requireKind_cons (hvalueRest.trans hstop) hstopKind
  refine ⟨(target.andThen (assign.andThen (value.andThen dot))).map fun _ ↦
    ⟨target.value, value.value⟩, ?_, hdotRest, ?_⟩
  · exact bind_eq_ok htarget (bind_eq_ok hassign (bind_eq_ok hvalueRead (bind_eq_ok hdotRead rfl)))
  · change Assignment.placeless ⟨target.value, value.value⟩ = AssignmentTree.meaning _
    change value.value.placeless = inner.meaning at hvalueMeaning
    rw [AssignmentTree.meaning, Assignment.placeless, htargetValue, hvalueMeaning]
    rfl

/-- What comes behind the last argument is no further part of the selector. -/
theorem reads_argumentsWith {depth : Nat} {operand : Reader Expr} (first : OperandTree)
    (others : List ArgumentTree) (part : String)
    (hfirst : ∀ rest, Reads operand (.operand depth) first rest)
    (hothers : ∀ argument ∈ others, ∀ rest, Reads operand (.operand depth) argument.operand rest)
    (hends : EndsExpression rest) (htokens : tokens = used ++ rest)
    (hused : used.map Token.kind = first.kinds ++ argumentsKinds others) :
    ∃ read, argumentsWith operand part tokens = .ok read ∧ read.rest = rest ∧
      read.value.1 = String.join (part :: others.map ArgumentTree.part) ∧
      read.value.2.map Expr.placeless = first.meaning :: argumentsMeaning others := by
  induction others generalizing first part tokens used with
  | nil =>
    rw [argumentsKinds, List.append_nil] at hused
    obtain ⟨argument, hargument, hargumentRest, hmeaning⟩ := hfirst _ _ _ htokens hused
    have hnone : next? part? argument.rest = none :=
      next?_eq_none fun token htoken ↦ (hends token (hargumentRest ▸ htoken)).2
    refine ⟨argument.map fun value ↦ (part, [value]), ?_, hargumentRest, ?_, ?_⟩
    · rw [argumentsWith]
      exact bind_eq_ok hargument (by rw [hnone]; rfl)
    · simp [Read.map]
    · exact congrArg (· :: []) hmeaning
  | cons argument others ih =>
    obtain ⟨usedFirst, usedMore, hsplit, hfirstKinds, hmore⟩ :=
      exists_append_of_map_kind hused htokens
    obtain ⟨nextPart, nextOperand⟩ := argument
    rw [argumentsKinds, ArgumentTree.kinds, List.cons_append] at hmore
    obtain ⟨token, usedOthers, htoken, hkind, hothersKinds⟩ := exists_cons_of_map_kind hmore rfl
    obtain ⟨value, hvalue, hvalueRest, hmeaning⟩ := hfirst _ _ _ hsplit hfirstKinds
    obtain ⟨next, hnext, hnextRest, hnextValue⟩ :=
      next?_cons (hvalueRest.trans htoken) (part?_eq_some_iff.mpr hkind)
    obtain ⟨read, hread, hreadRest, hselector, hmeanings⟩ :=
      ih nextOperand next.value (hothers _ List.mem_cons_self)
        (fun other hother ↦ hothers other (List.mem_cons_of_mem _ hother)) hnextRest hothersKinds
    refine ⟨(value.andThen (next.andThen read)).map fun others ↦
      (part ++ others.1, value.value :: others.2), ?_, hreadRest, ?_, ?_⟩
    · rw [argumentsWith]
      exact bind_eq_ok hvalue (by rw [hnext]; exact bind_eq_ok hread rfl)
    · show part ++ read.value.1 = _
      rw [hselector, hnextValue]
      simp
    · change value.value.placeless :: read.value.2.map Expr.placeless = _
      change value.value.placeless = first.meaning at hmeaning
      rw [hmeaning, hmeanings]
      rfl

theorem reads_plain {depth : Nat} {operand : Reader Expr} {tree : OperandTree}
    (h : ∀ rest, Reads operand (.operand depth) tree rest) (hends : EndsExpression rest) :
    Reads (expressionWith operand) (.expression depth) (.plain tree) rest := by
  intro tokens used htokens hused
  obtain ⟨receiver, hreceiver, hreceiverRest, hmeaning⟩ := h _ _ _ htokens hused
  have hname : next? name? receiver.rest = none :=
    next?_eq_none fun token htoken ↦ (hends token (hreceiverRest ▸ htoken)).1
  have hpart : next? part? receiver.rest = none :=
    next?_eq_none fun token htoken ↦ (hends token (hreceiverRest ▸ htoken)).2
  exact ⟨receiver, bind_eq_ok hreceiver (by rw [hname, hpart]; rfl), hreceiverRest, hmeaning⟩

theorem reads_unary {depth : Nat} {operand : Reader Expr} {tree : OperandTree}
    {selector : String} (h : ∀ rest, Reads operand (.operand depth) tree rest) :
    Reads (expressionWith operand) (.expression depth) (.unary tree selector) rest := by
  intro tokens used htokens hused
  change used.map Token.kind = ExpressionTree.kinds _ at hused
  rw [ExpressionTree.kinds] at hused
  obtain ⟨usedReceiver, usedName, hsplit, hkinds, hlast⟩ := exists_append_of_map_kind hused htokens
  obtain ⟨token, htoken, hkind⟩ := exists_singleton_of_map_kind hlast rfl
  obtain ⟨receiver, hreceiver, hreceiverRest, hmeaning⟩ := h _ _ _ hsplit hkinds
  obtain ⟨name, hname, hnameRest, hnameValue⟩ :=
    next?_cons (hreceiverRest.trans htoken) (name?_of_kind hkind)
  refine ⟨(receiver.andThen name).map fun word ↦
    .send receiver.value word.name [] (receiver.value.span.merge name.last), ?_, hnameRest, ?_⟩
  · exact bind_eq_ok hreceiver (by rw [hname]; rfl)
  · show Expr.placeless (.send receiver.value name.value.name []
      (receiver.value.span.merge name.last)) = ExpressionTree.meaning _
    change receiver.value.placeless = tree.meaning at hmeaning
    rw [Expr.placeless, ExpressionTree.meaning, hmeaning, hnameValue]
    rfl

theorem reads_keyword {depth : Nat} {operand : Reader Expr} {tree : OperandTree}
    {first : ArgumentTree} {others : List ArgumentTree}
    (h : ∀ rest, Reads operand (.operand depth) tree rest)
    (hfirst : ∀ rest, Reads operand (.operand depth) first.operand rest)
    (hothers : ∀ argument ∈ others, ∀ rest, Reads operand (.operand depth) argument.operand rest)
    (hends : EndsExpression rest) :
    Reads (expressionWith operand) (.expression depth) (.keyword tree first others) rest := by
  intro tokens used htokens hused
  obtain ⟨part, operandTree⟩ := first
  change used.map Token.kind = ExpressionTree.kinds _ at hused
  rw [ExpressionTree.kinds, ArgumentTree.kinds, List.cons_append] at hused
  obtain ⟨usedReceiver, usedMore, hsplit, hkinds, hmore⟩ := exists_append_of_map_kind hused htokens
  obtain ⟨token, usedArguments, htoken, hkind, harguments⟩ := exists_cons_of_map_kind hmore rfl
  obtain ⟨receiver, hreceiver, hreceiverRest, hmeaning⟩ := h _ _ _ hsplit hkinds
  have hname : next? name? receiver.rest = none := by
    apply next?_of_cons_eq_none (hreceiverRest.trans htoken)
    rw [name?, hkind]
  obtain ⟨next, hnext, hnextRest, hnextValue⟩ :=
    next?_cons (hreceiverRest.trans htoken) (part?_eq_some_iff.mpr hkind)
  obtain ⟨message, hmessage, hmessageRest, hselector, hmeanings⟩ :=
    reads_argumentsWith operandTree others next.value hfirst hothers hends hnextRest harguments
  refine ⟨(receiver.andThen (next.andThen message)).map fun sent ↦
    .send receiver.value sent.1 sent.2 (receiver.value.span.merge message.last), ?_,
    hmessageRest, ?_⟩
  · exact bind_eq_ok hreceiver (by rw [hname, hnext]; exact bind_eq_ok hmessage rfl)
  · show Expr.placeless (.send receiver.value message.value.1 message.value.2
      (receiver.value.span.merge message.last)) = ExpressionTree.meaning _
    change receiver.value.placeless = tree.meaning at hmeaning
    rw [Expr.placeless, Expr.placelessAll_eq_map, ExpressionTree.meaning, hmeaning, hselector,
      hmeanings, hnextValue]
    rfl

theorem reads_blockWith {depth : Nat} {operand : Reader Expr} {tree : BlockTree}
    (h : ∀ assignment ∈ tree.body, ∀ rest,
      Reads (assignmentWith (expressionWith operand)) (.assignment depth) assignment rest) :
    ∀ rest, Reads (blockWith operand) (.block depth) tree rest := by
  intro rest tokens used htokens hused
  obtain ⟨names, trees⟩ := tree
  change used.map Token.kind = BlockTree.kinds _ at hused
  rw [BlockTree.kinds, bodyKinds_eq_flatMap] at hused
  obtain ⟨opening, usedMore, hopening, hopeningKind, hmore⟩ := exists_cons_of_map_kind hused htokens
  obtain ⟨usedNames, usedBody, hsplit, hnamesKinds, hbodyKinds⟩ :=
    exists_append_of_map_kind hmore rfl
  obtain ⟨left, hleft, hleftRest⟩ := requireKind_cons hopening hopeningKind
  obtain ⟨names, hnames, hnamesRest, hnamesValue⟩ :=
    reads_params names (hleftRest.trans hsplit) hnamesKinds
  obtain ⟨body, hbody, hbodyRest, hbodyValue⟩ :=
    reads_manyThen (.assignment depth) trees
      (fun assignment _ ↦ assignment.exists_kinds_eq_cons) h hnamesRest hbodyKinds
  refine ⟨(left.andThen (names.andThen body)).map fun assignments ↦
    ⟨names.value, assignments, left.first.merge body.last⟩, ?_, hbodyRest, ?_⟩
  · exact bind_eq_ok hleft (bind_eq_ok hnames (bind_eq_ok hbody rfl))
  · show Block.placeless ⟨names.value, body.value, left.first.merge body.last⟩ =
      BlockTree.meaning _
    change body.value.map Assignment.placeless = trees.map AssignmentTree.meaning at hbodyValue
    rw [Block.placeless, Assignment.placelessAll_eq_map, BlockTree.meaning, bodyMeaning_eq_map,
      hnamesValue, hbodyValue]

theorem reads_parenthesizedWith {depth : Nat} {operand : Reader Expr} {inner : ExpressionTree}
    (h : ∀ rest, EndsExpression rest →
      Reads (expressionWith operand) (.expression depth) inner rest) :
    Reads (parenthesizedWith operand) (.operand (depth + 1)) (.parenthesized inner) rest := by
  intro tokens used htokens hused
  change used.map Token.kind = OperandTree.kinds _ at hused
  rw [OperandTree.kinds] at hused
  obtain ⟨opening, usedMore, hopening, hopeningKind, hmore⟩ := exists_cons_of_map_kind hused htokens
  obtain ⟨usedInner, usedClosing, hsplit, hinnerKinds, hclosingKinds⟩ :=
    exists_append_of_map_kind hmore rfl
  obtain ⟨closing, hclosing, hclosingKind⟩ := exists_singleton_of_map_kind hclosingKinds rfl
  obtain ⟨left, hleft, hleftRest⟩ := requireKind_cons hopening hopeningKind
  obtain ⟨value, hvalue, hvalueRest, hmeaning⟩ :=
    h _ (endsExpression_of_mark hclosingKinds) _ _ (hleftRest.trans hsplit) hinnerKinds
  obtain ⟨right, hright, hrightRest⟩ := requireKind_cons (hvalueRest.trans hclosing) hclosingKind
  exact ⟨_, bind_eq_ok hleft (bind_eq_ok hvalue (bind_eq_ok hright rfl)), hrightRest, hmeaning⟩

/-- The kind of the first token tells which sort of operand it begins. -/
theorem operandWith_eq_require {inner? : Option (Reader Expr)} {token : Token} {value : Expr}
    (htokens : tokens = token :: rest) (hvalue : atom? token = some value) :
    operandWith inner? tokens = require "expression" atom? tokens := by
  unfold operandWith
  split
  · next h =>
    rw [htokens, List.head?_cons, Option.map_some, Option.some.injEq] at h
    rw [atom?, h] at hvalue
    cases hvalue
  · next h =>
    rw [htokens, List.head?_cons, Option.map_some, Option.some.injEq] at h
    rw [atom?, h] at hvalue
    cases hvalue
  · rfl

theorem reads_atom (inner? : Option (Reader Expr)) {depth : Nat} (atom : Atom) :
    Reads (operandWith inner?) (.operand depth) (.atom atom) rest := by
  intro tokens used htokens hused
  obtain ⟨token, htoken, hkind⟩ := exists_singleton_of_map_kind hused htokens
  obtain ⟨value, hvalue, hmeaning⟩ := exists_atom?_eq_some hkind
  obtain ⟨read, hread, hrest, hreadValue⟩ := require_cons "expression" htoken hvalue
  refine ⟨read, (operandWith_eq_require htoken hvalue).trans hread, hrest, ?_⟩
  change read.value.placeless = atom.meaning
  rw [hreadValue, hmeaning]

theorem reads_parenthesizedOperand {depth : Nat} {operand : Reader Expr} {inner : ExpressionTree}
    (h : ∀ rest, EndsExpression rest →
      Reads (expressionWith operand) (.expression depth) inner rest) :
    Reads (operandWith (some operand)) (.operand (depth + 1)) (.parenthesized inner) rest := by
  intro tokens used htokens hused
  obtain ⟨opening, usedMore, hopening, hkind, -⟩ := exists_cons_of_map_kind hused htokens
  have hparenthesized : operandWith (some operand) tokens = parenthesizedWith operand tokens := by
    simp [operandWith, hopening, hkind]
  rw [hparenthesized]
  exact reads_parenthesizedWith h _ _ htokens hused

theorem reads_blockOperand {depth : Nat} {operand : Reader Expr} {content : BlockTree}
    (h : Reads (blockWith operand) (.block depth) content rest) :
    Reads (operandWith (some operand)) (.operand (depth + 1)) (.block content) rest := by
  intro tokens used htokens hused
  change used.map Token.kind = content.kinds at hused
  obtain ⟨read, hread, hrest, hmeaning⟩ := h _ _ htokens hused
  obtain ⟨kinds, hkinds⟩ := content.exists_kinds_eq_cons
  obtain ⟨opening, usedMore, hopening, hkind, -⟩ :=
    exists_cons_of_map_kind (hused.trans hkinds) htokens
  have hblock : operandWith (some operand) tokens =
      (blockWith operand tokens).map (·.map .block) := by
    simp [operandWith, hopening, hkind]
  exact ⟨read.map .block, by rw [hblock, hread]; rfl, hrest, congrArg Expr.block hmeaning⟩

mutual

/-- Each tree is read by the reader that may go as deep as the tree does, by induction on the
tree. -/
theorem reads_operand : (tree : OperandTree) → {depth : Nat} → tree.nesting ≤ depth →
    ∀ rest, Reads (operand depth) (.operand depth) tree rest
  | .atom atom, depth, _, rest => by
    cases depth <;> exact reads_atom _ atom
  | .parenthesized inner, depth, hdepth, rest => by
    obtain ⟨depth, rfl⟩ := Nat.exists_eq_add_one_of_ne_zero (Nat.ne_zero_of_lt hdepth)
    exact reads_parenthesizedOperand (reads_expression inner (Nat.le_of_succ_le_succ hdepth))
  | .block content, depth, hdepth, rest => by
    obtain ⟨depth, rfl⟩ := Nat.exists_eq_add_one_of_ne_zero (Nat.ne_zero_of_lt hdepth)
    have hcontent := reads_block content (Nat.le_of_succ_le_succ hdepth)
    exact reads_blockOperand (hcontent rest)

theorem reads_expression : (tree : ExpressionTree) → {depth : Nat} → tree.nesting ≤ depth →
    ∀ rest, EndsExpression rest →
      Reads (expressionWith (operand depth)) (.expression depth) tree rest
  | .plain tree, _, hdepth, _, hends => reads_plain (reads_operand tree hdepth) hends
  | .unary tree _, _, hdepth, _, _ => reads_unary (reads_operand tree hdepth)
  | .keyword tree ⟨_, first⟩ others, _, hdepth, _, hends =>
    have hparts := Nat.max_le.mp hdepth
    have harguments := Nat.max_le.mp hparts.2
    reads_keyword (reads_operand tree hparts.1) (reads_operand first harguments.1)
      (reads_arguments others harguments.2) hends

theorem reads_arguments : (arguments : List ArgumentTree) → {depth : Nat} →
    argumentsNesting arguments ≤ depth → ∀ argument ∈ arguments, ∀ rest,
      Reads (operand depth) (.operand depth) argument.operand rest
  | [], _, _ => nofun
  | ⟨_, first⟩ :: others, _, hdepth =>
    have hparts := Nat.max_le.mp hdepth
    List.forall_mem_cons.mpr ⟨reads_operand first hparts.1, reads_arguments others hparts.2⟩

theorem reads_block : (tree : BlockTree) → {depth : Nat} → tree.nesting ≤ depth →
    ∀ rest, Reads (blockWith (operand depth)) (.block depth) tree rest
  | ⟨_, body⟩, _, hdepth => reads_blockWith (reads_body body hdepth)

theorem reads_body : (body : List AssignmentTree) → {depth : Nat} → bodyNesting body ≤ depth →
    ∀ assignment ∈ body, ∀ rest,
      Reads (assignmentWith (expressionWith (operand depth))) (.assignment depth) assignment rest
  | [], _, _ => nofun
  | ⟨_, value⟩ :: others, _, hdepth =>
    have hparts := Nat.max_le.mp hdepth
    List.forall_mem_cons.mpr
      ⟨reads_assignmentWith (reads_expression value hparts.1), reads_body others hparts.2⟩

end

/-! ### Methods, classes and programs -/

/-- Parts of a selector are read as long as they come. -/
theorem reads_parts? (first : String) (others : List String)
    (hends : ∀ token ∈ rest.head?, part? token = none) (htokens : tokens = used ++ rest)
    (hused : used.map Token.kind = (first :: others).map .selector) :
    ∃ read, parts? tokens = some read ∧ read.rest = rest ∧ read.value = first :: others := by
  induction others generalizing first tokens used with
  | nil =>
    obtain ⟨token, rfl, hkind⟩ := exists_singleton_of_map_kind hused htokens
    have hnone : parts? rest = none := by
      cases rest with
      | nil => rfl
      | cons next rest => rw [parts?, hends next rfl]
    exact ⟨_, by rw [parts?, part?_eq_some_iff.mpr hkind, hnone], rfl, rfl⟩
  | cons next others ih =>
    obtain ⟨token, usedMore, rfl, hkind, hmore⟩ := exists_cons_of_map_kind hused htokens
    obtain ⟨read, hread, hrest, hvalue⟩ := ih next rfl hmore
    refine ⟨⟨first :: read.value, read.rest, token.span, read.last,
      Nat.lt_succ_of_lt read.shorter⟩, ?_, hrest, ?_⟩
    · rw [parts?, part?_eq_some_iff.mpr hkind, hread]
    · rw [hvalue]

theorem reads_heading (tree : HeadingTree) (hends : ∀ token ∈ rest.head?, part? token = none)
    (htokens : tokens = used ++ rest) (hused : used.map Token.kind = tree.kinds) :
    ∃ read, heading tokens = .ok read ∧ read.rest = rest ∧
      read.value = (tree.selector, tree.arity) := by
  cases tree with
  | name word =>
    obtain ⟨token, htoken, hkind⟩ := exists_singleton_of_map_kind hused htokens
    obtain ⟨read, hread, hrest, hvalue⟩ := next?_cons htoken (name?_of_kind hkind)
    refine ⟨read.map fun name ↦ (name.name, 0), by rw [heading, hread], hrest, ?_⟩
    change (read.value.name, 0) = _
    rw [hvalue]
    rfl
  | parts first others =>
    have hname : next? name? tokens = none := by
      obtain ⟨token, usedMore, htoken, hkind, -⟩ := exists_cons_of_map_kind hused htokens
      apply next?_of_cons_eq_none htoken
      rw [name?, hkind]
    obtain ⟨read, hread, hrest, hvalue⟩ := reads_parts? first others hends htokens hused
    refine ⟨read.map fun parts ↦ (String.join parts, parts.length), ?_, hrest, ?_⟩
    · rw [heading, hname, hread]
    · show (String.join read.value, read.value.length) = _
      rw [hvalue]
      rfl

theorem reads_method (tree : MethodTree) (hdepth : tree.body.nesting ≤ maxNesting) :
    ∀ rest, Reads method .method tree rest := by
  intro rest tokens used htokens hused
  obtain ⟨usedHeading, usedBody, hsplit, hheadingKinds, hbodyKinds⟩ :=
    exists_append_of_map_kind hused htokens
  have hends : ∀ token ∈ (usedBody ++ rest).head?, part? token = none := by
    obtain ⟨kinds, hkinds⟩ := tree.body.exists_kinds_eq_cons
    obtain ⟨opening, usedMore, hopening, hkind, -⟩ :=
      exists_cons_of_map_kind (hbodyKinds.trans hkinds) rfl
    rw [hopening]
    rintro token ⟨⟩
    rw [part?, hkind]
  obtain ⟨heading, hheading, hheadingRest, hheadingValue⟩ :=
    reads_heading tree.heading hends hsplit hheadingKinds
  obtain ⟨body, hbody, hbodyRest, hmeaning⟩ :=
    reads_block tree.body hdepth rest _ _ hheadingRest hbodyKinds
  refine ⟨_, bind_eq_ok hheading (bind_eq_ok hbody rfl), hbodyRest, ?_⟩
  change Method.mk heading.value.1 heading.value.2 body.value.placeless Span.nowhere = _
  change body.value.placeless = tree.body.meaning at hmeaning
  rw [hheadingValue, hmeaning]
  rfl

theorem reads_classDef (tree : ClassTree) (hdepth : tree.NestsWithin maxNesting) :
    Reads classDef .classDef tree rest := by
  intro tokens used htokens hused
  obtain ⟨wordToken, usedMore, hwordToken, hwordKind, hused⟩ :=
    exists_cons_of_map_kind hused htokens
  obtain ⟨nameToken, usedMore, hnameToken, hnameKind, hused⟩ := exists_cons_of_map_kind hused rfl
  obtain ⟨colonToken, usedMore, hcolonToken, hcolonKind, hused⟩ := exists_cons_of_map_kind hused rfl
  obtain ⟨parentToken, usedMore, hparentToken, hparentKind, hused⟩ :=
    exists_cons_of_map_kind hused rfl
  obtain ⟨leftToken, usedMore, hleftToken, hleftKind, hused⟩ := exists_cons_of_map_kind hused rfl
  obtain ⟨parentIdent, hanyClass, hparentMeaning⟩ := exists_anyClass?_eq_some hparentKind
  obtain ⟨word, hword, hwordRest⟩ := requireKind_cons hwordToken hwordKind
  obtain ⟨name, hname, hnameRest, hnameValue⟩ :=
    require_cons "class identifier" (hwordRest.trans hnameToken)
      (show ownClass? nameToken = some ⟨tree.name, nameToken.span⟩ by rw [ownClass?, hnameKind])
  obtain ⟨colon, hcolon, hcolonRest⟩ := requireKind_cons (hnameRest.trans hcolonToken) hcolonKind
  obtain ⟨parent, hparent, hparentRest, hparentValue⟩ :=
    require_cons "parent class name" (hcolonRest.trans hparentToken) hanyClass
  obtain ⟨left, hleft, hleftRest⟩ := requireKind_cons (hparentRest.trans hleftToken) hleftKind
  obtain ⟨methods, hmethods, hmethodsRest, hmethodsValue⟩ :=
    reads_manyThen .method tree.methods
      (fun method _ ↦ method.exists_kinds_eq_cons)
      (fun method hmethod ↦ reads_method method (hdepth method hmethod)) hleftRest hused
  refine ⟨_, bind_eq_ok hword (bind_eq_ok hname (bind_eq_ok hcolon (bind_eq_ok hparent
    (bind_eq_ok hleft (bind_eq_ok hmethods rfl))))), hmethodsRest, ?_⟩
  change ClassDef.mk name.value.placeless parent.value.placeless
    (methods.value.map Method.placeless) = _
  change methods.value.map Method.placeless = tree.methods.map MethodTree.meaning at hmethodsValue
  rw [hnameValue, hparentValue, hparentMeaning, hmethodsValue]
  rfl

/-- Whatever the grammar derives is read as a whole. -/
theorem exists_classes_eq_ok_of_derives {tokens : List Token} {program : Program}
    (h : Derives maxNesting (tokens.map Token.kind) program) :
    ∃ declared, classes tokens = .ok declared ∧
      (⟨declared.map ClassDef.placeless, none⟩ : Program) = program := by
  obtain ⟨⟨trees⟩, hkinds, hdepth, rfl⟩ := h
  induction trees generalizing tokens with
  | nil =>
    obtain rfl := List.map_eq_nil_iff.mp hkinds.symm
    exact ⟨[], by rw [classes], rfl⟩
  | cons tree trees ih =>
    obtain ⟨used, rest, htokens, hused, hrest⟩ := List.map_eq_append_iff.mp hkinds.symm
    obtain ⟨token, usedMore, htoken, -, -⟩ := exists_cons_of_map_kind hused htokens
    obtain ⟨first, hfirst, hfirstRest, hmeaning⟩ :=
      reads_classDef tree (hdepth tree List.mem_cons_self) _ _ htokens hused
    obtain ⟨others, hothers, hmeanings⟩ :=
      ih (hfirstRest ▸ hrest.symm)
        (fun tree htree ↦ hdepth tree (List.mem_cons_of_mem _ htree))
    subst htoken
    refine ⟨first.value :: others, ?_, ?_⟩
    · rw [classes]
      exact bind_eq_ok hfirst (bind_eq_ok hothers rfl)
    · change first.value.placeless = tree.meaning at hmeaning
      simp only [ProgramTree.meaning, Program.mk.injEq, List.map_cons, and_true] at hmeanings ⊢
      rw [hmeaning, hmeanings]

end Sol25.Reading
