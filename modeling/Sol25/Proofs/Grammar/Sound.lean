import Sol25.Program.Reading
import Sol25.Proofs.Grammar.Tree

/-!
# What is read is derived

Every reader that comes to a result has used up tokens which the grammar derives, and what it read
is, up to spans, what their derivation tree means. `Sound` states this for a reader and a symbol of
the grammar (`Symbol`). It is proved for each reader on the assumption that the readers it is made
of are sound, and then for operands by induction on the nesting that is still allowed
(`sound_operand`): a reader that may open no parenthesis yields a tree without nesting, and each
parenthesis or block adds one level to the reader as to the tree. The result for whole programs is
`derives_of_classes_eq_ok`.

A repetition is followed by induction on the number of tokens ahead, since every item uses up one at
least.
-/

set_option autoImplicit false
set_option relaxedAutoImplicit false

namespace Sol25.Reading

open Token (Kind)
open Grammar

/-- A symbol of the grammar, as readers deal with it: what its trees derive and mean, which of them
are admitted, and how a value is compared with a meaning. -/
structure Symbol (τ α : Type) where
  kinds : τ → List Kind
  Fits : τ → Prop
  meaning : τ → α
  placeless : α → α

namespace Symbol

def operand (depth : Nat) : Symbol OperandTree Expr :=
  ⟨OperandTree.kinds, (·.nesting ≤ depth), OperandTree.meaning, Expr.placeless⟩

def expression (depth : Nat) : Symbol ExpressionTree Expr :=
  ⟨ExpressionTree.kinds, (·.nesting ≤ depth), ExpressionTree.meaning, Expr.placeless⟩

def assignment (depth : Nat) : Symbol AssignmentTree Assignment :=
  ⟨AssignmentTree.kinds, (·.nesting ≤ depth), AssignmentTree.meaning, Assignment.placeless⟩

def block (depth : Nat) : Symbol BlockTree Block :=
  ⟨BlockTree.kinds, (·.nesting ≤ depth), BlockTree.meaning, Block.placeless⟩

def method : Symbol MethodTree Method :=
  ⟨MethodTree.kinds, (·.body.nesting ≤ maxNesting), MethodTree.meaning, Method.placeless⟩

def classDef : Symbol ClassTree ClassDef :=
  ⟨ClassTree.kinds, (·.NestsWithin maxNesting), ClassTree.meaning, ClassDef.placeless⟩

end Symbol

variable {τ α β : Type} {tokens : List Token}

/-- Whatever the reader reads, it has used up tokens that a tree derives, and the tree means what
was read. -/
def Sound (reader : Reader α) (symbol : Symbol τ α) : Prop :=
  ∀ tokens read, reader tokens = .ok read →
    ∃ used tree, tokens = used ++ read.rest ∧ symbol.kinds tree = used.map Token.kind ∧
      symbol.Fits tree ∧ symbol.meaning tree = symbol.placeless read.value

/-- Steps that come to a result come to one at the first step. -/
theorem exists_of_bind_eq_ok {first : Except Stop α} {next : α → Except Stop β} {result : β}
    (h : (first >>= next) = .ok result) :
    ∃ value, first = .ok value ∧ next value = .ok result := by
  cases first with
  | error stop => cases h
  | ok value => exact ⟨value, rfl, h⟩

theorem exists_of_map_eq_ok {f : α → β} {first : Except Stop α} {result : β}
    (h : first.map f = .ok result) : ∃ value, first = .ok value ∧ f value = result := by
  cases first with
  | error stop => cases h
  | ok value => exact ⟨value, rfl, Except.ok.inj h⟩

/-- What two readers use up one after the other. -/
theorem eq_append_trans {front back all middle rest : List Token} (hfront : all = front ++ middle)
    (hback : middle = back ++ rest) : all = (front ++ back) ++ rest := by
  rw [hfront, hback, List.append_assoc]

/-! ### Single tokens -/

theorem eq_append_of_next?_eq_some {value? : Token → Option α} {read : Read α tokens}
    (h : next? value? tokens = some read) :
    ∃ token, tokens = [token] ++ read.rest ∧ value? token = some read.value := by
  cases tokens with
  | nil => cases h
  | cons token rest =>
    obtain ⟨value, hvalue, rfl⟩ := Option.map_eq_some_iff.mp h
    exact ⟨token, rfl, hvalue⟩

theorem eq_append_of_require_eq_ok {what : String} {value? : Token → Option α}
    {read : Read α tokens} (h : require what value? tokens = .ok read) :
    ∃ token, tokens = [token] ++ read.rest ∧ value? token = some read.value := by
  unfold require at h
  split at h
  · next hnext =>
    cases h
    exact eq_append_of_next?_eq_some hnext
  · cases h

theorem isKind_eq_some_iff {kind : Kind} {token : Token} {value : Unit} :
    isKind kind token = some value ↔ token.kind = kind := by
  unfold isKind
  split <;> simp_all

theorem name?_eq_some_iff {token : Token} {ident : Ident} :
    name? token = some ident ↔ token = ⟨.ident ident.name, ident.span⟩ := by
  obtain ⟨kind, span⟩ := token
  obtain ⟨name, place⟩ := ident
  cases kind <;> simp [name?]

theorem ownClass?_eq_some_iff {token : Token} {ident : Ident} :
    ownClass? token = some ident ↔ token = ⟨.classIdent ident.name, ident.span⟩ := by
  obtain ⟨kind, span⟩ := token
  obtain ⟨name, place⟩ := ident
  cases kind <;> simp [ownClass?]

theorem part?_eq_some_iff {token : Token} {part : String} :
    part? token = some part ↔ token.kind = .selector part := by
  obtain ⟨kind, span⟩ := token
  cases kind <;> simp [part?]

theorem exists_className_of_anyClass?_eq_some {token : Token} {ident : Ident}
    (h : anyClass? token = some ident) :
    ∃ which : ClassName, which.kind = token.kind ∧ which.meaning = ident.placeless := by
  obtain ⟨kind, span⟩ := token
  cases kind with
  | builtin which => cases h; exact ⟨.builtin which, rfl, rfl⟩
  | classIdent name => cases h; exact ⟨.own name, rfl, rfl⟩
  | keyword _ | ident _ | selector _ | stringLit _ | intLit _ | mark _ | eof => cases h

/-- A token that is an operand by itself is a literal or a variable of the grammar. -/
theorem exists_atom_of_atom?_eq_some {token : Token} {value : Expr}
    (h : atom? token = some value) :
    ∃ atom : Atom, atom.kind = token.kind ∧ atom.meaning = value.placeless := by
  obtain ⟨kind, span⟩ := token
  cases kind with
  | keyword word =>
    cases word <;> cases h
    · exact ⟨.selfWord, rfl, rfl⟩
    · exact ⟨.superWord, rfl, rfl⟩
    · exact ⟨.nilWord, rfl, rfl⟩
    · exact ⟨.trueWord, rfl, rfl⟩
    · exact ⟨.falseWord, rfl, rfl⟩
  | builtin which => cases h; exact ⟨.className (.builtin which), rfl, rfl⟩
  | ident name => cases h; exact ⟨.name name, rfl, rfl⟩
  | classIdent name => cases h; exact ⟨.className (.own name), rfl, rfl⟩
  | stringLit body => cases h; exact ⟨.string body, rfl, rfl⟩
  | intLit digits => cases h; exact ⟨.integer digits, rfl, rfl⟩
  | selector _ | mark _ | eof => cases h

theorem eq_append_of_requireKind_eq_ok {kind : Kind} {read : Read Unit tokens}
    (h : requireKind kind tokens = .ok read) :
    ∃ token, tokens = [token] ++ read.rest ∧ token.kind = kind := by
  obtain ⟨token, htokens, hkind⟩ := eq_append_of_require_eq_ok h
  exact ⟨token, htokens, isKind_eq_some_iff.mp hkind⟩

theorem eq_append_of_requireName_eq_ok {what : String} {read : Read Ident tokens}
    (h : require what name? tokens = .ok read) :
    ∃ token, tokens = [token] ++ read.rest ∧ token.kind = .ident read.value.name := by
  obtain ⟨token, htokens, hname⟩ := eq_append_of_require_eq_ok h
  exact ⟨token, htokens, by rw [name?_eq_some_iff.mp hname]⟩

/-! ### Repetitions -/

theorem sound_manyThen {close : Mark} {item : Reader α} {symbol : Symbol τ α}
    (h : Sound item symbol) {read : Read (List α) tokens}
    (hread : manyThen close item tokens = .ok read) :
    ∃ used, ∃ trees : List τ, tokens = used ++ read.rest ∧
      trees.flatMap symbol.kinds ++ [.mark close] = used.map Token.kind ∧
      (∀ tree ∈ trees, symbol.Fits tree) ∧
      trees.map symbol.meaning = read.value.map symbol.placeless := by
  induction hlength : tokens.length using Nat.strongRecOn generalizing tokens with
  | _ length ih =>
    rw [manyThen] at hread
    split at hread
    · next closing hclosing =>
      cases hread
      obtain ⟨token, htokens, hkind⟩ := eq_append_of_next?_eq_some hclosing
      refine ⟨[token], [], htokens, ?_, by simp, rfl⟩
      simp [isKind_eq_some_iff.mp hkind]
    · obtain ⟨first, hfirst, hread⟩ := exists_of_bind_eq_ok hread
      obtain ⟨others, hothers, hread⟩ := exists_of_bind_eq_ok hread
      cases hread
      obtain ⟨used, tree, hused, hkinds, hfits, hmeaning⟩ := h _ _ hfirst
      obtain ⟨usedMore, trees, husedMore, hkindsMore, hfitsMore, hmeaningMore⟩ :=
        ih _ (hlength ▸ first.shorter) hothers rfl
      refine ⟨used ++ usedMore, tree :: trees, eq_append_trans hused husedMore, ?_, ?_, ?_⟩
      · simp [hkinds, ← hkindsMore]
      · exact List.forall_mem_cons.mpr ⟨hfits, hfitsMore⟩
      · simp [Read.map, Read.andThen, hmeaning, hmeaningMore]

theorem sound_assignmentWith {depth : Nat} {expression : Reader Expr}
    (h : Sound expression (.expression depth)) :
    Sound (assignmentWith expression) (.assignment depth) := by
  intro tokens read hread
  obtain ⟨target, htarget, hread⟩ := exists_of_bind_eq_ok hread
  obtain ⟨sign, hsign, hread⟩ := exists_of_bind_eq_ok hread
  obtain ⟨value, hvalue, hread⟩ := exists_of_bind_eq_ok hread
  obtain ⟨dot, hdot, hread⟩ := exists_of_bind_eq_ok hread
  cases hread
  obtain ⟨name, hname, hnameKind⟩ := eq_append_of_requireName_eq_ok htarget
  obtain ⟨assign, hassign, hassignKind⟩ := eq_append_of_requireKind_eq_ok hsign
  obtain ⟨used, tree, hused, hkinds, hfits, hmeaning⟩ := h _ _ hvalue
  obtain ⟨stop, hstop, hstopKind⟩ := eq_append_of_requireKind_eq_ok hdot
  refine ⟨_, ⟨target.value.name, tree⟩,
    eq_append_trans hname (eq_append_trans hassign (eq_append_trans hused hstop)), ?_, hfits, ?_⟩
  · change AssignmentTree.kinds _ = _
    change tree.kinds = _ at hkinds
    simp [AssignmentTree.kinds, hkinds, hnameKind, hassignKind, hstopKind]
  · change AssignmentTree.meaning _ = Assignment.placeless ⟨_, _⟩
    change tree.meaning = value.value.placeless at hmeaning
    rw [AssignmentTree.meaning, hmeaning, Assignment.placeless]
    rfl

/-! ### Operands and what is made of them -/

theorem sound_params {tokens : List Token} {read : Read (List Ident) tokens}
    (h : params tokens = .ok read) :
    ∃ used, tokens = used ++ read.rest ∧
      used.map Token.kind =
        (read.value.map Ident.name).flatMap paramKinds ++ [.mark .pipe] := by
  induction hlength : tokens.length using Nat.strongRecOn generalizing tokens with
  | _ length ih =>
    rw [params] at h
    split at h
    · next colon hcolon =>
      obtain ⟨param, hparam, h⟩ := exists_of_bind_eq_ok h
      obtain ⟨others, hothers, h⟩ := exists_of_bind_eq_ok h
      cases h
      obtain ⟨sign, hsign, hsignKind⟩ := eq_append_of_next?_eq_some hcolon
      obtain ⟨name, hname, hnameKind⟩ := eq_append_of_requireName_eq_ok hparam
      obtain ⟨used, hused, hkinds⟩ :=
        ih _ (hlength ▸ Nat.lt_trans param.shorter colon.shorter) hothers rfl
      refine ⟨_, eq_append_trans hsign (eq_append_trans hname hused), ?_⟩
      rw [isKind_eq_some_iff] at hsignKind
      simp [hsignKind, hnameKind, hkinds, Read.map, Read.andThen, paramKinds]
    · obtain ⟨bar, hbar, h⟩ := exists_of_bind_eq_ok h
      cases h
      obtain ⟨token, htokens, hkind⟩ := eq_append_of_requireKind_eq_ok hbar
      exact ⟨[token], htokens, by simp [hkind, Read.map]⟩

theorem sound_argumentsWith {depth : Nat} {operand : Reader Expr}
    (h : Sound operand (.operand depth)) {part : String} {tokens : List Token}
    {read : Read (String × List Expr) tokens}
    (hread : argumentsWith operand part tokens = .ok read) :
    ∃ used, ∃ first : OperandTree, ∃ others : List ArgumentTree, tokens = used ++ read.rest ∧
      first.kinds ++ argumentsKinds others = used.map Token.kind ∧
      max first.nesting (argumentsNesting others) ≤ depth ∧
      String.join (part :: others.map ArgumentTree.part) = read.value.1 ∧
      first.meaning :: argumentsMeaning others = read.value.2.map Expr.placeless := by
  induction hlength : tokens.length using Nat.strongRecOn generalizing tokens part with
  | _ length ih =>
    rw [argumentsWith] at hread
    obtain ⟨argument, hargument, hread⟩ := exists_of_bind_eq_ok hread
    obtain ⟨used, tree, hused, hkinds, hfits, hmeaning⟩ := h _ _ hargument
    change tree.kinds = _ at hkinds
    change tree.nesting ≤ depth at hfits
    change tree.meaning = argument.value.placeless at hmeaning
    split at hread
    · cases hread
      exact ⟨used, tree, [], hused, by simpa [argumentsKinds] using hkinds,
        by simpa [argumentsNesting] using hfits, by simp [Read.map],
        by simp [argumentsMeaning, hmeaning, Read.map]⟩
    · next next hnext =>
      obtain ⟨others, hothers, hread⟩ := exists_of_bind_eq_ok hread
      cases hread
      obtain ⟨token, htoken, hpart⟩ := eq_append_of_next?_eq_some hnext
      rw [part?_eq_some_iff] at hpart
      obtain ⟨usedMore, first, more, husedMore, hkindsMore, hfitsMore, hselector, hmeanings⟩ :=
        ih _ (hlength ▸ Nat.lt_trans next.shorter argument.shorter) hothers rfl
      refine ⟨_, tree, ⟨next.value, first⟩ :: more,
        eq_append_trans hused (eq_append_trans htoken husedMore), ?_, ?_, ?_, ?_⟩
      · simp [argumentsKinds, ArgumentTree.kinds, hkinds, hpart, ← hkindsMore]
      · exact Nat.max_le.mpr ⟨hfits, hfitsMore⟩
      · simp [Read.map, Read.andThen, ← hselector]
      · simp [Read.map, Read.andThen, argumentsMeaning, ArgumentTree.meaning, hmeaning, ← hmeanings]

theorem sound_expressionWith {depth : Nat} {operand : Reader Expr}
    (h : Sound operand (.operand depth)) :
    Sound (expressionWith operand) (.expression depth) := by
  intro tokens read hread
  obtain ⟨receiver, hreceiver, hread⟩ := exists_of_bind_eq_ok hread
  obtain ⟨used, tree, hused, hkinds, hfits, hmeaning⟩ := h _ _ hreceiver
  change tree.kinds = _ at hkinds
  change tree.nesting ≤ depth at hfits
  change tree.meaning = receiver.value.placeless at hmeaning
  split at hread
  · next selector hselector =>
    cases hread
    obtain ⟨token, htoken, hname⟩ := eq_append_of_next?_eq_some hselector
    rw [name?_eq_some_iff] at hname
    refine ⟨_, .unary tree selector.value.name, eq_append_trans hused htoken, ?_, hfits, ?_⟩
    · show ExpressionTree.kinds _ = _
      simp [ExpressionTree.kinds, hkinds, hname]
    · show ExpressionTree.meaning _ =
        Expr.placeless (.send _ _ [] (receiver.value.span.merge selector.last))
      rw [ExpressionTree.meaning, Expr.placeless, Expr.placelessAll, hmeaning]
      rfl
  · split at hread
    · next part hpart =>
      obtain ⟨message, hmessage, hread⟩ := exists_of_bind_eq_ok hread
      cases hread
      obtain ⟨token, htoken, htokenKind⟩ := eq_append_of_next?_eq_some hpart
      rw [part?_eq_some_iff] at htokenKind
      obtain ⟨usedMore, first, others, husedMore, hkindsMore, hfitsMore, hselector, hmeanings⟩ :=
        sound_argumentsWith h hmessage
      refine ⟨_, .keyword tree ⟨part.value, first⟩ others,
        eq_append_trans hused (eq_append_trans htoken husedMore), ?_, ?_, ?_⟩
      · show ExpressionTree.kinds _ = _
        simp [ExpressionTree.kinds, ArgumentTree.kinds, hkinds, htokenKind, ← hkindsMore]
      · exact Nat.max_le.mpr ⟨hfits, hfitsMore⟩
      · show ExpressionTree.meaning _ =
          Expr.placeless (.send _ _ _ (receiver.value.span.merge message.last))
        rw [ExpressionTree.meaning, Expr.placeless, Expr.placelessAll_eq_map]
        simp only [ArgumentTree.meaning, List.map_cons, hmeaning, hselector, hmeanings]
    · cases hread
      exact ⟨used, .plain tree, hused, hkinds, hfits, hmeaning⟩

theorem sound_blockWith {depth : Nat} {operand : Reader Expr}
    (h : Sound operand (.operand depth)) : Sound (blockWith operand) (.block depth) := by
  intro tokens read hread
  obtain ⟨left, hleft, hread⟩ := exists_of_bind_eq_ok hread
  obtain ⟨names, hnames, hread⟩ := exists_of_bind_eq_ok hread
  obtain ⟨body, hbody, hread⟩ := exists_of_bind_eq_ok hread
  cases hread
  obtain ⟨token, htoken, htokenKind⟩ := eq_append_of_requireKind_eq_ok hleft
  obtain ⟨usedNames, husedNames, hnamesKinds⟩ := sound_params hnames
  obtain ⟨usedBody, trees, husedBody, hkinds, hfits, hmeaning⟩ :=
    sound_manyThen (sound_assignmentWith (sound_expressionWith h)) hbody
  refine ⟨_, ⟨names.value.map Ident.name, trees⟩,
    eq_append_trans htoken (eq_append_trans husedNames husedBody), ?_, ?_, ?_⟩
  · show BlockTree.kinds _ = _
    rw [BlockTree.kinds, bodyKinds_eq_flatMap]
    change trees.flatMap AssignmentTree.kinds ++ _ = _ at hkinds
    simp [htokenKind, hnamesKinds, ← hkinds]
  · exact bodyNesting_le_iff.mpr hfits
  · show BlockTree.meaning _ = Block.placeless ⟨_, _, left.first.merge body.last⟩
    rw [BlockTree.meaning, Block.placeless, bodyMeaning_eq_map, Assignment.placelessAll_eq_map]
    change trees.map AssignmentTree.meaning = body.value.map Assignment.placeless at hmeaning
    rw [hmeaning, List.map_map]
    rfl

theorem sound_parenthesizedWith {depth : Nat} {operand : Reader Expr}
    (h : Sound operand (.operand depth)) :
    Sound (parenthesizedWith operand) (.operand (depth + 1)) := by
  intro tokens read hread
  obtain ⟨left, hleft, hread⟩ := exists_of_bind_eq_ok hread
  obtain ⟨value, hvalue, hread⟩ := exists_of_bind_eq_ok hread
  obtain ⟨right, hright, hread⟩ := exists_of_bind_eq_ok hread
  cases hread
  obtain ⟨opening, hopening, hopeningKind⟩ := eq_append_of_requireKind_eq_ok hleft
  obtain ⟨used, tree, hused, hkinds, hfits, hmeaning⟩ := sound_expressionWith h _ _ hvalue
  obtain ⟨closing, hclosing, hclosingKind⟩ := eq_append_of_requireKind_eq_ok hright
  refine ⟨_, .parenthesized tree,
    eq_append_trans hopening (eq_append_trans hused hclosing), ?_, ?_, hmeaning⟩
  · change OperandTree.kinds _ = _
    change tree.kinds = _ at hkinds
    simp [OperandTree.kinds, hkinds, hopeningKind, hclosingKind]
  · exact Nat.succ_le_succ hfits

theorem sound_requireAtom (depth : Nat) :
    Sound (require "expression" atom?) (.operand depth) := by
  intro tokens read hread
  obtain ⟨token, htoken, hvalue⟩ := eq_append_of_require_eq_ok hread
  obtain ⟨atom, hkind, hmeaning⟩ := exists_atom_of_atom?_eq_some hvalue
  refine ⟨[token], .atom atom, htoken, ?_, Nat.zero_le depth, hmeaning⟩
  change [atom.kind] = _
  rw [hkind, List.map_singleton]

theorem sound_blockOperand {depth : Nat} {inner : Reader Expr}
    (h : Sound inner (.operand depth)) :
    Sound (fun tokens ↦ (blockWith inner tokens).map (·.map .block)) (.operand (depth + 1)) := by
  intro tokens read hread
  obtain ⟨content, hblock, rfl⟩ := exists_of_map_eq_ok hread
  obtain ⟨used, tree, hused, hkinds, hfits, hmeaning⟩ := sound_blockWith h _ _ hblock
  refine ⟨used, .block tree, hused, hkinds, Nat.succ_le_succ hfits, ?_⟩
  change OperandTree.meaning _ = Expr.placeless (.block _)
  exact congrArg Expr.block hmeaning

/-- An operand in which `depth` more parentheses and blocks may be open nests no deeper. -/
theorem sound_operand (depth : Nat) : Sound (operand depth) (.operand depth) := by
  induction depth with
  | zero =>
    intro tokens read hread
    change operandWith none tokens = .ok read at hread
    unfold operandWith at hread
    split at hread
    · cases hread
    · cases hread
    · exact sound_requireAtom 0 _ _ hread
  | succ depth ih =>
    intro tokens read hread
    change operandWith (some (operand depth)) tokens = .ok read at hread
    unfold operandWith at hread
    split at hread
    · exact sound_parenthesizedWith ih _ _ hread
    · exact sound_blockOperand ih _ _ hread
    · exact sound_requireAtom (depth + 1) _ _ hread

/-! ### Methods, classes and programs -/

theorem sound_parts? {tokens : List Token} {read : Read (List String) tokens}
    (h : parts? tokens = some read) :
    ∃ used, tokens = used ++ read.rest ∧ used.map Token.kind = read.value.map .selector ∧
      read.value ≠ [] := by
  induction tokens with
  | nil => cases h
  | cons token rest ih =>
    unfold parts? at h
    split at h
    · cases h
    · next part hpart =>
      rw [part?_eq_some_iff] at hpart
      split at h
      · cases h
        exact ⟨[token], rfl, by simp [hpart], by simp⟩
      · next others hothers =>
        cases h
        obtain ⟨used, hused, hkinds, -⟩ := ih hothers
        exact ⟨token :: used, congrArg (token :: ·) hused, by simp [hpart, hkinds], by simp⟩

theorem sound_heading {read : Read (String × Nat) tokens} (h : heading tokens = .ok read) :
    ∃ used, ∃ tree : HeadingTree, tokens = used ++ read.rest ∧
      tree.kinds = used.map Token.kind ∧ (tree.selector, tree.arity) = read.value := by
  unfold heading at h
  split at h
  · next name hname =>
    cases h
    obtain ⟨token, htoken, hkind⟩ := eq_append_of_next?_eq_some hname
    refine ⟨[token], .name name.value.name, htoken, ?_, rfl⟩
    simp [HeadingTree.kinds, name?_eq_some_iff.mp hkind]
  · split at h
    · next parts hparts =>
      cases h
      obtain ⟨used, hused, hkinds, hne⟩ := sound_parts? hparts
      obtain ⟨first, others, hvalue⟩ := List.exists_cons_of_ne_nil hne
      refine ⟨used, .parts first others, hused, ?_, ?_⟩
      · rw [hkinds, hvalue, HeadingTree.kinds]
      · simp [Read.map, hvalue, HeadingTree.selector, HeadingTree.arity]
    · cases h

theorem sound_method : Sound method .method := by
  intro tokens read hread
  obtain ⟨selector, hselector, hread⟩ := exists_of_bind_eq_ok hread
  obtain ⟨body, hbody, hread⟩ := exists_of_bind_eq_ok hread
  cases hread
  obtain ⟨usedHead, heading, husedHead, hheadKinds, hhead⟩ := sound_heading hselector
  obtain ⟨usedBody, tree, husedBody, hkinds, hfits, hmeaning⟩ :=
    sound_blockWith (sound_operand maxNesting) _ _ hbody
  refine ⟨_, ⟨heading, tree⟩, eq_append_trans husedHead husedBody, ?_, hfits, ?_⟩
  · show heading.kinds ++ tree.kinds = _
    rw [List.map_append, hheadKinds]
    exact congrArg _ hkinds
  · show Method.mk heading.selector heading.arity tree.meaning _ =
      ⟨selector.value.1, selector.value.2, body.value.placeless, _⟩
    rw [← hhead]
    exact congrArg (Method.mk _ _ · _) hmeaning

theorem sound_classDef : Sound classDef .classDef := by
  intro tokens read hread
  obtain ⟨word, hword, hread⟩ := exists_of_bind_eq_ok hread
  obtain ⟨name, hname, hread⟩ := exists_of_bind_eq_ok hread
  obtain ⟨colon, hcolon, hread⟩ := exists_of_bind_eq_ok hread
  obtain ⟨parent, hparent, hread⟩ := exists_of_bind_eq_ok hread
  obtain ⟨left, hleft, hread⟩ := exists_of_bind_eq_ok hread
  obtain ⟨methods, hmethods, hread⟩ := exists_of_bind_eq_ok hread
  cases hread
  obtain ⟨wordToken, hwordToken, hwordKind⟩ := eq_append_of_requireKind_eq_ok hword
  obtain ⟨nameToken, hnameToken, hnameKind⟩ := eq_append_of_require_eq_ok hname
  obtain ⟨colonToken, hcolonToken, hcolonKind⟩ := eq_append_of_requireKind_eq_ok hcolon
  obtain ⟨parentToken, hparentToken, hparentKind⟩ := eq_append_of_require_eq_ok hparent
  obtain ⟨leftToken, hleftToken, hleftKind⟩ := eq_append_of_requireKind_eq_ok hleft
  obtain ⟨used, trees, hused, hkinds, hfits, hmeaning⟩ := sound_manyThen sound_method hmethods
  rw [ownClass?_eq_some_iff] at hnameKind
  obtain ⟨which, hwhichKind, hwhich⟩ := exists_className_of_anyClass?_eq_some hparentKind
  refine ⟨_, ⟨name.value.name, which, trees⟩, eq_append_trans hwordToken
    (eq_append_trans hnameToken (eq_append_trans hcolonToken (eq_append_trans hparentToken
      (eq_append_trans hleftToken hused)))), ?_, hfits, ?_⟩
  · change ClassTree.kinds _ = _
    change trees.flatMap MethodTree.kinds ++ _ = _ at hkinds
    simp [ClassTree.kinds, hwordKind, hnameKind, hcolonKind, hwhichKind, hleftKind, ← hkinds]
  · change trees.map MethodTree.meaning = methods.value.map Method.placeless at hmeaning
    change ClassTree.meaning _ = ClassDef.placeless ⟨name.value, parent.value, methods.value⟩
    rw [ClassTree.meaning, ClassDef.placeless, hwhich, hmeaning]
    rfl

/-- Classes that are read up to the end of the input are those of a program of the grammar. -/
theorem derives_of_classes_eq_ok {tokens : List Token} {declared : List ClassDef}
    (h : classes tokens = .ok declared) :
    Derives maxNesting (tokens.map Token.kind) ⟨declared.map ClassDef.placeless, none⟩ := by
  induction hlength : tokens.length using Nat.strongRecOn generalizing tokens declared with
  | _ length ih =>
    cases tokens with
    | nil =>
      rw [classes] at h
      cases h
      exact ⟨⟨[]⟩, rfl, by simp [ProgramTree.NestsWithin], rfl⟩
    | cons token rest =>
      rw [classes] at h
      obtain ⟨first, hfirst, h⟩ := exists_of_bind_eq_ok h
      obtain ⟨others, hothers, h⟩ := exists_of_bind_eq_ok h
      cases h
      obtain ⟨used, tree, hused, hkinds, hfits, hmeaning⟩ := sound_classDef _ _ hfirst
      obtain ⟨⟨trees⟩, hkindsMore, hfitsMore, hmeaningMore⟩ :=
        ih _ (hlength ▸ first.shorter) hothers rfl
      refine ⟨⟨tree :: trees⟩, ?_, List.forall_mem_cons.mpr ⟨hfits, hfitsMore⟩, ?_⟩
      · rw [hused, List.map_append, ← hkindsMore]
        exact congrArg (· ++ _) hkinds
      · change ClassTree.meaning tree = _ at hmeaning
        simp only [ProgramTree.meaning, Program.mk.injEq, List.map_cons, and_true]
          at hmeaningMore ⊢
        rw [hmeaning, hmeaningMore]
        rfl

end Sol25.Reading
