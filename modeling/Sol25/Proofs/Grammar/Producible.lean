import Mathlib.Order.MinMax
import Sol25.Proofs.Grammar.WellFormed
import Sol25.Proofs.Stages

/-!
# The programs that texts hold

`Program.exists_text_iff_wellFormed` says that the programs that texts hold are, up to spans, those
that are well-formed.

What a derivation denotes is well-formed if its tokens can be spelled
(`OperandTree.wellFormed_meaning` and those beside it). It may have more parentheses than are needed
but not fewer, so what it denotes needs no more levels than it has, however its tokens are spelled
(`ExpressionTree.levels_meaning_le` and those beside it). Conversely a derivation with just the
parentheses that are needed is built along the program (`exists_trees` and those beside it), and its
tokens are written down with blanks between them, behind the description as a comment.
-/

set_option autoImplicit false
set_option relaxedAutoImplicit false

namespace Sol25

open Grammar Lexis
open Token (Kind)

/-! ### What a derivation denotes -/

namespace Grammar

/-- All tokens of a derivation can be spelled. -/
abbrev AllSpelled (kinds : List Kind) : Prop := ∀ kind ∈ kinds, Spelled kind

theorem upperWord_name (which : BuiltinClass) : UpperWord which.name := by
  obtain ⟨first, tail, heq, hfirst, htail⟩ := exists_toList_name_eq which
  exact ⟨first, tail, by rw [← heq, String.ofList_toList], hfirst, htail⟩

theorem ClassName.upperWord_meaning {which : ClassName} (h : Spelled which.kind) :
    UpperWord which.meaning.name := by
  cases which with
  | builtin which => exact upperWord_name which
  | own name => exact h.1

theorem Atom.wellFormed_meaning {atom : Atom} (h : Spelled atom.kind) :
    atom.meaning.WellFormed := by
  cases atom with
  | integer digits => exact h
  | string body => exact h
  | nilWord | trueWord | falseWord => rfl
  | selfWord => exact .inr (.inl rfl)
  | superWord => exact .inr (.inr rfl)
  | name word => exact .inl h
  | className which => exact which.upperWord_meaning h

theorem Atom.operandLevels_meaning (atom : Atom) : atom.meaning.operandLevels = 0 := by
  cases atom <;> rfl

theorem length_argumentsMeaning (arguments : List ArgumentTree) :
    (argumentsMeaning arguments).length = arguments.length := by
  induction arguments with
  | nil => rfl
  | cons argument rest ih => rw [argumentsMeaning, List.length_cons, List.length_cons, ih]

/-- The parts of a selector that stand in front of arguments. -/
theorem selectorPart_of_allSpelled {arguments : List ArgumentTree}
    (h : AllSpelled (argumentsKinds arguments)) :
    ∀ part ∈ arguments.map ArgumentTree.part, SelectorPart part := by
  induction arguments with
  | nil => exact fun _ hpart ↦ absurd hpart List.not_mem_nil
  | cons argument rest ih =>
    obtain ⟨part, operand⟩ := argument
    rw [argumentsKinds, ArgumentTree.kinds] at h
    obtain ⟨hargument, hrest⟩ := List.forall_mem_append.mp h
    exact List.forall_mem_cons.mpr ⟨(List.forall_mem_cons.mp hargument).1, ih hrest⟩

mutual

theorem OperandTree.operandLevels_meaning_le : ∀ tree : OperandTree,
    tree.meaning.operandLevels ≤ tree.nesting
  | .atom atom => by
    rw [OperandTree.meaning, OperandTree.nesting, atom.operandLevels_meaning]
  | .parenthesized inner => by
    rw [OperandTree.meaning, OperandTree.nesting]
    exact Nat.le_trans (Expr.operandLevels_le _) (Nat.succ_le_succ inner.levels_meaning_le)
  | .block content => by
    rw [OperandTree.meaning, OperandTree.nesting]
    exact Nat.succ_le_succ content.levels_meaning_le

/-- No more levels are needed than a derivation has. -/
theorem ExpressionTree.levels_meaning_le : ∀ tree : ExpressionTree,
    tree.meaning.levels ≤ tree.nesting
  | .plain operand => by
    rw [ExpressionTree.meaning, ExpressionTree.nesting]
    exact Nat.le_trans (Nat.le_add_right _ _) operand.operandLevels_meaning_le
  | .unary receiver selector => by
    rw [ExpressionTree.meaning, ExpressionTree.nesting, Expr.levels]
    exact Nat.max_le.mpr ⟨receiver.operandLevels_meaning_le, Nat.zero_le _⟩
  | .keyword receiver ⟨part, first⟩ others => by
    rw [ExpressionTree.meaning, ExpressionTree.nesting, ArgumentTree.meaning, ArgumentTree.nesting,
      Expr.levels, Expr.levelsOfArgs]
    exact max_le_max receiver.operandLevels_meaning_le
      (max_le_max first.operandLevels_meaning_le (levelsOfArgs_argumentsMeaning_le others))

theorem levelsOfArgs_argumentsMeaning_le : ∀ arguments : List ArgumentTree,
    Expr.levelsOfArgs (argumentsMeaning arguments) ≤ argumentsNesting arguments
  | [] => Nat.le_refl 0
  | ⟨part, operand⟩ :: rest => by
    rw [argumentsMeaning, argumentsNesting, ArgumentTree.meaning, ArgumentTree.nesting,
      Expr.levelsOfArgs]
    exact max_le_max operand.operandLevels_meaning_le (levelsOfArgs_argumentsMeaning_le rest)

theorem BlockTree.levels_meaning_le : ∀ tree : BlockTree, tree.meaning.levels ≤ tree.nesting
  | ⟨params, body⟩ => by
    rw [BlockTree.meaning, BlockTree.nesting, Block.levels]
    exact levelsOfAll_bodyMeaning_le body

theorem levelsOfAll_bodyMeaning_le : ∀ body : List AssignmentTree,
    Assignment.levelsOfAll (bodyMeaning body) ≤ bodyNesting body
  | [] => Nat.le_refl 0
  | ⟨target, value⟩ :: rest => by
    rw [bodyMeaning, bodyNesting, AssignmentTree.meaning, AssignmentTree.nesting,
      Assignment.levelsOfAll, Assignment.levels]
    exact max_le_max value.levels_meaning_le (levelsOfAll_bodyMeaning_le rest)

end

mutual

theorem OperandTree.wellFormed_meaning : ∀ tree : OperandTree, AllSpelled tree.kinds →
    tree.meaning.WellFormed
  | .atom atom, h => by
    rw [OperandTree.kinds] at h
    exact Atom.wellFormed_meaning (List.forall_mem_singleton.mp h)
  | .parenthesized inner, h => by
    rw [OperandTree.kinds] at h
    obtain ⟨-, hrest⟩ := List.forall_mem_cons.mp h
    exact inner.wellFormed_meaning (List.forall_mem_append.mp hrest).1
  | .block content, h => by
    rw [OperandTree.kinds] at h
    rw [OperandTree.meaning, Expr.WellFormed]
    exact content.wellFormed_meaning h

theorem ExpressionTree.wellFormed_meaning : ∀ tree : ExpressionTree, AllSpelled tree.kinds →
    tree.meaning.WellFormed
  | .plain operand, h => by
    rw [ExpressionTree.kinds] at h
    exact operand.wellFormed_meaning h
  | .unary receiver selector, h => by
    rw [ExpressionTree.kinds] at h
    obtain ⟨hreceiver, hselector⟩ := List.forall_mem_append.mp h
    rw [ExpressionTree.meaning, Expr.WellFormed]
    exact ⟨receiver.wellFormed_meaning hreceiver,
      .inl ⟨rfl, hselector (.ident selector) List.mem_cons_self⟩, trivial⟩
  | .keyword receiver ⟨part, first⟩ others, h => by
    rw [ExpressionTree.kinds, ArgumentTree.kinds] at h
    obtain ⟨hreceiver, hmessage⟩ := List.forall_mem_append.mp h
    obtain ⟨hpartFirst, hothers⟩ := List.forall_mem_append.mp hmessage
    obtain ⟨hpart, hfirst⟩ := List.forall_mem_cons.mp hpartFirst
    rw [ExpressionTree.meaning, ArgumentTree.meaning, Expr.WellFormed, Expr.AllWellFormed]
    refine ⟨receiver.wellFormed_meaning hreceiver,
      .inr ⟨part, others.map ArgumentTree.part, rfl, ?_, ?_⟩, first.wellFormed_meaning hfirst,
      allWellFormed_argumentsMeaning others hothers⟩
    · rw [List.length_cons, length_argumentsMeaning, List.length_map]
    · exact List.forall_mem_cons.mpr ⟨hpart, selectorPart_of_allSpelled hothers⟩

theorem allWellFormed_argumentsMeaning : ∀ arguments : List ArgumentTree,
    AllSpelled (argumentsKinds arguments) → Expr.AllWellFormed (argumentsMeaning arguments)
  | [], _ => trivial
  | ⟨part, operand⟩ :: rest, h => by
    rw [argumentsKinds, ArgumentTree.kinds] at h
    obtain ⟨hargument, hrest⟩ := List.forall_mem_append.mp h
    rw [argumentsMeaning, ArgumentTree.meaning, Expr.AllWellFormed]
    exact ⟨operand.wellFormed_meaning (List.forall_mem_cons.mp hargument).2,
      allWellFormed_argumentsMeaning rest hrest⟩

theorem BlockTree.wellFormed_meaning : ∀ tree : BlockTree, AllSpelled tree.kinds →
    tree.meaning.WellFormed
  | ⟨params, body⟩, h => by
    rw [BlockTree.kinds] at h
    obtain ⟨-, hrest⟩ := List.forall_mem_cons.mp h
    obtain ⟨hhead, htail⟩ := List.forall_mem_append.mp hrest
    obtain ⟨hparams, -⟩ := List.forall_mem_append.mp hhead
    rw [BlockTree.meaning, Block.WellFormed]
    refine ⟨List.forall_mem_map.mpr fun param hparam ↦ ?_,
      allWellFormed_bodyMeaning body (List.forall_mem_append.mp htail).1⟩
    exact hparams (.ident param) (List.mem_flatMap.mpr ⟨param, hparam, by simp [paramKinds]⟩)

theorem allWellFormed_bodyMeaning : ∀ body : List AssignmentTree, AllSpelled (bodyKinds body) →
    Assignment.AllWellFormed (bodyMeaning body)
  | [], _ => trivial
  | ⟨target, value⟩ :: rest, h => by
    rw [bodyKinds, AssignmentTree.kinds] at h
    obtain ⟨hassignment, hrest⟩ := List.forall_mem_append.mp h
    obtain ⟨htarget, hassigned⟩ := List.forall_mem_cons.mp hassignment
    obtain ⟨-, hvalue⟩ := List.forall_mem_cons.mp hassigned
    rw [bodyMeaning, AssignmentTree.meaning, Assignment.AllWellFormed, Assignment.WellFormed]
    exact ⟨⟨htarget, value.wellFormed_meaning (List.forall_mem_append.mp hvalue).1⟩,
      allWellFormed_bodyMeaning rest hrest⟩

end

theorem HeadingTree.isSelector {tree : HeadingTree} (h : AllSpelled tree.kinds) :
    IsSelector tree.selector tree.arity := by
  cases tree with
  | name word => exact .inl ⟨rfl, h (.ident word) List.mem_cons_self⟩
  | parts first others =>
    refine .inr ⟨first, others, rfl, rfl, fun part hpart ↦ ?_⟩
    exact h (.selector part) (List.mem_map_of_mem hpart)

theorem MethodTree.wellFormed_meaning {tree : MethodTree} (h : AllSpelled tree.kinds)
    (hnesting : tree.body.nesting ≤ 128) : tree.meaning.WellFormed := by
  obtain ⟨hheading, hbody⟩ := List.forall_mem_append.mp h
  exact ⟨HeadingTree.isSelector hheading, tree.body.wellFormed_meaning hbody,
    Nat.le_trans tree.body.levels_meaning_le hnesting⟩

theorem ClassTree.wellFormed_meaning {tree : ClassTree} (h : AllSpelled tree.kinds)
    (hnesting : tree.NestsWithin 128) : tree.meaning.WellFormed := by
  have hname : Spelled (.classIdent tree.name) := h _ (by simp [ClassTree.kinds])
  have hparent : Spelled tree.parent.kind := h _ (by simp [ClassTree.kinds])
  refine ⟨hname, tree.parent.upperWord_meaning hparent,
    List.forall_mem_map.mpr fun method hmethod ↦ ?_⟩
  refine method.wellFormed_meaning (fun kind hkind ↦ h kind ?_) (hnesting method hmethod)
  have hmem : kind ∈ tree.methods.flatMap MethodTree.kinds :=
    List.mem_flatMap.mpr ⟨method, hmethod, hkind⟩
  simp [ClassTree.kinds, hmem]

/-- Classes that are derived from tokens that can be spelled are well-formed. -/
theorem ProgramTree.wellFormed_of_mem_meaning {tree : ProgramTree} (h : AllSpelled tree.kinds)
    (hnesting : tree.NestsWithin 128) :
    ∀ declared ∈ tree.meaning.classes, declared.WellFormed := by
  refine List.forall_mem_map.mpr fun declared hdeclared ↦ ?_
  refine declared.wellFormed_meaning (fun kind hkind ↦ h kind ?_) (hnesting declared hdeclared)
  exact List.mem_flatMap.mpr ⟨declared, hdeclared, hkind⟩

/-! ### A derivation of what is well-formed -/

theorem ClassName.exists_of_upperWord {name : String} (h : UpperWord name) :
    ∃ which : ClassName, Spelled which.kind ∧ which.meaning = placelessIdent name := by
  by_cases hbuiltin : ∃ which : BuiltinClass, name = which.name
  · obtain ⟨which, rfl⟩ := hbuiltin
    exact ⟨.builtin which, trivial, rfl⟩
  · exact ⟨.own name, ⟨h, fun which heq ↦ hbuiltin ⟨which, heq⟩⟩, rfl⟩

theorem Atom.exists_of_admits {kind : LiteralKind} {value : String} (h : kind.Admits value) :
    ∃ atom : Atom, Spelled atom.kind ∧ atom.meaning = .literal kind value Span.nowhere := by
  cases kind with
  | integer => exact ⟨.integer value, h, rfl⟩
  | string => exact ⟨.string value, h, rfl⟩
  | nilValue =>
    obtain rfl : value = "nil" := h
    exact ⟨.nilWord, trivial, rfl⟩
  | trueValue =>
    obtain rfl : value = "true" := h
    exact ⟨.trueWord, trivial, rfl⟩
  | falseValue =>
    obtain rfl : value = "false" := h
    exact ⟨.falseWord, trivial, rfl⟩
  | className =>
    obtain ⟨which, hspelled, hmeaning⟩ := ClassName.exists_of_upperWord h
    exact ⟨.className which, hspelled, by rw [Atom.meaning, hmeaning]; rfl⟩

theorem Atom.exists_of_name {name : String} (h : FreeName name ∨ name = "self" ∨ name = "super") :
    ∃ atom : Atom, Spelled atom.kind ∧ atom.meaning = .var name Span.nowhere := by
  rcases h with h | rfl | rfl
  · exact ⟨.name name, h, rfl⟩
  · exact ⟨.selfWord, trivial, rfl⟩
  · exact ⟨.superWord, trivial, rfl⟩

/-- A derivation of the expression, with no more parentheses than are needed. -/
structure ExpressionTree.Denotes (tree : ExpressionTree) (expr : Expr) : Prop where
  spelled : AllSpelled tree.kinds
  meaning : tree.meaning = expr.placeless
  nesting : tree.nesting = expr.levels

/-- A derivation of the expression as a receiver or an argument. -/
structure OperandTree.Denotes (tree : OperandTree) (expr : Expr) : Prop where
  spelled : AllSpelled tree.kinds
  meaning : tree.meaning = expr.placeless
  nesting : tree.nesting = expr.operandLevels

structure BlockTree.Denotes (tree : BlockTree) (block : Block) : Prop where
  spelled : AllSpelled tree.kinds
  meaning : tree.meaning = block.placeless
  nesting : tree.nesting = block.levels

theorem OperandTree.denotes_atom {atom : Atom} {expr : Expr} (hspelled : Spelled atom.kind)
    (hmeaning : atom.meaning = expr.placeless) : (OperandTree.atom atom).Denotes expr := by
  constructor
  · rw [OperandTree.kinds]
    exact List.forall_mem_singleton.mpr hspelled
  · rw [OperandTree.meaning, hmeaning]
  · rw [OperandTree.nesting, ← atom.operandLevels_meaning, hmeaning, Expr.operandLevels,
      Expr.operandLevels, expr.levels_placeless, expr.parentheses_placeless]

/-- An operand stands by itself if it needs no parentheses. -/
theorem OperandTree.Denotes.plain {tree : OperandTree} {expr : Expr} (h : tree.Denotes expr)
    (hparentheses : expr.parentheses = 0) : (ExpressionTree.plain tree).Denotes expr := by
  constructor
  · rw [ExpressionTree.kinds]
    exact h.spelled
  · rw [ExpressionTree.meaning, h.meaning]
  · rw [ExpressionTree.nesting, h.nesting, Expr.operandLevels, hparentheses, Nat.add_zero]

theorem ExpressionTree.Denotes.parenthesized {tree : ExpressionTree} {expr : Expr}
    (h : tree.Denotes expr) (hparentheses : expr.parentheses = 1) :
    (OperandTree.parenthesized tree).Denotes expr := by
  constructor
  · rw [OperandTree.kinds]
    exact List.forall_mem_cons.mpr ⟨trivial, List.forall_mem_append.mpr
      ⟨h.spelled, List.forall_mem_singleton.mpr trivial⟩⟩
  · rw [OperandTree.meaning, h.meaning]
  · rw [OperandTree.nesting, h.nesting, Expr.operandLevels, hparentheses]

theorem BlockTree.Denotes.operand {tree : BlockTree} {block : Block} (h : tree.Denotes block) :
    (OperandTree.block tree).Denotes (.block block) := by
  constructor
  · rw [OperandTree.kinds]
    exact h.spelled
  · rw [OperandTree.meaning, h.meaning, Expr.placeless]
  · rw [OperandTree.nesting, h.nesting]
    rfl

theorem allSpelled_paramKinds {params : List String} (h : ∀ param ∈ params, FreeName param) :
    AllSpelled (params.flatMap paramKinds) := by
  intro kind hkind
  obtain ⟨param, hparam, hmem⟩ := List.mem_flatMap.mp hkind
  rw [paramKinds, List.mem_cons, List.mem_singleton] at hmem
  rcases hmem with rfl | rfl
  · trivial
  · exact h param hparam

theorem OperandTree.Denotes.unary {tree : OperandTree} {receiver : Expr} {selector : String}
    (h : tree.Denotes receiver) (hselector : FreeName selector) (span : Span) :
    (ExpressionTree.unary tree selector).Denotes (.send receiver selector [] span) := by
  constructor
  · rw [ExpressionTree.kinds]
    exact List.forall_mem_append.mpr ⟨h.spelled, List.forall_mem_singleton.mpr hselector⟩
  · rw [ExpressionTree.meaning, h.meaning, Expr.placeless, Expr.placelessAll]
  · rw [ExpressionTree.nesting, h.nesting, Expr.levels, Expr.levelsOfArgs, Nat.max_zero,
      Expr.operandLevels]

theorem OperandTree.Denotes.keyword {tree : OperandTree} {receiver : Expr} {args : List Expr}
    {first : ArgumentTree} {others : List ArgumentTree} (h : tree.Denotes receiver)
    (hspelled : AllSpelled (argumentsKinds (first :: others)))
    (hmeaning : argumentsMeaning (first :: others) = Expr.placelessAll args)
    (hnesting : argumentsNesting (first :: others) = Expr.levelsOfArgs args) (span : Span) :
    (ExpressionTree.keyword tree first others).Denotes
      (.send receiver (String.join ((first :: others).map ArgumentTree.part)) args span) := by
  constructor
  · rw [ExpressionTree.kinds]
    exact List.forall_mem_append.mpr ⟨h.spelled, hspelled⟩
  · rw [ExpressionTree.meaning, h.meaning, Expr.placeless, ← hmeaning, argumentsMeaning]
  · rw [ExpressionTree.nesting, h.nesting, Expr.levels, ← hnesting, argumentsNesting,
      Expr.operandLevels]

/-- A message has a derivation if its receiver and its arguments have. -/
theorem exists_expressionTree_send {receiver : Expr} {selector : String} {args : List Expr}
    {operand : OperandTree} (hoperand : operand.Denotes receiver)
    (hselector : IsSelector selector args.length)
    (hargs : ∀ parts : List String, parts.length = args.length →
      (∀ part ∈ parts, SelectorPart part) →
        ∃ arguments : List ArgumentTree, AllSpelled (argumentsKinds arguments) ∧
          arguments.map ArgumentTree.part = parts ∧
          argumentsMeaning arguments = Expr.placelessAll args ∧
          argumentsNesting arguments = Expr.levelsOfArgs args) (span : Span) :
    ∃ tree : ExpressionTree, tree.Denotes (.send receiver selector args span) := by
  rcases hselector with ⟨hcount, hname⟩ | ⟨part, parts, rfl, hcount, hparts⟩
  · obtain rfl := List.length_eq_zero_iff.mp hcount
    exact ⟨_, hoperand.unary hname span⟩
  · obtain ⟨arguments, hspelled, hmap, hmeaning, hnesting⟩ :=
      hargs (part :: parts) hcount.symm hparts
    obtain ⟨first, others, rfl, -, -⟩ := List.map_eq_cons_iff.mp hmap
    rw [← hmap]
    exact ⟨_, hoperand.keyword hspelled hmeaning hnesting span⟩

mutual

theorem exists_trees : ∀ expr : Expr, expr.WellFormed →
    (∃ tree : ExpressionTree, tree.Denotes expr) ∧ ∃ tree : OperandTree, tree.Denotes expr
  | .literal kind value span, h => by
    obtain ⟨atom, hspelled, hmeaning⟩ := Atom.exists_of_admits h
    have hdenotes : (OperandTree.atom atom).Denotes (.literal kind value span) :=
      OperandTree.denotes_atom hspelled hmeaning
    exact ⟨⟨_, hdenotes.plain rfl⟩, _, hdenotes⟩
  | .var name span, h => by
    obtain ⟨atom, hspelled, hmeaning⟩ := Atom.exists_of_name h
    have hdenotes : (OperandTree.atom atom).Denotes (.var name span) :=
      OperandTree.denotes_atom hspelled hmeaning
    exact ⟨⟨_, hdenotes.plain rfl⟩, _, hdenotes⟩
  | .send receiver selector args span, ⟨hreceiver, hselector, hargs⟩ => by
    obtain ⟨-, operand, hoperand⟩ := exists_trees receiver hreceiver
    obtain ⟨tree, hdenotes⟩ :=
      exists_expressionTree_send hoperand hselector (exists_argumentTrees args hargs) span
    exact ⟨⟨tree, hdenotes⟩, _, hdenotes.parenthesized rfl⟩
  | .block content, h => by
    obtain ⟨tree, hdenotes⟩ := exists_blockTree content h
    exact ⟨⟨_, hdenotes.operand.plain rfl⟩, _, hdenotes.operand⟩

theorem exists_argumentTrees : ∀ args : List Expr, Expr.AllWellFormed args →
    ∀ parts : List String, parts.length = args.length → (∀ part ∈ parts, SelectorPart part) →
      ∃ arguments : List ArgumentTree, AllSpelled (argumentsKinds arguments) ∧
        arguments.map ArgumentTree.part = parts ∧
        argumentsMeaning arguments = Expr.placelessAll args ∧
        argumentsNesting arguments = Expr.levelsOfArgs args
  | [], _ => by
    intro parts hlength hparts
    obtain rfl := List.length_eq_zero_iff.mp hlength
    exact ⟨[], nofun, rfl, rfl, rfl⟩
  | arg :: rest, ⟨harg, hrest⟩ => by
    intro parts hlength hparts
    obtain ⟨part, others, rfl⟩ := List.exists_cons_of_length_eq_add_one hlength
    obtain ⟨hpart, hothers⟩ := List.forall_mem_cons.mp hparts
    obtain ⟨-, operand, hoperand⟩ := exists_trees arg harg
    obtain ⟨arguments, hspelled, rfl, hmeaning, hnesting⟩ :=
      exists_argumentTrees rest hrest others (Nat.succ.inj hlength) hothers
    refine ⟨⟨part, operand⟩ :: arguments, ?_, rfl, ?_, ?_⟩
    · rw [argumentsKinds, ArgumentTree.kinds]
      exact List.forall_mem_append.mpr
        ⟨List.forall_mem_cons.mpr ⟨hpart, hoperand.spelled⟩, hspelled⟩
    · rw [argumentsMeaning, ArgumentTree.meaning, hoperand.meaning, hmeaning, Expr.placelessAll]
    · rw [argumentsNesting, ArgumentTree.nesting, hoperand.nesting, hnesting, Expr.levelsOfArgs]
      rfl

theorem exists_blockTree : ∀ block : Block, block.WellFormed →
    ∃ tree : BlockTree, tree.Denotes block
  | ⟨params, body, _⟩, ⟨hparams, hbody⟩ => by
    obtain ⟨assignments, hspelled, hmeaning, hnesting⟩ := exists_assignmentTrees body hbody
    refine ⟨⟨params.map Ident.name, assignments⟩, ?_, ?_, ?_⟩
    · rw [BlockTree.kinds]
      refine List.forall_mem_cons.mpr ⟨trivial, List.forall_mem_append.mpr ⟨?_, ?_⟩⟩
      · refine List.forall_mem_append.mpr ⟨?_, List.forall_mem_singleton.mpr trivial⟩
        exact allSpelled_paramKinds (List.forall_mem_map.mpr hparams)
      · exact List.forall_mem_append.mpr ⟨hspelled, List.forall_mem_singleton.mpr trivial⟩
    · rw [BlockTree.meaning, hmeaning, Block.placeless, List.map_map]
      rfl
    · rw [BlockTree.nesting, hnesting, Block.levels]

theorem exists_assignmentTrees : ∀ body : List Assignment, Assignment.AllWellFormed body →
    ∃ assignments : List AssignmentTree, AllSpelled (bodyKinds assignments) ∧
      bodyMeaning assignments = Assignment.placelessAll body ∧
      bodyNesting assignments = Assignment.levelsOfAll body
  | [], _ => ⟨[], nofun, rfl, rfl⟩
  | ⟨target, value⟩ :: rest, ⟨⟨htarget, hvalue⟩, hrest⟩ => by
    obtain ⟨⟨tree, hdenotes⟩, -⟩ := exists_trees value hvalue
    obtain ⟨assignments, hspelled, hmeaning, hnesting⟩ := exists_assignmentTrees rest hrest
    refine ⟨⟨target.name, tree⟩ :: assignments, ?_, ?_, ?_⟩
    · rw [bodyKinds, AssignmentTree.kinds]
      refine List.forall_mem_append.mpr ⟨List.forall_mem_cons.mpr ⟨htarget, ?_⟩, hspelled⟩
      exact List.forall_mem_cons.mpr ⟨trivial, List.forall_mem_append.mpr
        ⟨hdenotes.spelled, List.forall_mem_singleton.mpr trivial⟩⟩
    · rw [bodyMeaning, AssignmentTree.meaning, hdenotes.meaning, hmeaning,
        Assignment.placelessAll, Assignment.placeless]
      rfl
    · rw [bodyNesting, AssignmentTree.nesting, hdenotes.nesting, hnesting,
        Assignment.levelsOfAll, Assignment.levels]

end

theorem exists_headingTree {selector : String} {count : Nat} (h : IsSelector selector count) :
    ∃ tree : HeadingTree, AllSpelled tree.kinds ∧ tree.selector = selector ∧
      tree.arity = count := by
  rcases h with ⟨rfl, hname⟩ | ⟨first, others, rfl, rfl, hparts⟩
  · exact ⟨.name selector, List.forall_mem_singleton.mpr hname, rfl, rfl⟩
  · refine ⟨.parts first others, ?_, rfl, rfl⟩
    rw [AllSpelled, HeadingTree.kinds, List.forall_mem_map]
    exact hparts

theorem exists_methodTree {method : Method} (h : method.WellFormed) :
    ∃ tree : MethodTree, (AllSpelled tree.kinds ∧ tree.body.nesting ≤ 128) ∧
      tree.meaning = method.placeless := by
  obtain ⟨heading, hheading, hselector, harity⟩ := exists_headingTree h.selector
  obtain ⟨body, hbody⟩ := exists_blockTree method.body h.body
  refine ⟨⟨heading, body⟩, ⟨List.forall_mem_append.mpr ⟨hheading, hbody.spelled⟩, ?_⟩, ?_⟩
  · exact hbody.nesting ▸ h.levels
  · rw [MethodTree.meaning, hselector, harity, hbody.meaning]
    rfl

/-- If every item of a list has a tree, the list has a list of trees. -/
theorem exists_map_eq_of_forall {τ α : Type} {Fits : τ → Prop} {meaning : τ → α} {items : List α}
    (h : ∀ item ∈ items, ∃ tree, Fits tree ∧ meaning tree = item) :
    ∃ trees : List τ, (∀ tree ∈ trees, Fits tree) ∧ trees.map meaning = items := by
  induction items with
  | nil => exact ⟨[], nofun, rfl⟩
  | cons item items ih =>
    obtain ⟨⟨tree, hfits, rfl⟩, hitems⟩ := List.forall_mem_cons.mp h
    obtain ⟨trees, hfitsAll, rfl⟩ := ih hitems
    exact ⟨tree :: trees, List.forall_mem_cons.mpr ⟨hfits, hfitsAll⟩, rfl⟩

theorem exists_classTree {declared : ClassDef} (h : declared.WellFormed) :
    ∃ tree : ClassTree, (AllSpelled tree.kinds ∧ tree.NestsWithin 128) ∧
      tree.meaning = declared.placeless := by
  obtain ⟨parent, hparent, hparentMeaning⟩ := ClassName.exists_of_upperWord h.parent
  obtain ⟨methods, hmethods, hmeaning⟩ := exists_map_eq_of_forall
    (List.forall_mem_map.mpr fun method hmethod ↦ exists_methodTree (h.methods method hmethod))
  refine ⟨⟨declared.name.name, parent, methods⟩,
    ⟨?_, fun method hmethod ↦ (hmethods method hmethod).2⟩, ?_⟩
  · have hall : AllSpelled (methods.flatMap MethodTree.kinds) := fun kind hkind ↦ by
      obtain ⟨method, hmethod, hmem⟩ := List.mem_flatMap.mp hkind
      exact (hmethods method hmethod).1 kind hmem
    have hname : Spelled (.classIdent declared.name.name) := h.name
    simp only [AllSpelled, ClassTree.kinds, List.forall_mem_cons, List.forall_mem_append]
    exact ⟨trivial, hname, trivial, hparent, trivial, hall, trivial, List.forall_mem_nil _⟩
  · rw [ClassTree.meaning, hparentMeaning, hmeaning]
    rfl

theorem exists_programTree {classes : List ClassDef}
    (h : ∀ declared ∈ classes, declared.WellFormed) :
    ∃ tree : ProgramTree, AllSpelled tree.kinds ∧ tree.NestsWithin 128 ∧
      tree.meaning = ⟨classes.map ClassDef.placeless, none⟩ := by
  obtain ⟨trees, htrees, hmeaning⟩ := exists_map_eq_of_forall
    (List.forall_mem_map.mpr fun declared hdeclared ↦ exists_classTree (h declared hdeclared))
  refine ⟨⟨trees⟩, fun kind hkind ↦ ?_, fun tree htree ↦ (htrees tree htree).2, ?_⟩
  · obtain ⟨tree, htree, hmem⟩ := List.mem_flatMap.mp hkind
    exact (htrees tree htree).1 kind hmem
  · rw [ProgramTree.meaning, hmeaning]

end Grammar

/-! ### Programs and texts -/

theorem Lexis.Splits.spelled {position last : Nat} {text rest : List Char} {tokens : List Token}
    {comments : List (List Char)} (h : Splits position text tokens comments last rest) :
    ∀ token ∈ tokens, Spelled token.kind := by
  induction h with
  | done => exact List.forall_mem_nil _
  | blank _ _ ih => exact ih
  | comment _ _ ih => exact ih
  | lexeme hlexeme _ ih => exact List.forall_mem_cons.mpr ⟨hlexeme.spelled, ih⟩

theorem Lexis.Splits.no_quote_in_comment {position last : Nat} {text rest : List Char}
    {tokens : List Token} {comments : List (List Char)}
    (h : Splits position text tokens comments last rest) : ∀ body ∈ comments, '"' ∉ body := by
  induction h with
  | done => exact List.forall_mem_nil _
  | blank _ _ ih => exact ih
  | comment hbody _ ih => exact List.forall_mem_cons.mpr ⟨hbody, ih⟩
  | lexeme _ _ ih => exact ih

namespace Program

theorem wellFormed_of_ofText_eq_ok {text : List Char} {read : Program}
    (h : ofText text = .ok read) : read.WellFormed := by
  obtain ⟨tokens, comments, hsplits, hclasses, hdescription⟩ := ofText_eq_ok_iff.mp h
  obtain ⟨tree, hkinds, hnesting, hmeaning⟩ := Reading.derives_of_classes_eq_ok hclasses
  have hspelled : AllSpelled tree.kinds := by
    rw [AllSpelled, hkinds, List.forall_mem_map]
    exact hsplits.spelled
  constructor
  · have hwell := ProgramTree.wellFormed_of_mem_meaning hspelled hnesting
    rw [hmeaning] at hwell
    intro declared hdeclared
    exact ClassDef.wellFormed_placeless_iff.mp (hwell _ (List.mem_map_of_mem hdeclared))
  · intro description hmem
    rw [hdescription] at hmem
    obtain ⟨body, hbody, rfl⟩ := Option.map_eq_some_iff.mp hmem
    rw [String.toList_ofList]
    exact hsplits.no_quote_in_comment body (List.mem_of_head? hbody)

/-- Tokens that can be spelled and a description can be written down together, the description as a
comment in front. -/
theorem exists_splits_of_description {kinds : List Kind} (hkinds : AllSpelled kinds)
    {description? : Option String}
    (h : ∀ description ∈ description?, '"' ∉ description.toList) :
    ∃ text tokens comments last, Splits 0 text tokens comments last [] ∧
      tokens.map Token.kind = kinds ∧ comments.head?.map String.ofList = description? := by
  cases description? with
  | none =>
    obtain ⟨text, tokens, last, hsplits, htokens⟩ := exists_splits_of_spelled hkinds 0
    exact ⟨text, tokens, [], last, hsplits, htokens, rfl⟩
  | some description =>
    obtain ⟨text, tokens, last, hsplits, htokens⟩ :=
      exists_splits_of_spelled hkinds (0 + (description.toList.length + 2))
    refine ⟨_, tokens, _, last, .comment (h description rfl) hsplits, htokens, ?_⟩
    exact congrArg some (String.ofList_toList ..)

/-- A program that is well-formed is read from its tokens with blanks between them. -/
theorem exists_text_of_wellFormed {program : Program} (h : program.WellFormed) :
    ∃ text read, ofText text = .ok read ∧ read.placeless = program.placeless := by
  obtain ⟨tree, hspelled, hnesting, hmeaning⟩ := exists_programTree h.classes
  obtain ⟨text, tokens, comments, last, hsplits, hkinds, hcomments⟩ :=
    exists_splits_of_description hspelled h.description
  obtain rfl := hsplits.last_eq_length
  have hderives : Derives Reading.maxNesting (tokens.map Token.kind)
      ⟨program.classes.map ClassDef.placeless, none⟩ := ⟨tree, hkinds.symm, hnesting, hmeaning⟩
  obtain ⟨declared, hclasses, hdeclared⟩ := Reading.exists_classes_eq_ok_of_derives hderives
  refine ⟨text, ⟨declared, program.description?⟩,
    ofText_eq_ok_iff.mpr ⟨tokens, comments, hsplits, hclasses, hcomments.symm⟩, ?_⟩
  exact congrArg (Program.mk · program.description?) (congrArg Program.classes hdeclared)

/-- The programs that texts hold are, up to spans, those that are well-formed. -/
theorem exists_text_iff_wellFormed (program : Program) :
    (∃ text read, ofText text = .ok read ∧ read.placeless = program.placeless) ↔
      program.WellFormed := by
  constructor
  · rintro ⟨text, read, hread, heq⟩
    rw [← wellFormed_placeless_iff, ← heq, wellFormed_placeless_iff]
    exact wellFormed_of_ofText_eq_ok hread
  · exact exists_text_of_wellFormed

end Program

end Sol25
