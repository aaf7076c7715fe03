import Mathlib.Algebra.Ring.Int.Defs
import Sol25.Proofs.Grammar.Lookahead

/-!
# What has been used up when reading stops

A reader that cannot go on has used up the beginning of something that the grammar derives: what has
been read so far can be completed (`Completable`). The shortest way to do so is good enough, `nil`
for an operand that is missing and an empty block for a missing one, and no further level is opened
by it.

If the reader stops since it would get too deep, it stands in front of an opening parenthesis or
bracket, an operand is what is missing, and as many levels are open as may be (`AtLimit`). How many
are open is counted from the kinds alone (`level`); what the grammar derives closes all it opens
(`Balanced`).
-/

set_option autoImplicit false
set_option relaxedAutoImplicit false

namespace Sol25

open Token (Kind)

namespace Grammar

/-- What a token does to the number of parentheses and brackets that are open. -/
def levelStep : Kind → Int
  | .mark .leftParen | .mark .leftBracket => 1
  | .mark .rightParen | .mark .rightBracket => -1
  | _ => 0

/-- How many parentheses and brackets are open behind tokens of these kinds. -/
def level (kinds : List Kind) : Int := (kinds.map levelStep).sum

@[simp] theorem level_nil : level [] = 0 := rfl

@[simp] theorem level_cons (kind : Kind) (kinds : List Kind) :
    level (kind :: kinds) = levelStep kind + level kinds := by
  rw [level, List.map_cons, List.sum_cons, level]

@[simp] theorem level_append (front back : List Kind) :
    level (front ++ back) = level front + level back := by
  rw [level, List.map_append, List.sum_append, level, level]

/-- What is opened is closed again, and the end of the input is not among the kinds. -/
structure Balanced (kinds : List Kind) : Prop where
  level : level kinds = 0
  noEnd : .eof ∉ kinds

theorem balanced_iff {kinds : List Kind} : Balanced kinds ↔ level kinds = 0 ∧ .eof ∉ kinds :=
  ⟨fun h ↦ ⟨h.level, h.noEnd⟩, fun h ↦ ⟨h.1, h.2⟩⟩

theorem Balanced.append {front back : List Kind} (hfront : Balanced front)
    (hback : Balanced back) : Balanced (front ++ back) := by
  simp [balanced_iff, hfront.level, hback.level, hfront.noEnd, hback.noEnd]

theorem balanced_flatMap {τ : Type} {kinds : τ → List Kind} (h : ∀ tree, Balanced (kinds tree))
    (trees : List τ) : Balanced (trees.flatMap kinds) := by
  induction trees with
  | nil => exact ⟨rfl, nofun⟩
  | cons tree trees ih => exact (h tree).append ih

theorem balanced_paramKinds (params : List String) : Balanced (params.flatMap paramKinds) :=
  balanced_flatMap (fun param ↦ by simp [balanced_iff, paramKinds, levelStep]) params

mutual

theorem balanced_operand : ∀ tree : OperandTree, Balanced tree.kinds
  | .atom atom => by
    rw [OperandTree.kinds]
    cases atom with
    | className which => cases which <;> exact ⟨rfl, by simp [Atom.kind, ClassName.kind]⟩
    | _ => exact ⟨rfl, by simp [Atom.kind]⟩
  | .parenthesized inner => by
    have hinner := balanced_expression inner
    simp [balanced_iff, OperandTree.kinds, levelStep, hinner.level, hinner.noEnd]
  | .block content => by
    rw [OperandTree.kinds]
    exact balanced_block content

theorem balanced_expression : ∀ tree : ExpressionTree, Balanced tree.kinds
  | .plain operand => by
    rw [ExpressionTree.kinds]
    exact balanced_operand operand
  | .unary receiver selector => by
    have hreceiver := balanced_operand receiver
    simp [balanced_iff, ExpressionTree.kinds, levelStep, hreceiver.level, hreceiver.noEnd]
  | .keyword receiver ⟨part, first⟩ others => by
    have hreceiver := balanced_operand receiver
    have hfirst := balanced_operand first
    have hothers := balanced_arguments others
    simp [balanced_iff, ExpressionTree.kinds, ArgumentTree.kinds, levelStep, hreceiver.level,
      hreceiver.noEnd, hfirst.level, hfirst.noEnd, hothers.level, hothers.noEnd]

theorem balanced_arguments : ∀ arguments : List ArgumentTree,
    Balanced (argumentsKinds arguments)
  | [] => by
    rw [argumentsKinds]
    exact ⟨rfl, nofun⟩
  | ⟨part, operand⟩ :: others => by
    have hoperand := balanced_operand operand
    have hothers := balanced_arguments others
    simp [balanced_iff, argumentsKinds, ArgumentTree.kinds, levelStep, hoperand.level,
      hoperand.noEnd, hothers.level, hothers.noEnd]

theorem balanced_block : ∀ tree : BlockTree, Balanced tree.kinds
  | ⟨params, body⟩ => by
    have hparams := balanced_paramKinds params
    have hbody := balanced_body body
    have hnames := hparams.noEnd
    simp only [List.mem_flatMap, not_exists, not_and] at hnames
    simpa [balanced_iff, BlockTree.kinds, levelStep, hparams.level, hbody.level, hbody.noEnd]
      using hnames

theorem balanced_body : ∀ body : List AssignmentTree, Balanced (bodyKinds body)
  | [] => by
    rw [bodyKinds]
    exact ⟨rfl, nofun⟩
  | ⟨target, value⟩ :: others => by
    have hvalue := balanced_expression value
    have hothers := balanced_body others
    simp [balanced_iff, bodyKinds, AssignmentTree.kinds, levelStep, hvalue.level, hvalue.noEnd,
      hothers.level, hothers.noEnd]

end

theorem balanced_assignment : ∀ tree : AssignmentTree, Balanced tree.kinds
  | ⟨target, value⟩ => by
    have hvalue := balanced_expression value
    simp [balanced_iff, AssignmentTree.kinds, levelStep, hvalue.level, hvalue.noEnd]

theorem balanced_heading (tree : HeadingTree) : Balanced tree.kinds := by
  cases tree with
  | name word => exact ⟨rfl, by simp [HeadingTree.kinds]⟩
  | parts first others =>
    have hothers : level (others.map .selector) = 0 := by
      induction others with
      | nil => rfl
      | cons part others ih => simp [levelStep, ih]
    simp [balanced_iff, HeadingTree.kinds, levelStep, hothers]

theorem balanced_method (tree : MethodTree) : Balanced tree.kinds :=
  (balanced_heading tree.heading).append (balanced_block tree.body)

theorem balanced_class (tree : ClassTree) : Balanced tree.kinds := by
  have hmethods := balanced_flatMap balanced_method tree.methods
  have hparent : Balanced [tree.parent.kind] := by
    cases tree.parent <;> exact ⟨rfl, by simp [ClassName.kind]⟩
  have hheader : Balanced [.keyword .classWord, .classIdent tree.name, .mark .colon] :=
    ⟨rfl, by simp⟩
  have hleft : Balanced [.mark .leftBrace] := ⟨rfl, by simp⟩
  have hright : Balanced [.mark .rightBrace] := ⟨rfl, by simp⟩
  exact hheader.append (hparent.append (hleft.append (hmethods.append hright)))

theorem balanced_program (tree : ProgramTree) : Balanced tree.kinds :=
  balanced_flatMap balanced_class tree.classes

end Grammar

namespace Reading

open Grammar

variable {τ α β : Type} {tokens : List Token} {stop : Stop}

/-- If the reader stops since it would get too deep, it stands in front of an opening, `nil` is what
completes the kinds in front of it, and they leave as many levels open as may be. -/
def AtLimit (stop : Stop) (limit : Int) (front more : List Kind) : Prop :=
  stop.reason = .tooDeep → (∃ kind ∈ nextKind? stop.rest, IsOpening kind) ∧
    more.head? = some (.keyword .nilWord) ∧ level front = limit

theorem atLimit_of_reason_ne {limit : Int} {front more : List Kind} (h : stop.reason ≠ .tooDeep) :
    AtLimit stop limit front more :=
  fun hdeep ↦ absurd hdeep h

/-- What completes the kinds in front may go on. -/
theorem AtLimit.append_right {limit : Int} {front more : List Kind}
    (h : AtLimit stop limit front more) (further : List Kind) :
    AtLimit stop limit front (more ++ further) := by
  intro hdeep
  obtain ⟨hopening, hnil, hlevel⟩ := h hdeep
  refine ⟨hopening, ?_, hlevel⟩
  rw [List.head?_append, hnil]
  rfl

/-- Levels that are open in front count as well. -/
theorem AtLimit.append_left {limit : Int} {front more : List Kind}
    (h : AtLimit stop limit front more) (before : List Kind) :
    AtLimit stop (level before + limit) (before ++ front) more := by
  intro hdeep
  obtain ⟨hopening, hnil, hlevel⟩ := h hdeep
  exact ⟨hopening, hnil, by rw [level_append, hlevel]⟩

/-- Whenever the reader stops, it has used up the beginning of something that the symbol derives,
and it is not too deep inside it unless `limit` levels are open. -/
def Completable (reader : Reader α) (symbol : Symbol τ α) (limit : Int) : Prop :=
  ∀ tokens stop, reader tokens = .error stop →
    ∃ used more tree, tokens = used ++ stop.rest ∧
      symbol.kinds tree = used.map Token.kind ++ more ∧ symbol.Fits tree ∧
      AtLimit stop limit (used.map Token.kind) more

/-! ### Single tokens -/

theorem stop_of_require_eq_error {what : String} {value? : Token → Option α}
    (h : require what value? tokens = .error stop) : stop = ⟨.expected what, tokens⟩ := by
  unfold require at h
  split at h
  · cases h
  · exact (Except.error.inj h).symm

theorem stop_of_requireKind_eq_error {kind : Kind} (h : requireKind kind tokens = .error stop) :
    stop = ⟨.expected kind.display, tokens⟩ :=
  stop_of_require_eq_error h

/-- An operand that is missing is completed by `nil`. -/
def missing : OperandTree := .atom .nilWord

/-- A block that is missing is completed by an empty one. -/
def missingBlock : BlockTree := ⟨[], []⟩

/-! ### Repetitions -/

theorem completable_manyThen {close : Mark} {item : Reader α} {symbol : Symbol τ α} {limit : Int}
    (hsound : Sound item symbol) (hlevel : ∀ tree, level (symbol.kinds tree) = 0)
    (h : Completable item symbol limit) (hread : manyThen close item tokens = .error stop) :
    ∃ used, ∃ more, ∃ trees : List τ, tokens = used ++ stop.rest ∧
      trees.flatMap symbol.kinds ++ [.mark close] = used.map Token.kind ++ more ∧
      (∀ tree ∈ trees, symbol.Fits tree) ∧ AtLimit stop limit (used.map Token.kind) more := by
  induction hlength : tokens.length using Nat.strongRecOn generalizing tokens with
  | _ length ih =>
    rw [manyThen] at hread
    split at hread
    · cases hread
    · rcases exists_of_bind_eq_error hread with hfirst | ⟨first, hfirst, hread⟩
      · obtain ⟨used, more, tree, hused, hkinds, hfits, hlimit⟩ := h _ _ hfirst
        refine ⟨used, more ++ [.mark close], [tree], hused, ?_, ?_, hlimit.append_right _⟩
        · simp [hkinds]
        · simpa using hfits
      rcases exists_of_bind_eq_error hread with hothers | ⟨others, -, hread⟩
      · obtain ⟨used, tree, hused, hkinds, hfits, -⟩ := hsound _ _ hfirst
        obtain ⟨usedMore, more, trees, husedMore, hkindsMore, hfitsMore, hlimit⟩ :=
          ih _ (hlength ▸ first.shorter) hothers rfl
        refine ⟨used ++ usedMore, more, tree :: trees, eq_append_trans hused husedMore, ?_,
          List.forall_mem_cons.mpr ⟨hfits, hfitsMore⟩, ?_⟩
        · simp [hkinds, ← hkindsMore]
        · have hfront := hlimit.append_left (used.map Token.kind)
          rwa [← hkinds, hlevel, Int.zero_add, hkinds, ← List.map_append] at hfront
      · cases hread

theorem completable_params (h : params tokens = .error stop) :
    stop.reason ≠ .tooDeep ∧ ∃ used, ∃ more, ∃ names : List String, tokens = used ++ stop.rest ∧
      names.flatMap paramKinds ++ [.mark .pipe] = used.map Token.kind ++ more := by
  induction hlength : tokens.length using Nat.strongRecOn generalizing tokens with
  | _ length ih =>
    rw [params] at h
    split at h
    · next colon hcolon =>
      obtain ⟨sign, hsign, hsignKind⟩ := eq_append_of_next?_eq_some hcolon
      rw [isKind_eq_some_iff] at hsignKind
      rcases exists_of_bind_eq_error h with hparam | ⟨param, hparam, h⟩
      · obtain rfl := stop_of_require_eq_error hparam
        exact ⟨by rintro ⟨⟩, [sign], _, ["missing"], hsign, by simp [paramKinds, hsignKind]; rfl⟩
      obtain ⟨name, hname, hnameKind⟩ := eq_append_of_requireName_eq_ok hparam
      rcases exists_of_bind_eq_error h with hothers | ⟨others, -, h⟩
      · obtain ⟨hreason, used, more, names, hused, hkinds⟩ :=
          ih _ (hlength ▸ Nat.lt_trans param.shorter colon.shorter) hothers rfl
        refine ⟨hreason, _, more, param.value.name :: names,
          eq_append_trans hsign (eq_append_trans hname hused), ?_⟩
        simp [paramKinds, hsignKind, hnameKind, hkinds]
      · cases h
    · rcases exists_of_bind_eq_error h with hbar | ⟨bar, -, h⟩
      · obtain rfl := stop_of_requireKind_eq_error hbar
        exact ⟨by rintro ⟨⟩, [], _, [], rfl, rfl⟩
      · cases h

/-! ### Operands and what is made of them -/

theorem completable_assignmentWith {depth : Nat} {limit : Int} {expression : Reader Expr}
    (hsound : Sound expression (.expression depth))
    (h : Completable expression (.expression depth) limit) :
    Completable (assignmentWith expression) (.assignment depth) limit := by
  intro tokens stop hread
  have hmissing : (AssignmentTree.mk "missing" (.plain missing)).nesting ≤ depth := Nat.zero_le _
  rcases exists_of_bind_eq_error hread with htarget | ⟨target, htarget, hread⟩
  · obtain rfl := stop_of_require_eq_error htarget
    exact ⟨[], _, ⟨"missing", .plain missing⟩, rfl, rfl, hmissing, atLimit_of_reason_ne nofun⟩
  obtain ⟨name, hname, hnameKind⟩ := eq_append_of_requireName_eq_ok htarget
  rcases exists_of_bind_eq_error hread with hsign | ⟨sign, hsign, hread⟩
  · obtain rfl := stop_of_requireKind_eq_error hsign
    refine ⟨[name], [.mark .assign, .keyword .nilWord, .mark .dot],
      ⟨target.value.name, .plain missing⟩, hname, ?_, hmissing, atLimit_of_reason_ne nofun⟩
    change AssignmentTree.kinds _ = _
    rw [AssignmentTree.kinds, List.map_singleton, hnameKind]
    rfl
  obtain ⟨assign, hassign, hassignKind⟩ := eq_append_of_requireKind_eq_ok hsign
  rcases exists_of_bind_eq_error hread with hvalue | ⟨value, hvalue, hread⟩
  · obtain ⟨used, more, tree, hused, hkinds, hfits, hlimit⟩ := h _ _ hvalue
    change tree.kinds = _ at hkinds
    refine ⟨_, more ++ [.mark .dot], ⟨target.value.name, tree⟩,
      eq_append_trans hname (eq_append_trans hassign hused), ?_, hfits, ?_⟩
    · change AssignmentTree.kinds _ = _
      simp [AssignmentTree.kinds, hkinds, hnameKind, hassignKind]
    · have hfront := (hlimit.append_right [.mark .dot]).append_left
        [.ident target.value.name, .mark .assign]
      simpa [levelStep, hnameKind, hassignKind] using hfront
  obtain ⟨used, tree, hused, hkinds, hfits, -⟩ := hsound _ _ hvalue
  change tree.kinds = _ at hkinds
  rcases exists_of_bind_eq_error hread with hdot | ⟨dot, -, hread⟩
  · obtain rfl := stop_of_requireKind_eq_error hdot
    refine ⟨_, [.mark .dot], ⟨target.value.name, tree⟩,
      eq_append_trans hname (eq_append_trans hassign hused), ?_, hfits,
      atLimit_of_reason_ne nofun⟩
    change AssignmentTree.kinds _ = _
    simp [AssignmentTree.kinds, hkinds, hnameKind, hassignKind]
  · cases hread

theorem completable_argumentsWith {depth : Nat} {limit : Int} {operand : Reader Expr}
    (hsound : Sound operand (.operand depth)) (h : Completable operand (.operand depth) limit)
    {part : String} (hread : argumentsWith operand part tokens = .error stop) :
    ∃ used, ∃ more, ∃ first : OperandTree, ∃ others : List ArgumentTree,
      tokens = used ++ stop.rest ∧
      first.kinds ++ argumentsKinds others = used.map Token.kind ++ more ∧
      max first.nesting (argumentsNesting others) ≤ depth ∧
      AtLimit stop limit (used.map Token.kind) more := by
  induction hlength : tokens.length using Nat.strongRecOn generalizing tokens part with
  | _ length ih =>
    rw [argumentsWith] at hread
    rcases exists_of_bind_eq_error hread with hargument | ⟨argument, hargument, hread⟩
    · obtain ⟨used, more, tree, hused, hkinds, hfits, hlimit⟩ := h _ _ hargument
      refine ⟨used, more, tree, [], hused, ?_, Nat.max_le.mpr ⟨hfits, Nat.zero_le _⟩, hlimit⟩
      rw [argumentsKinds, List.append_nil]
      exact hkinds
    obtain ⟨used, tree, hused, hkinds, hfits, -⟩ := hsound _ _ hargument
    change tree.kinds = _ at hkinds
    change tree.nesting ≤ depth at hfits
    split at hread
    · cases hread
    · next next hnext =>
      obtain ⟨token, htoken, hpart⟩ := eq_append_of_next?_eq_some hnext
      rw [part?_eq_some_iff] at hpart
      rcases exists_of_bind_eq_error hread with hothers | ⟨others, -, hread⟩
      · obtain ⟨usedMore, more, first, others, husedMore, hkindsMore, hfitsMore, hlimit⟩ :=
          ih _ (hlength ▸ Nat.lt_trans next.shorter argument.shorter) hothers rfl
        refine ⟨_, more, tree, ⟨next.value, first⟩ :: others,
          eq_append_trans hused (eq_append_trans htoken husedMore), ?_,
          Nat.max_le.mpr ⟨hfits, hfitsMore⟩, ?_⟩
        · simp [argumentsKinds, ArgumentTree.kinds, hkinds, hpart, hkindsMore]
        · have hfront := hlimit.append_left (used.map Token.kind ++ [.selector next.value])
          have hlevel := (balanced_operand tree).level
          rw [hkinds] at hlevel
          simpa [hlevel, levelStep, hpart] using hfront
      · cases hread

theorem completable_expressionWith {depth : Nat} {limit : Int} {operand : Reader Expr}
    (hsound : Sound operand (.operand depth)) (h : Completable operand (.operand depth) limit) :
    Completable (expressionWith operand) (.expression depth) limit := by
  intro tokens stop hread
  rcases exists_of_bind_eq_error hread with hreceiver | ⟨receiver, hreceiver, hread⟩
  · obtain ⟨used, more, tree, hused, hkinds, hfits, hlimit⟩ := h _ _ hreceiver
    exact ⟨used, more, .plain tree, hused, hkinds, hfits, hlimit⟩
  obtain ⟨used, tree, hused, hkinds, hfits, -⟩ := hsound _ _ hreceiver
  change tree.kinds = _ at hkinds
  change tree.nesting ≤ depth at hfits
  split at hread
  · cases hread
  · split at hread
    · next part hpart =>
      obtain ⟨token, htoken, htokenKind⟩ := eq_append_of_next?_eq_some hpart
      rw [part?_eq_some_iff] at htokenKind
      rcases exists_of_bind_eq_error hread with hmessage | ⟨message, -, hread⟩
      · obtain ⟨usedMore, more, first, others, husedMore, hkindsMore, hfitsMore, hlimit⟩ :=
          completable_argumentsWith hsound h hmessage
        refine ⟨_, more, .keyword tree ⟨part.value, first⟩ others,
          eq_append_trans hused (eq_append_trans htoken husedMore), ?_,
          Nat.max_le.mpr ⟨hfits, hfitsMore⟩, ?_⟩
        · change ExpressionTree.kinds _ = _
          simp [ExpressionTree.kinds, ArgumentTree.kinds, hkinds, htokenKind, hkindsMore]
        · have hfront := hlimit.append_left (used.map Token.kind ++ [.selector part.value])
          have hlevel := (balanced_operand tree).level
          rw [hkinds] at hlevel
          simpa [hlevel, levelStep, htokenKind] using hfront
      · cases hread
    · cases hread

theorem completable_blockWith {depth : Nat} {limit : Int} {operand : Reader Expr}
    (hsound : Sound operand (.operand depth)) (h : Completable operand (.operand depth) limit) :
    Completable (blockWith operand) (.block depth) (1 + limit) := by
  intro tokens stop hread
  rcases exists_of_bind_eq_error hread with hleft | ⟨left, hleft, hread⟩
  · obtain rfl := stop_of_requireKind_eq_error hleft
    exact ⟨[], _, missingBlock, rfl, rfl, Nat.zero_le _, atLimit_of_reason_ne nofun⟩
  obtain ⟨token, htoken, htokenKind⟩ := eq_append_of_requireKind_eq_ok hleft
  rcases exists_of_bind_eq_error hread with hnames | ⟨names, hnames, hread⟩
  · obtain ⟨hreason, used, more, params, hused, hkinds⟩ := completable_params hnames
    refine ⟨_, more ++ [.mark .rightBracket], ⟨params, []⟩, eq_append_trans htoken hused, ?_,
      Nat.zero_le _, atLimit_of_reason_ne hreason⟩
    change BlockTree.kinds _ = _
    simp only [BlockTree.kinds, bodyKinds, hkinds]
    simp [htokenKind]
  obtain ⟨usedNames, husedNames, hnamesKinds⟩ := sound_params hnames
  rcases exists_of_bind_eq_error hread with hbody | ⟨body, -, hread⟩
  · have hvalue := completable_expressionWith hsound h
    obtain ⟨usedBody, more, trees, husedBody, hkinds, hfits, hlimit⟩ :=
      completable_manyThen (sound_assignmentWith (sound_expressionWith hsound))
        (fun tree ↦ (balanced_assignment tree).level)
        (completable_assignmentWith (sound_expressionWith hsound) hvalue) hbody
    refine ⟨_, more, ⟨names.value.map Ident.name, trees⟩,
      eq_append_trans htoken (eq_append_trans husedNames husedBody), ?_,
      bodyNesting_le_iff.mpr hfits, ?_⟩
    · change BlockTree.kinds _ = _
      change trees.flatMap AssignmentTree.kinds ++ _ = _ at hkinds
      rw [BlockTree.kinds, bodyKinds_eq_flatMap, hkinds]
      simp [htokenKind, hnamesKinds]
    · have hfront := hlimit.append_left ([token].map Token.kind ++ usedNames.map Token.kind)
      have hlevel : level ([token].map Token.kind ++ usedNames.map Token.kind) = 1 := by
        simp [htokenKind, hnamesKinds, (balanced_paramKinds _).level, levelStep]
      rw [hlevel] at hfront
      simpa using hfront
  · cases hread

theorem completable_parenthesizedWith {depth : Nat} {limit : Int} {operand : Reader Expr}
    (hsound : Sound operand (.operand depth)) (h : Completable operand (.operand depth) limit) :
    Completable (parenthesizedWith operand) (.operand (depth + 1)) (1 + limit) := by
  intro tokens stop hread
  rcases exists_of_bind_eq_error hread with hleft | ⟨left, hleft, hread⟩
  · obtain rfl := stop_of_requireKind_eq_error hleft
    exact ⟨[], _, missing, rfl, rfl, Nat.zero_le _, atLimit_of_reason_ne nofun⟩
  obtain ⟨opening, hopening, hopeningKind⟩ := eq_append_of_requireKind_eq_ok hleft
  rcases exists_of_bind_eq_error hread with hvalue | ⟨value, hvalue, hread⟩
  · obtain ⟨used, more, tree, hused, hkinds, hfits, hlimit⟩ :=
      completable_expressionWith hsound h _ _ hvalue
    change tree.kinds = _ at hkinds
    refine ⟨_, more ++ [.mark .rightParen], .parenthesized tree, eq_append_trans hopening hused,
      ?_, Nat.succ_le_succ hfits, ?_⟩
    · change OperandTree.kinds _ = _
      simp [OperandTree.kinds, hkinds, hopeningKind]
    · have hfront := (hlimit.append_right [.mark .rightParen]).append_left [.mark .leftParen]
      simpa [levelStep, hopeningKind] using hfront
  obtain ⟨used, tree, hused, hkinds, hfits, -⟩ := sound_expressionWith hsound _ _ hvalue
  change tree.kinds = _ at hkinds
  rcases exists_of_bind_eq_error hread with hright | ⟨right, -, hread⟩
  · obtain rfl := stop_of_requireKind_eq_error hright
    refine ⟨_, [.mark .rightParen], .parenthesized tree, eq_append_trans hopening hused, ?_,
      Nat.succ_le_succ hfits, atLimit_of_reason_ne nofun⟩
    change OperandTree.kinds _ = _
    simp [OperandTree.kinds, hkinds, hopeningKind]
  · cases hread

theorem completable_requireAtom (depth : Nat) (limit : Int) :
    Completable (require "expression" atom?) (.operand depth) limit := by
  intro tokens stop hread
  obtain rfl := stop_of_require_eq_error hread
  exact ⟨[], _, missing, rfl, rfl, Nat.zero_le _, atLimit_of_reason_ne nofun⟩

theorem completable_blockOperand {depth : Nat} {limit : Int} {inner : Reader Expr}
    (hsound : Sound inner (.operand depth)) (h : Completable inner (.operand depth) limit) :
    Completable (fun tokens ↦ (blockWith inner tokens).map (·.map .block)) (.operand (depth + 1))
      (1 + limit) := by
  intro tokens stop hread
  cases hblock : blockWith inner tokens with
  | ok content =>
    simp only [hblock] at hread
    cases hread
  | error other =>
    simp only [hblock] at hread
    cases hread
    obtain ⟨used, more, tree, hused, hkinds, hfits, hlimit⟩ :=
      completable_blockWith hsound h _ _ hblock
    exact ⟨used, more, .block tree, hused, hkinds, Nat.succ_le_succ hfits, hlimit⟩

/-- An operand in which `depth` more levels may be opened is kept from opening another one exactly
that deep inside it. -/
theorem completable_operand (depth : Nat) :
    Completable (operand depth) (.operand depth) depth := by
  induction depth with
  | zero =>
    intro tokens stop hread
    change operandWith none tokens = .error stop at hread
    unfold operandWith at hread
    split at hread
    · next hkind =>
      cases hread
      exact ⟨[], _, missing, rfl, rfl, Nat.zero_le _,
        fun _ ↦ ⟨⟨_, hkind, .inl rfl⟩, rfl, rfl⟩⟩
    · next hkind =>
      cases hread
      exact ⟨[], _, missing, rfl, rfl, Nat.zero_le _,
        fun _ ↦ ⟨⟨_, hkind, .inr rfl⟩, rfl, rfl⟩⟩
    · exact completable_requireAtom 0 0 _ _ hread
  | succ depth ih =>
    intro tokens stop hread
    have hlimit : ((depth + 1 : Nat) : Int) = 1 + depth := by omega
    rw [hlimit]
    change operandWith (some (operand depth)) tokens = .error stop at hread
    unfold operandWith at hread
    split at hread
    · exact completable_parenthesizedWith (sound_operand depth) ih _ _ hread
    · exact completable_blockOperand (sound_operand depth) ih _ _ hread
    · exact completable_requireAtom (depth + 1) (1 + depth) _ _ hread

/-! ### Methods, classes and programs -/

theorem stop_of_heading_eq_error (h : heading tokens = .error stop) :
    stop = ⟨.expected "method selector", tokens⟩ := by
  unfold heading at h
  split at h
  · cases h
  · split at h
    · cases h
    · exact (Except.error.inj h).symm

theorem completable_method : Completable method .method (1 + maxNesting) := by
  intro tokens stop hread
  rcases exists_of_bind_eq_error hread with hselector | ⟨selector, hselector, hread⟩
  · obtain rfl := stop_of_heading_eq_error hselector
    exact ⟨[], _, ⟨.name "missing", missingBlock⟩, rfl, rfl, Nat.zero_le _,
      atLimit_of_reason_ne nofun⟩
  obtain ⟨usedHead, heading, husedHead, hheadKinds, -⟩ := sound_heading hselector
  rcases exists_of_bind_eq_error hread with hbody | ⟨body, -, hread⟩
  · obtain ⟨usedBody, more, tree, husedBody, hkinds, hfits, hlimit⟩ :=
      completable_blockWith (sound_operand maxNesting) (completable_operand maxNesting) _ _ hbody
    refine ⟨_, more, ⟨heading, tree⟩, eq_append_trans husedHead husedBody, ?_, hfits, ?_⟩
    · change heading.kinds ++ tree.kinds = _
      change tree.kinds = _ at hkinds
      rw [List.map_append, hheadKinds, hkinds, List.append_assoc]
    · have hfront := hlimit.append_left heading.kinds
      rwa [(balanced_heading heading).level, Int.zero_add, hheadKinds, ← List.map_append] at hfront
  · cases hread

/-- A class that breaks off in its heading is completed by the rest of one without methods. -/
theorem completed_of_kinds_eq_take {used rest : List Token} {what : String}
    (name : String) (parent : ClassName) (n : Nat) (hused : tokens = used ++ rest)
    (hkinds : used.map Token.kind = (ClassTree.mk name parent []).kinds.take n) :
    ∃ used, ∃ more, ∃ tree : ClassTree, tokens = used ++ rest ∧
      tree.kinds = used.map Token.kind ++ more ∧ Symbol.classDef.Fits tree ∧
      AtLimit ⟨.expected what, rest⟩ (1 + maxNesting) (used.map Token.kind) more :=
  ⟨used, (ClassTree.mk name parent []).kinds.drop n, ⟨name, parent, []⟩, hused,
    by rw [hkinds, List.take_append_drop], nofun, atLimit_of_reason_ne nofun⟩

theorem completable_classDef : Completable classDef .classDef (1 + maxNesting) := by
  intro tokens stop hread
  rcases exists_of_bind_eq_error hread with hword | ⟨word, hword, hread⟩
  · obtain rfl := stop_of_requireKind_eq_error hword
    exact completed_of_kinds_eq_take "Missing" (.own "Missing") 0 (List.nil_append tokens).symm rfl
  obtain ⟨wordToken, hwordToken, hwordKind⟩ := eq_append_of_requireKind_eq_ok hword
  rcases exists_of_bind_eq_error hread with hname | ⟨name, hname, hread⟩
  · obtain rfl := stop_of_require_eq_error hname
    exact completed_of_kinds_eq_take "Missing" (.own "Missing") 1 hwordToken
      (by simp [ClassTree.kinds, hwordKind])
  obtain ⟨nameToken, hnameToken, hnameKind⟩ := eq_append_of_require_eq_ok hname
  rw [ownClass?_eq_some_iff] at hnameKind
  rcases exists_of_bind_eq_error hread with hcolon | ⟨colon, hcolon, hread⟩
  · obtain rfl := stop_of_requireKind_eq_error hcolon
    exact completed_of_kinds_eq_take name.value.name (.own "Missing") 2
      (eq_append_trans hwordToken hnameToken) (by simp [ClassTree.kinds, hwordKind, hnameKind])
  obtain ⟨colonToken, hcolonToken, hcolonKind⟩ := eq_append_of_requireKind_eq_ok hcolon
  rcases exists_of_bind_eq_error hread with hparent | ⟨parent, hparent, hread⟩
  · obtain rfl := stop_of_require_eq_error hparent
    exact completed_of_kinds_eq_take name.value.name (.own "Missing") 3
      (eq_append_trans hwordToken (eq_append_trans hnameToken hcolonToken))
      (by simp [ClassTree.kinds, hwordKind, hnameKind, hcolonKind])
  obtain ⟨parentToken, hparentToken, hparentKind⟩ := eq_append_of_require_eq_ok hparent
  obtain ⟨which, hwhichKind, -⟩ := exists_className_of_anyClass?_eq_some hparentKind
  have hheader := eq_append_trans hwordToken
    (eq_append_trans hnameToken (eq_append_trans hcolonToken hparentToken))
  rcases exists_of_bind_eq_error hread with hleft | ⟨left, hleft, hread⟩
  · obtain rfl := stop_of_requireKind_eq_error hleft
    exact completed_of_kinds_eq_take name.value.name which 4 hheader
      (by simp [ClassTree.kinds, hwordKind, hnameKind, hcolonKind, hwhichKind])
  obtain ⟨leftToken, hleftToken, hleftKind⟩ := eq_append_of_requireKind_eq_ok hleft
  rcases exists_of_bind_eq_error hread with hmethods | ⟨methods, -, hread⟩
  · obtain ⟨used, more, trees, hused, hkinds, hfits, hlimit⟩ :=
      completable_manyThen sound_method (fun tree ↦ (balanced_method tree).level)
        completable_method hmethods
    refine ⟨_, more, ⟨name.value.name, which, trees⟩,
      eq_append_trans hheader (eq_append_trans hleftToken hused), ?_, hfits, ?_⟩
    · change ClassTree.kinds _ = _
      change trees.flatMap MethodTree.kinds ++ _ = _ at hkinds
      simp [ClassTree.kinds, hwordKind, hnameKind, hcolonKind, hwhichKind, hleftKind, hkinds]
    · have hfront := hlimit.append_left [.keyword .classWord, .classIdent name.value.name,
        .mark .colon, which.kind, .mark .leftBrace]
      have hlevel : level [.keyword .classWord, .classIdent name.value.name, .mark .colon,
          which.kind, .mark .leftBrace] = 0 := by cases which <;> rfl
      rw [hlevel, Int.zero_add] at hfront
      simpa [hwordKind, hnameKind, hcolonKind, hwhichKind, hleftKind] using hfront
  · cases hread

/-- The kinds of what has been read when the classes stop begin those of some program. -/
theorem completable_classes (h : classes tokens = .error stop) :
    ∃ used, ∃ more, ∃ program, tokens = used ++ stop.rest ∧
      Derives maxNesting (used.map Token.kind ++ more) program ∧
      AtLimit stop (1 + maxNesting) (used.map Token.kind) more := by
  induction hlength : tokens.length using Nat.strongRecOn generalizing tokens with
  | _ length ih =>
    obtain ⟨-, hfirst | ⟨first, hfirst, hothers⟩⟩ := exists_of_classes_eq_error h
    · obtain ⟨used, more, tree, hused, hkinds, hfits, hlimit⟩ := completable_classDef _ _ hfirst
      refine ⟨used, more, _, hused, ⟨⟨[tree]⟩, ?_,
        List.forall_mem_singleton.mpr hfits, rfl⟩, hlimit⟩
      change tree.kinds = _ at hkinds
      simpa [ProgramTree.kinds] using hkinds
    · obtain ⟨used, tree, hused, hkinds, hfits, -⟩ := sound_classDef _ _ hfirst
      change tree.kinds = _ at hkinds
      obtain ⟨usedMore, more, -, husedMore, ⟨⟨trees⟩, hkindsMore, hfitsMore, -⟩, hlimit⟩ :=
        ih _ (hlength ▸ first.shorter) hothers rfl
      refine ⟨used ++ usedMore, more, _, eq_append_trans hused husedMore,
        ⟨⟨tree :: trees⟩, ?_, List.forall_mem_cons.mpr ⟨hfits, hfitsMore⟩, rfl⟩, ?_⟩
      · change tree.kinds ++ ProgramTree.kinds ⟨trees⟩ = _
        rw [hkindsMore, hkinds, List.map_append, List.append_assoc]
      · have hfront := hlimit.append_left (used.map Token.kind)
        rwa [← hkinds, (balanced_class tree).level, Int.zero_add, hkinds,
          ← List.map_append] at hfront

end Reading

end Sol25
