import Sol25.Program.Session
import Sol25.Proofs.Grammar.Lookahead
import Sol25.Proofs.Moved

/-!
# Reading goes by kinds alone

If tokens stand in other places and more tokens come behind them (`displaced`), whatever a reader
reads from them is what it read before, moved along, and what is left is displaced in the same way
(`Displaces`). No offset may overtake another, since a span that is merged from two has to be the
one that is merged from them in their new places. A reader whose last token is fixed does not care
what comes behind it. A message may go on with whatever is left, so an expression has to have
something left behind it that has ended it (`DisplacesInside`).

From the readers this passes to whole programs and to sessions: all classes are read again in front
of those that come behind them (`classes_displaced`), the classes of moved tokens are the moved
classes and what stops the reading stops it at the moved place (`classes_moved`), and a session that
is moved does what it did, in the new place (`Session.next_moved`).
-/

set_option autoImplicit false
set_option relaxedAutoImplicit false

namespace Sol25.Reading

open Token (Kind)

variable {α β : Type} {move : Nat → Nat} {more tokens : List Token} {place : α → α}

/-- The tokens in other places, with more tokens behind them. -/
def displaced (move : Nat → Nat) (more tokens : List Token) : List Token :=
  tokens.map (Token.moved move) ++ more

theorem length_displaced_lt {rest : List Token} (h : rest.length < tokens.length) :
    (displaced move more rest).length < (displaced move more tokens).length := by
  simp only [displaced, List.length_append, List.length_map]
  omega

/-- What was read, where the tokens stand now. -/
def Read.displaced (place : α → α) (read : Read α tokens) :
    Read α (Reading.displaced move more tokens) :=
  ⟨place read.value, Reading.displaced move more read.rest, read.first.moved move,
    read.last.moved move, length_displaced_lt read.shorter⟩

theorem Read.eq_of_value_eq {read other : Read α tokens} (hvalue : read.value = other.value)
    (hrest : read.rest = other.rest) (hfirst : read.first = other.first)
    (hlast : read.last = other.last) : read = other := by
  obtain ⟨value, rest, first, last, shorter⟩ := read
  subst hvalue hrest hfirst hlast
  rfl

variable (move more)

/-- Whatever is read is read from the displaced tokens as well. -/
def Displaces (reader : Reader α) (place : α → α) : Prop :=
  ∀ tokens read, reader tokens = .ok read →
    reader (displaced move more tokens) = .ok (read.displaced place)

/-- Whatever is read in front of some other token is read from the displaced tokens as well. -/
def DisplacesInside (reader : Reader α) (place : α → α) : Prop :=
  ∀ tokens read, reader tokens = .ok read → read.rest ≠ [] →
    reader (displaced move more tokens) = .ok (read.displaced place)

/-- A test goes by kinds, and it makes of a moved token what it made of the token, moved. -/
def Carries (value? : Token → Option α) (place : α → α) : Prop :=
  ∀ token : Token, value? (token.moved move) = (value? token).map place

variable {move more}

/-! ### Single tokens -/

theorem carries_isKind (kind : Kind) : Carries move (isKind kind) id := by
  intro token
  rw [Option.map_id]
  rfl

theorem carries_name? : Carries move name? (Ident.moved move) := by
  rintro ⟨kind, span⟩
  cases kind <;> rfl

theorem carries_ownClass? : Carries move ownClass? (Ident.moved move) := by
  rintro ⟨kind, span⟩
  cases kind <;> rfl

theorem carries_anyClass? : Carries move anyClass? (Ident.moved move) := by
  rintro ⟨kind, span⟩
  cases kind <;> rfl

theorem carries_part? : Carries move part? id := by
  rintro ⟨kind, span⟩
  cases kind <;> rfl

theorem carries_atom? : Carries move atom? (Expr.moved move) := by
  rintro ⟨kind, span⟩
  cases kind with
  | keyword word => cases word <;> rfl
  | _ => rfl

theorem next?_displaced {value? : Token → Option α} (h : Carries move value? place)
    (hne : tokens ≠ []) :
    next? value? (displaced move more tokens) = (next? value? tokens).map (·.displaced place) := by
  obtain ⟨token, rest, rfl⟩ := List.exists_cons_of_ne_nil hne
  change (value? (token.moved move)).map _ = _
  rw [h, next?]
  cases value? token <;> rfl

theorem next?_rest_displaced {value? : Token → Option α} (h : Carries move value? place)
    (read : Read β tokens) (placeRead : β → β) (hne : read.rest ≠ []) :
    next? value? (read.displaced placeRead : Read β (displaced move more tokens)).rest =
      (next? value? read.rest).map (·.displaced place) :=
  next?_displaced h hne

theorem displaces_require {value? : Token → Option α} (what : String)
    (h : Carries move value? place) : Displaces move more (require what value?) place := by
  intro tokens read hread
  rw [require] at hread ⊢
  rw [next?_displaced h read.ne_nil]
  cases hnext : next? value? tokens with
  | none =>
    rw [hnext] at hread
    cases hread
  | some found =>
    rw [hnext] at hread
    cases hread
    rfl

theorem displaces_requireKind (kind : Kind) : Displaces move more (requireKind kind) id :=
  displaces_require kind.display (carries_isKind kind)

/-! ### Repetitions -/

theorem displaces_manyThen {close : Mark} {item : Reader α} (h : Displaces move more item place) :
    Displaces move more (manyThen close item) (List.map place) := by
  intro tokens read hread
  induction hlength : tokens.length using Nat.strongRecOn generalizing tokens with
  | _ length ih =>
    rw [manyThen] at hread ⊢
    rw [next?_displaced (carries_isKind _) read.ne_nil]
    cases hnext : next? (isKind (.mark close)) tokens with
    | some closing =>
      rw [hnext] at hread
      cases hread
      rfl
    | none =>
      rw [hnext] at hread
      obtain ⟨first, hfirst, hread⟩ := exists_of_bind_eq_ok hread
      obtain ⟨others, hothers, hread⟩ := exists_of_bind_eq_ok hread
      cases hread
      exact bind_eq_ok (h _ _ hfirst)
        (bind_eq_ok (ih _ (hlength ▸ first.shorter) _ _ hothers rfl) rfl)

theorem displaces_params : Displaces move more params (List.map (Ident.moved move)) := by
  intro tokens read hread
  induction hlength : tokens.length using Nat.strongRecOn generalizing tokens with
  | _ length ih =>
    rw [params] at hread ⊢
    rw [next?_displaced (carries_isKind _) read.ne_nil]
    cases hnext : next? (isKind (.mark .colon)) tokens with
    | some colon =>
      rw [hnext] at hread
      obtain ⟨param, hparam, hread⟩ := exists_of_bind_eq_ok hread
      obtain ⟨others, hothers, hread⟩ := exists_of_bind_eq_ok hread
      cases hread
      have hshorter := Nat.lt_trans param.shorter colon.shorter
      exact bind_eq_ok (displaces_require _ carries_name? _ _ hparam)
        (bind_eq_ok (ih _ (hlength ▸ hshorter) _ _ hothers rfl) rfl)
    | none =>
      rw [hnext] at hread
      obtain ⟨bar, hbar, hread⟩ := exists_of_bind_eq_ok hread
      cases hread
      exact bind_eq_ok (displaces_requireKind _ _ _ hbar) rfl

/-! ### Operands and what is made of them -/

theorem displaces_assignmentWith {expression : Reader Expr}
    (h : DisplacesInside move more expression (Expr.moved move)) :
    Displaces move more (assignmentWith expression) (Assignment.moved move) := by
  intro tokens read hread
  obtain ⟨target, htarget, hread⟩ := exists_of_bind_eq_ok hread
  obtain ⟨sign, hsign, hread⟩ := exists_of_bind_eq_ok hread
  obtain ⟨value, hvalue, hread⟩ := exists_of_bind_eq_ok hread
  obtain ⟨dot, hdot, hread⟩ := exists_of_bind_eq_ok hread
  cases hread
  exact bind_eq_ok (displaces_require _ carries_name? _ _ htarget)
    (bind_eq_ok (displaces_requireKind _ _ _ hsign)
      (bind_eq_ok (h _ _ hvalue dot.ne_nil)
        (bind_eq_ok (displaces_requireKind _ _ _ hdot) rfl)))

theorem displacesInside_argumentsWith {operand : Reader Expr}
    (h : Displaces move more operand (Expr.moved move)) (part : String) :
    DisplacesInside move more (argumentsWith operand part)
      (Prod.map id (List.map (Expr.moved move))) := by
  intro tokens read hread hrest
  induction hlength : tokens.length using Nat.strongRecOn generalizing tokens part with
  | _ length ih =>
    rw [argumentsWith] at hread ⊢
    obtain ⟨argument, hargument, hread⟩ := exists_of_bind_eq_ok hread
    refine bind_eq_ok (h _ _ hargument) ?_
    cases hnext : next? part? argument.rest with
    | none =>
      rw [hnext] at hread
      cases hread
      rw [next?_rest_displaced carries_part? argument _ hrest, hnext]
      rfl
    | some next =>
      rw [hnext] at hread
      obtain ⟨others, hothers, hread⟩ := exists_of_bind_eq_ok hread
      cases hread
      rw [next?_rest_displaced carries_part? argument _ next.ne_nil, hnext]
      have hshorter := Nat.lt_trans next.shorter argument.shorter
      exact bind_eq_ok (ih _ (hlength ▸ hshorter) _ _ _ hothers hrest rfl) rfl

theorem displacesInside_expressionWith (hmove : Monotone move) {operand : Reader Expr}
    (h : Displaces move more operand (Expr.moved move)) :
    DisplacesInside move more (expressionWith operand) (Expr.moved move) := by
  have hmerge (receiver : Expr) (last : Span) : (receiver.span.merge last).moved move =
      (receiver.moved move).span.merge (last.moved move) := by
    rw [Span.moved_merge hmove, Expr.span_moved]
  intro tokens read hread hrest
  obtain ⟨receiver, hreceiver, hread⟩ := exists_of_bind_eq_ok hread
  refine bind_eq_ok (h _ _ hreceiver) ?_
  cases hname : next? name? receiver.rest with
  | some selector =>
    rw [hname] at hread
    cases hread
    rw [next?_rest_displaced carries_name? receiver _ selector.ne_nil, hname]
    refine congrArg Except.ok (Read.eq_of_value_eq ?_ rfl rfl rfl)
    change Expr.send _ _ [] _ = Expr.moved move (.send _ _ [] _)
    rw [Expr.moved, hmerge]
    rfl
  | none =>
    rw [hname] at hread
    cases hpart : next? part? receiver.rest with
    | some part =>
      rw [hpart] at hread
      obtain ⟨message, hmessage, hread⟩ := exists_of_bind_eq_ok hread
      cases hread
      rw [next?_rest_displaced carries_name? receiver _ part.ne_nil, hname,
        next?_rest_displaced carries_part? receiver _ part.ne_nil, hpart]
      refine bind_eq_ok (displacesInside_argumentsWith h _ _ _ hmessage hrest)
        (congrArg Except.ok (Read.eq_of_value_eq ?_ rfl rfl rfl))
      change Expr.send _ _ _ _ = Expr.moved move (.send _ _ _ _)
      rw [Expr.moved, hmerge, Expr.movedAll_eq_map]
      rfl
    | none =>
      rw [hpart] at hread
      cases hread
      rw [next?_rest_displaced carries_name? read _ hrest, hname,
        next?_rest_displaced carries_part? read _ hrest, hpart]
      rfl

theorem displaces_blockWith (hmove : Monotone move) {operand : Reader Expr}
    (h : Displaces move more operand (Expr.moved move)) :
    Displaces move more (blockWith operand) (Block.moved move) := by
  intro tokens read hread
  obtain ⟨left, hleft, hread⟩ := exists_of_bind_eq_ok hread
  obtain ⟨names, hnames, hread⟩ := exists_of_bind_eq_ok hread
  obtain ⟨body, hbody, hread⟩ := exists_of_bind_eq_ok hread
  cases hread
  have hassignment := displaces_assignmentWith (displacesInside_expressionWith hmove h)
  refine bind_eq_ok (displaces_requireKind _ _ _ hleft)
    (bind_eq_ok (displaces_params _ _ hnames)
      (bind_eq_ok (displaces_manyThen hassignment _ _ hbody)
        (congrArg Except.ok (Read.eq_of_value_eq ?_ rfl rfl rfl))))
  change Block.mk _ _ _ = Block.moved move ⟨_, _, _⟩
  rw [Block.moved, Span.moved_merge hmove, Assignment.movedAll_eq_map]
  rfl

theorem displaces_parenthesizedWith (hmove : Monotone move) {operand : Reader Expr}
    (h : Displaces move more operand (Expr.moved move)) :
    Displaces move more (parenthesizedWith operand) (Expr.moved move) := by
  intro tokens read hread
  obtain ⟨left, hleft, hread⟩ := exists_of_bind_eq_ok hread
  obtain ⟨value, hvalue, hread⟩ := exists_of_bind_eq_ok hread
  obtain ⟨right, hright, hread⟩ := exists_of_bind_eq_ok hread
  cases hread
  exact bind_eq_ok (displaces_requireKind _ _ _ hleft)
    (bind_eq_ok (displacesInside_expressionWith hmove h _ _ hvalue right.ne_nil)
      (bind_eq_ok (displaces_requireKind _ _ _ hright) rfl))

theorem displaces_operandWith (hmove : Monotone move) {inner? : Option (Reader Expr)}
    (h : ∀ inner ∈ inner?, Displaces move more inner (Expr.moved move)) :
    Displaces move more (operandWith inner?) (Expr.moved move) := by
  intro tokens read hread
  obtain ⟨token, rest, rfl⟩ := List.exists_cons_of_ne_nil read.ne_nil
  have hhead : (displaced move more (token :: rest)).head?.map Token.kind =
      (token :: rest).head?.map Token.kind := rfl
  unfold operandWith at hread ⊢
  rw [hhead]
  split at hread
  · split at hread
    · exact displaces_parenthesizedWith hmove (h _ rfl) _ _ hread
    · cases hread
  · split at hread
    · obtain ⟨content, hblock, rfl⟩ := exists_of_map_eq_ok hread
      rw [displaces_blockWith hmove (h _ rfl) _ _ hblock]
      rfl
    · cases hread
  · exact displaces_require _ carries_atom? _ _ hread

theorem displaces_operand (hmove : Monotone move) (depth : Nat) :
    Displaces move more (operand depth) (Expr.moved move) := by
  induction depth with
  | zero => exact displaces_operandWith hmove nofun
  | succ depth ih =>
    exact displaces_operandWith hmove fun inner hinner ↦ Option.some.inj hinner ▸ ih

/-! ### Methods, classes and programs -/

theorem parts?_displaced {read : Read (List String) tokens} (h : parts? tokens = some read)
    (hrest : read.rest ≠ []) :
    parts? (displaced move more tokens) = some (read.displaced id) := by
  induction tokens with
  | nil => cases h
  | cons token rest ih =>
    have hpart : part? (token.moved move) = part? token := by rw [carries_part?, Option.map_id]; rfl
    change parts? (token.moved move :: displaced move more rest) = _
    unfold parts? at h ⊢
    rw [hpart]
    cases hvalue : part? token with
    | none =>
      rw [hvalue] at h
      cases h
    | some part =>
      rw [hvalue] at h
      cases hothers : parts? rest with
      | none =>
        rw [hothers] at h
        cases h
        change rest ≠ [] at hrest
        have hnone : next? part? (displaced move more rest) = none := by
          rw [next?_displaced carries_part? hrest, parts?_eq_none_iff.mp hothers, Option.map_none]
        rw [parts?_eq_none_iff.mpr hnone]
        rfl
      | some others =>
        rw [hothers] at h
        cases h
        rw [ih hothers hrest]
        rfl

theorem displacesInside_heading : DisplacesInside move more heading id := by
  intro tokens read hread hrest
  unfold heading at hread ⊢
  rw [next?_displaced carries_name? read.ne_nil]
  cases hname : next? name? tokens with
  | some name =>
    rw [hname] at hread
    cases hread
    rfl
  | none =>
    rw [hname] at hread
    cases hparts : parts? tokens with
    | some parts =>
      rw [hparts] at hread
      cases hread
      rw [parts?_displaced hparts hrest]
      rfl
    | none =>
      rw [hparts] at hread
      cases hread

theorem displaces_method (hmove : Monotone move) :
    Displaces move more method (Method.moved move) := by
  intro tokens read hread
  obtain ⟨selector, hselector, hread⟩ := exists_of_bind_eq_ok hread
  obtain ⟨body, hbody, hread⟩ := exists_of_bind_eq_ok hread
  cases hread
  refine bind_eq_ok (displacesInside_heading _ _ hselector body.ne_nil)
    (bind_eq_ok (displaces_blockWith hmove (displaces_operand hmove _) _ _ hbody)
      (congrArg Except.ok (Read.eq_of_value_eq ?_ rfl rfl rfl)))
  change Method.mk _ _ _ _ = Method.moved move ⟨_, _, _, _⟩
  rw [Method.moved, Span.moved_merge hmove]
  rfl

theorem displaces_classDef (hmove : Monotone move) :
    Displaces move more classDef (ClassDef.moved move) := by
  intro tokens read hread
  obtain ⟨word, hword, hread⟩ := exists_of_bind_eq_ok hread
  obtain ⟨name, hname, hread⟩ := exists_of_bind_eq_ok hread
  obtain ⟨colon, hcolon, hread⟩ := exists_of_bind_eq_ok hread
  obtain ⟨parent, hparent, hread⟩ := exists_of_bind_eq_ok hread
  obtain ⟨left, hleft, hread⟩ := exists_of_bind_eq_ok hread
  obtain ⟨methods, hmethods, hread⟩ := exists_of_bind_eq_ok hread
  cases hread
  exact bind_eq_ok (displaces_requireKind _ _ _ hword)
    (bind_eq_ok (displaces_require _ carries_ownClass? _ _ hname)
      (bind_eq_ok (displaces_requireKind _ _ _ hcolon)
        (bind_eq_ok (displaces_require _ carries_anyClass? _ _ hparent)
          (bind_eq_ok (displaces_requireKind _ _ _ hleft)
            (bind_eq_ok (displaces_manyThen (displaces_method hmove) _ _ hmethods) rfl)))))

/-- Classes are read again in front of whatever comes behind them, and then that is read. -/
theorem classes_displaced (hmove : Monotone move) {declared : List ClassDef}
    (h : classes tokens = .ok declared) :
    classes (displaced move more tokens) =
      (classes more).map (declared.map (ClassDef.moved move) ++ ·) := by
  induction hlength : tokens.length using Nat.strongRecOn generalizing tokens declared with
  | _ length ih =>
    cases tokens with
    | nil =>
      rw [classes] at h
      cases h
      change classes more = _
      cases classes more <;> rfl
    | cons token rest =>
      rw [classes] at h
      obtain ⟨first, hfirst, h⟩ := exists_of_bind_eq_ok h
      obtain ⟨others, hothers, h⟩ := exists_of_bind_eq_ok h
      cases h
      rw [classes_of_classDef_eq_ok (displaces_classDef hmove _ _ hfirst)]
      change (classes (displaced move more first.rest)).map _ = _
      rw [ih _ (hlength ▸ first.shorter) hothers rfl]
      cases classes more <;> rfl

/-- Where the reading stops when the tokens stand in other places. -/
def Stop.moved (move : Nat → Nat) (stop : Stop) : Stop :=
  ⟨stop.reason, stop.rest.map (Token.moved move)⟩

theorem map_kind_map_moved (tokens : List Token) :
    (tokens.map (Token.moved move)).map Token.kind = tokens.map Token.kind :=
  List.map_map

/-- The classes of moved tokens are the moved classes, or the reading stops where it has been moved
to. -/
theorem classes_moved (hmove : Monotone move) (tokens : List Token) :
    classes (tokens.map (Token.moved move)) =
      ((classes tokens).map (List.map (ClassDef.moved move))).mapError (Stop.moved move) := by
  cases h : classes tokens with
  | ok declared =>
    have hmoved : classes (displaced move [] tokens) = _ := classes_displaced hmove h
    rw [displaced, List.append_nil, classes] at hmoved
    rw [hmoved]
    exact congrArg Except.ok (List.append_nil _)
  | error stop =>
    obtain ⟨used, rfl⟩ := suffix_of_classes_eq_error h
    have hunnoticed :
        Unnoticed (some stop.reason) stop.rest (stop.rest.map (Token.moved move)) := by
      refine .inl ?_
      rw [nextKind?, nextKind?, List.head?_map, Option.map_map]
      rfl
    rw [List.map_append]
    exact classes_eq_error_of_unnoticed (map_kind_map_moved used).symm hunnoticed h

end Sol25.Reading

namespace Sol25.Session

variable {move : Nat → Nat}

/-- The session in front of the same tokens in other places. -/
def moved (move : Nat → Nat) (session : Session) : Session :=
  ⟨session.ahead.map (Token.moved move), session.finish.moved move, session.description?⟩

theorem nextToken_moved (session : Session) :
    (session.moved move).nextToken = session.nextToken.moved move := by
  obtain ⟨ahead, finish, description?⟩ := session
  cases ahead <;> rfl

theorem fault_moved (move : Nat → Nat) (session : Session) (reason : Reading.Reason) :
    (session.moved move).fault reason = (session.fault reason).moved move := by
  cases reason with
  | expected what =>
    rw [fault, fault, nextToken_moved]
    rfl
  | tooDeep =>
    rw [fault, fault, nextToken_moved]
    rfl

/-- What comes of reading, in other places. -/
def movedOutcome (move : Nat → Nat) (outcome : Except Fault Program) : Except Fault Program :=
  (outcome.map (Program.moved move)).mapError (Fault.moved move)

/-- A moved session reads what it read before, moved, and is left as it was left before, moved. -/
theorem next_moved (hmove : Monotone move) (session : Session) :
    (session.moved move).next = (movedOutcome move session.next.1, session.next.2.moved move) := by
  have hclasses := Reading.classes_moved hmove session.ahead
  change Reading.classes (session.moved move).ahead = _ at hclasses
  rw [next, next, hclasses]
  cases Reading.classes session.ahead with
  | ok declared => rfl
  | error stop =>
    have hfault := fault_moved move { session with ahead := stop.rest } stop.reason
    exact Prod.ext (congrArg Except.error hfault) rfl

end Sol25.Session
