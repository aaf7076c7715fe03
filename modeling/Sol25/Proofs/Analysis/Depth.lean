import Sol25.Proofs.Analysis.Traced
import Sol25.Proofs.Analysis.Unwinding
import Sol25.Proofs.Grammar.Height

/-!
# How deep scopes get while a program is checked

When the checks of a program are over the scopes are as before, so how deep they have been in the
meantime cannot be seen from what is left. It is seen from the calls that the analysis makes
(`Traced`): all scopes that it has had are what the first of these calls lead to.

A check keeps within a depth if it leaves the scopes as deep as it finds them and its calls lead to
none that are deeper by more than this (`Keeps`). Keeping within a depth goes through sequences of
checks, and a scope of its own adds one (`Keeps.inScope`), so an expression is checked within as
many scopes as it has levels (`keeps_checkExpr`). The limit on nesting therefore bounds what comes
after the readers as well, the height of what they return and the scopes under which it is checked
(`Session.next_height_and_depth`). Both bounds are attained, by blocks inside one another
(`reaches_checkExpr_tower`).
-/

set_option autoImplicit false
set_option relaxedAutoImplicit false

namespace Sol25

open Grammar (placelessIdent)

/-! ### The depth of scopes -/

namespace Scopes

theorem depth_enter (scopes : Scopes) : scopes.enter.depth = scopes.depth + 1 :=
  Array.size_push _

theorem depth_exit {scopes : Scopes} (h : 1 < scopes.depth) :
    scopes.exit.depth = scopes.depth - 1 := by
  have hsize : 1 < scopes.frames.size := h
  rw [exit, if_pos hsize]
  exact Array.size_pop

theorem depth_bind (scopes : Scopes) (name : String) (binding : Binding) :
    (scopes.bind name binding).depth = scopes.depth :=
  Array.size_modify

theorem depth_defineParam (param : Ident) (scopes : Scopes) :
    (defineParam param scopes).2.depth = scopes.depth := by
  rw [defineParam]
  split
  · rfl
  · exact depth_bind _ _ _

theorem depth_defineTarget (target : Ident) (scopes : Scopes) :
    (defineTarget target scopes).2.depth = scopes.depth := by
  rw [defineTarget]
  split
  · rfl
  · exact depth_bind _ _ _

/-- In a scope that has just been opened every target can be bound. -/
theorem defineTarget_enter (target : Ident) (scopes : Scopes) :
    (defineTarget target scopes.enter).1 = none := by
  have hnew : scopes.enter.currentNames.get? target.name = none := by
    simp [currentNames, enter, Table.get?, Table.empty]
  simp [defineTarget, hnew]

/-- There is always a scope, whatever calls have been made since there was only the outermost. -/
theorem depth_afterAll_pos (calls : List Call) : 0 < (outermost.afterAll calls).depth := by
  rw [(refines_outermost.afterAll calls).arranges.depth]
  exact Nat.succ_pos _

end Scopes

namespace Traced

variable {origin : Scopes} {bound height : Nat} {before after : Traced origin}

/-- At no time have the scopes been deeper than this. -/
def Under (bound : Nat) (traced : Traced origin) : Prop :=
  ∀ made, made <+: traced.calls → (origin.afterAll made).depth ≤ bound

/-- At some time the scopes have been as deep as this. -/
def Reached (height : Nat) (traced : Traced origin) : Prop :=
  ∃ made, made <+: traced.calls ∧ (origin.afterAll made).depth = height

theorem under_start (h : origin.depth ≤ bound) : (start origin).Under bound := by
  intro made hmade
  obtain rfl := List.prefix_nil.mp hmade
  exact h

theorem Under.call (h : before.Under bound) {call : Scopes.Call}
    (hdepth : (before.call call).scopes.depth ≤ bound) : (before.call call).Under bound := by
  intro made hmade
  rcases List.prefix_concat_iff.mp hmade with rfl | hearlier
  · exact hdepth
  · exact h made hearlier

theorem Reached.mono (h : before.Reached height) (hcalls : before.calls <+: after.calls) :
    after.Reached height := by
  obtain ⟨made, hmade, hdepth⟩ := h
  exact ⟨made, hmade.trans hcalls, hdepth⟩

theorem calls_prefix_call (traced : Traced origin) (call : Scopes.Call) :
    traced.calls <+: (traced.call call).calls :=
  List.prefix_append _ _

theorem depth_enter (traced : Traced origin) :
    (traced.call .enter).scopes.depth = traced.scopes.depth + 1 := by
  rw [scopes_call]
  exact Scopes.depth_enter _

end Traced

namespace Analysis

open Check (restores_demand yields_pass)

variable {origin : Scopes} {registry : Registry} {depth greater height : Nat}
  {before middle after : Traced origin} {check former latter : Check (Traced origin)}

/-! ### Checks that keep within a depth -/

/-- The scopes are as deep as before, and the calls that have been made on the way have led to none
that are deeper than before by more than this. -/
structure Within (depth : Nat) (before after : Traced origin) : Prop where
  same : after.scopes.depth = before.scopes.depth
  further : before.calls <+: after.calls
  under : ∀ bound, before.scopes.depth + depth ≤ bound → before.Under bound → after.Under bound

theorem Within.refl (depth : Nat) (traced : Traced origin) : Within depth traced traced :=
  ⟨rfl, List.prefix_rfl, fun _ _ hunder ↦ hunder⟩

theorem Within.trans (hformer : Within depth before middle) (hlatter : Within depth middle after) :
    Within depth before after := by
  refine ⟨hlatter.same.trans hformer.same, hformer.further.trans hlatter.further,
    fun bound hbound hunder ↦ ?_⟩
  exact hlatter.under bound (hformer.same ▸ hbound) (hformer.under bound hbound hunder)

theorem Within.mono (h : Within depth before after) (hle : depth ≤ greater) :
    Within greater before after :=
  ⟨h.same, h.further, fun bound hbound ↦ h.under bound (by omega)⟩

/-- A call that neither opens a scope nor leaves one. -/
theorem within_call (depth : Nat) {call : Scopes.Call}
    (h : (before.scopes.perform call).2.depth = before.scopes.depth) :
    Within depth before (before.call call) := by
  have hsame : (before.call call).scopes.depth = before.scopes.depth := by
    rw [Traced.scopes_call, h]
  exact ⟨hsame, before.calls_prefix_call call, fun bound hbound hunder ↦ hunder.call (by omega)⟩

/-- Wherever the outermost scope is there, the check keeps within this depth. -/
def Keeps (depth : Nat) (check : Check (Traced origin)) : Prop :=
  ∀ before, 0 < before.scopes.depth → check.Yields before fun _ ↦ Within depth before

theorem Keeps.mono (h : Keeps depth check) (hle : depth ≤ greater) : Keeps greater check :=
  fun before hpos ↦ (h before hpos).mono fun _ _ hafter ↦ hafter.mono hle

theorem keeps_of_restores (depth : Nat) (h : ∀ traced, check.Restores traced) :
    Keeps depth check :=
  fun before _ ↦ (h before).mono fun _ _ hleft ↦ hleft ▸ Within.refl depth before

theorem keeps_pass (depth : Nat) : Keeps depth (Check.pass : Check (Traced origin)) :=
  keeps_of_restores depth fun _ ↦ Check.restores_pass

theorem keeps_defineParam (depth : Nat) (param : Ident) :
    Keeps depth (Scoping.defineParam param : Check (Traced origin)) :=
  fun before _ ↦ within_call depth (Scopes.depth_defineParam param before.scopes)

theorem keeps_checkTarget (depth : Nat) (target : Ident) :
    Keeps depth (checkTarget target : Check (Traced origin)) := by
  rw [checkTarget]
  split
  · exact keeps_pass depth
  · exact fun before _ ↦ within_call depth (Scopes.depth_defineTarget target before.scopes)

theorem Keeps.andThen (hformer : Keeps depth former) (hlatter : Keeps depth latter) :
    Keeps depth (former.andThen latter) := by
  intro before hpos
  refine (hformer before hpos).andThen (fun middle hmiddle ↦ ?_) fun _ _ hstopped ↦ hstopped
  exact (hlatter middle (hmiddle.same ▸ hpos)).mono fun _ _ hafter ↦ hmiddle.trans hafter

theorem keeps_forEach {α : Type} {each : α → Check (Traced origin)} {items : List α}
    (h : ∀ item ∈ items, Keeps depth (each item)) : Keeps depth (Check.forEach items each) := by
  induction items with
  | nil => exact keeps_pass depth
  | cons item rest ih =>
    obtain ⟨hitem, hrest⟩ := List.forall_mem_cons.mp h
    exact hitem.andThen (ih hrest)

/-- Inside a scope of its own a check starts from one scope more. -/
theorem Keeps.inScope (h : Keeps depth check) : Keeps (depth + 1) (inScope check) := by
  intro before hpos
  have henter := before.depth_enter
  obtain ⟨hsame, hfurther, hunder⟩ := h (before.call .enter) (henter ▸ Nat.succ_pos _)
  change Within (depth + 1) before ((check (before.call .enter)).2.call .exit)
  generalize (check (before.call .enter)).2 = inner at hsame hfurther hunder
  -- Inside there are two scopes at least, so one of them is left.
  have hexit : (inner.call .exit).scopes.depth = before.scopes.depth := by
    have hleft : inner.scopes.exit.depth = inner.scopes.depth - 1 :=
      Scopes.depth_exit (by omega)
    rw [Traced.scopes_call]
    change inner.scopes.exit.depth = before.scopes.depth
    omega
  refine ⟨hexit, ?_, fun bound hbound hbefore ↦ ?_⟩
  · exact ((before.calls_prefix_call .enter).trans hfurther).trans (inner.calls_prefix_call .exit)
  · have hentered : (before.call .enter).Under bound := hbefore.call (by omega)
    exact (hunder bound (by omega) hentered).call (by omega)

/-! ### How deep expressions and blocks get -/

theorem restores_checkLiteral (kind : LiteralKind) (value : String) (span : Span)
    (traced : Traced origin) : (checkExpr registry (.literal kind value span)).Restores traced := by
  cases kind with
  | className => exact restores_demand _ _ _
  | integer | string | nilValue | trueValue | falseValue => exact Check.restores_pass

mutual

/-- A block needs a scope of its own, and everything else as many as the deepest of its parts. -/
theorem keeps_checkExpr : ∀ expr : Expr,
    Keeps expr.levels (checkExpr registry expr : Check (Traced origin))
  | .literal kind value span => keeps_of_restores _ (restores_checkLiteral kind value span)
  | .var name span => by
    rw [checkExpr]
    exact keeps_of_restores _ fun _ ↦ restores_demand _ _ _
  | .send receiver selector args span => by
    rw [checkExpr, Expr.levels]
    exact ((keeps_checkExpr receiver).mono (by omega)).andThen
      (((keeps_checkArgs args).mono (Nat.le_max_right _ _)).andThen
        (keeps_of_restores _ (restores_checkMessage receiver selector span)))
  | .block content => by
    rw [checkExpr, Expr.levels]
    exact keeps_checkBlock content

theorem keeps_checkArgs : ∀ args : List Expr,
    Keeps (Expr.levelsOfArgs args) (checkArgs registry args : Check (Traced origin))
  | [] => by
    rw [checkArgs]
    exact keeps_pass _
  | arg :: rest => by
    rw [checkArgs, Expr.levelsOfArgs]
    exact ((keeps_checkExpr arg).mono (by omega)).andThen
      ((keeps_checkArgs rest).mono (Nat.le_max_right _ _))

theorem keeps_checkBlock : ∀ block : Block,
    Keeps (block.levels + 1) (checkBlock registry block : Check (Traced origin))
  | ⟨params, body, _⟩ => by
    rw [checkBlock, Block.levels]
    exact ((keeps_forEach fun param _ ↦ keeps_defineParam _ param).andThen
      (keeps_checkBody body)).inScope

theorem keeps_checkBody : ∀ body : List Assignment,
    Keeps (Assignment.levelsOfAll body) (checkBody registry body : Check (Traced origin))
  | [] => by
    rw [checkBody]
    exact keeps_pass _
  | ⟨target, value⟩ :: rest => by
    rw [checkBody, checkAssignment, Assignment.levelsOfAll, Assignment.levels]
    have hassignment : Keeps value.levels
        ((checkTarget target).andThen (checkExpr registry value) : Check (Traced origin)) :=
      (keeps_checkTarget _ target).andThen (keeps_checkExpr value)
    exact (hassignment.mono (Nat.le_max_left _ _)).andThen
      ((keeps_checkBody rest).mono (Nat.le_max_right _ _))

end

/-! ### Methods, classes and programs -/

theorem keeps_checkMethod {method : Method} (h : method.body.levels ≤ depth) :
    Keeps (depth + 1) (checkMethod registry method : Check (Traced origin)) :=
  (keeps_of_restores _ (restores_demand _ _)).andThen
    ((keeps_checkBlock method.body).mono (Nat.succ_le_succ h))

theorem keeps_checkClass {declared : ClassDef}
    (h : ∀ method ∈ declared.methods, method.body.levels ≤ depth) :
    Keeps (depth + 1) (checkClass registry declared : Check (Traced origin)) :=
  (keeps_of_restores _ (restores_demand _ _)).andThen
    ((keeps_of_restores _ (restores_checkSelectors declared)).andThen
      (keeps_forEach fun method hmethod ↦ keeps_checkMethod (h method hmethod)))

theorem keeps_checkClasses {classes : List ClassDef}
    (h : ∀ declared ∈ classes, ∀ method ∈ declared.methods, method.body.levels ≤ depth) :
    Keeps (depth + 1) (checkClasses registry classes : Check (Traced origin)) :=
  (keeps_forEach fun declared hdeclared ↦ keeps_checkClass (h declared hdeclared)).andThen
    (keeps_of_restores _ (restores_checkMain classes))

/-! ### How deep a tower gets -/

/-- Wherever the outermost scope is there, the check gets to scopes that are deeper by this. -/
def Reaches (depth : Nat) (check : Check (Traced origin)) : Prop :=
  ∀ before, 0 < before.scopes.depth →
    check.Yields before fun _ after ↦ after.Reached (before.scopes.depth + depth)

theorem Keeps.reaches_zero (h : Keeps depth check) : Reaches 0 check := by
  intro before hpos
  have hhere : before.Reached (before.scopes.depth + 0) := ⟨before.calls, List.prefix_rfl, rfl⟩
  exact (h before hpos).mono fun _ _ hafter ↦ hhere.mono hafter.further

theorem Reaches.andThen (h : Reaches depth former) (hlatter : ∀ traced, latter.Restores traced) :
    Reaches depth (former.andThen latter) := by
  intro before hpos
  refine (h before hpos).andThen (fun middle hreached ↦ ?_) fun _ _ hreached ↦ hreached
  exact (hlatter middle).mono fun _ _ hleft ↦ hleft ▸ hreached

theorem yields_checkTarget_enter (target : Ident) (before : Traced origin) :
    (checkTarget target).Yields (before.call .enter) fun fault? after ↦
      fault? = none ∧ after.scopes.depth = before.scopes.depth + 1 := by
  have hpos : 0 < (before.call .enter).scopes.depth := by
    rw [before.depth_enter]
    exact Nat.succ_pos _
  refine ⟨?_, (keeps_checkTarget 0 target _ hpos).same.trans before.depth_enter⟩
  rw [checkTarget]
  split
  · rfl
  · change (Scopes.defineTarget target (before.call .enter).scopes).1 = none
    rw [Traced.scopes_call]
    exact Scopes.defineTarget_enter target before.scopes

/-- A block that consists of one assignment gets deeper by one than the value that is assigned. -/
theorem Reaches.checkBlock {value : Expr}
    (h : Reaches depth (checkExpr registry value : Check (Traced origin))) (target : Ident)
    (span : Span) :
    Reaches (depth + 1)
      (checkBlock registry ⟨[], [⟨target, value⟩], span⟩ : Check (Traced origin)) := by
  intro before _
  have hassignment : (checkAssignment registry ⟨target, value⟩).Yields (before.call .enter)
      fun _ after ↦ after.Reached (before.scopes.depth + (depth + 1)) := by
    rw [checkAssignment]
    refine (yields_checkTarget_enter target before).andThen (fun bound hbound ↦ ?_)
      fun _ _ hstopped ↦ nomatch hstopped.1
    have hvalue := h bound (hbound.2 ▸ Nat.succ_pos _)
    rwa [hbound.2, Nat.add_assoc, Nat.add_comm 1 depth] at hvalue
  have hbody : (checkBody registry [⟨target, value⟩]).Yields (before.call .enter)
      fun _ after ↦ after.Reached (before.scopes.depth + (depth + 1)) := by
    rw [checkBody, checkBody]
    exact hassignment.andThen (fun _ hreached ↦ yields_pass hreached) fun _ _ hreached ↦ hreached
  rw [Analysis.checkBlock]
  exact hbody.mono fun _ inner hreached ↦ hreached.mono (inner.calls_prefix_call .exit)

/-- Every block of a tower is checked inside the one around it. -/
theorem reaches_checkExpr_tower (count : Nat) :
    Reaches count (checkExpr registry (tower count) : Check (Traced origin)) := by
  induction count with
  | zero => exact (keeps_checkExpr (tower 0)).reaches_zero
  | succ count ih =>
    have hblock := ih.checkBlock (placelessIdent "x") Span.nowhere
    rw [tower, checkExpr, checkExpr, checkArgs]
    exact hblock.andThen fun traced ↦
      Check.restores_pass.andThen (restores_checkMessage _ _ _ traced)

theorem reaches_checkClasses_towerProgram (hcircular : registry.isCircular mainClass = false)
    (count : Nat) :
    Reaches (count + 1)
      (checkClasses registry (towerProgram count).classes : Check (Traced origin)) := by
  have hbody : Reaches (count + 1)
      (checkBlock registry (towerBody count) : Check (Traced origin)) :=
    (reaches_checkExpr_tower count).checkBlock _ _
  have hmethod : Reaches (count + 1)
      (checkMethod registry (towerMethod count) : Check (Traced origin)) := hbody
  have hlineage : checkLineage registry (towerClass count) =
      (Check.pass : Check (Traced origin)) := by
    change Check.demand (!registry.isCircular mainClass) _ = _
    rw [hcircular]
    rfl
  have hclass : Reaches (count + 1)
      (checkClass registry (towerClass count) : Check (Traced origin)) := by
    rw [checkClass, hlineage]
    exact hmethod.andThen fun _ ↦ Check.restores_pass
  exact (hclass.andThen fun _ ↦ Check.restores_pass).andThen (restores_checkMain _)

end Analysis

namespace Analyzer

/-- No scopes that an analysis has had are deeper by more than a body has levels, and one for the
body itself. -/
theorem under_analyze_traced {program : Program} {analyzer : Analyzer} {depth : Nat}
    (hpos : 0 < analyzer.scopes.depth)
    (h : ∀ declared ∈ program.classes, ∀ method ∈ declared.methods, method.body.levels ≤ depth) :
    (analyzer.traced.analyze program).2.scopes.Under (analyzer.scopes.depth + (depth + 1)) := by
  have hstart : (Traced.start analyzer.scopes).Under (analyzer.scopes.depth + (depth + 1)) :=
    Traced.under_start (Nat.le_add_right _ _)
  rw [analyze]
  split
  · exact hstart
  · exact (Analysis.keeps_checkClasses h analyzer.traced.scopes hpos).under _ (Nat.le_refl _) hstart

/-- While a program with a tower is analyzed, the scopes get as deep as its body has levels, and
deeper by one. -/
theorem reached_analyze_traced :
    (fresh.traced.analyze (towerProgram Reading.maxNesting)).2.scopes.Reached
      (fresh.scopes.depth + (Reading.maxNesting + 1)) := by
  -- To enter the classes is to look at no body, so this is evaluated without the tower.
  obtain ⟨registry, hentered, hcircular⟩ : ∃ registry,
      Analysis.enterClasses (towerProgram Reading.maxNesting).classes fresh.traced.registry =
          (none, registry) ∧ registry.isCircular Analysis.mainClass = false :=
    ⟨_, Prod.ext (by decide +kernel) rfl, by decide +kernel⟩
  have hpos : 0 < fresh.traced.scopes.scopes.depth := by decide
  rw [analyze, hentered]
  exact Analysis.reaches_checkClasses_towerProgram hcircular _ fresh.traced.scopes hpos

end Analyzer

/-- In what is read no value is higher than 258. While it is analyzed, whatever classes are known
and whatever scopes are open, there are at most 129 scopes more than before: the analysis does over
calls, each of which stands for what is done with the scopes, what it does over scopes, and none of
the calls leads to more. Some tokens are read as a program in which a value is as high as that, and
for which a fresh analyzer opens as many scopes. -/
theorem Session.next_height_and_depth :
    (∀ tokens program, (ofTokens tokens).next.1 = .ok program →
      (∀ content, program.HasPart (.block content) →
        ∀ assignment ∈ content.body, assignment.value.height ≤ 258) ∧
      ∀ registry calls,
        let analyzer : Analyzer := ⟨registry, Scopes.outermost.afterAll calls⟩
        let traced := analyzer.traced.analyze program
        Scoping.Hom (Traced.scopes : Traced analyzer.scopes → Scopes) ∧
          analyzer.analyze program = (traced.1, traced.2.map Traced.scopes) ∧
          ∀ made, made <+: traced.2.scopes.calls →
            (analyzer.scopes.afterAll made).depth ≤ analyzer.scopes.depth + 129) ∧
    ∃ tokens program, (ofTokens tokens).next.1 = .ok program ∧
      (∃ declared ∈ program.classes, ∃ method ∈ declared.methods, ∃ assignment ∈ method.body.body,
        assignment.value.height = 258) ∧
      ∃ made, made <+: (Analyzer.fresh.traced.analyze program).2.scopes.calls ∧
        (Scopes.outermost.afterAll made).depth = Scopes.outermost.depth + 129 := by
  constructor
  · intro tokens program hread
    obtain ⟨hclasses, -⟩ := next_eq_ok_iff.mp hread
    refine ⟨fun content ↦ Reading.height_le_of_classes_eq_ok hclasses, fun registry calls ↦ ?_⟩
    have hlevels := Reading.levels_le_of_classes_eq_ok hclasses
    exact ⟨Traced.hom_scopes, Analyzer.analyze_eq_traced program _,
      Analyzer.under_analyze_traced (Scopes.depth_afterAll_pos calls) hlevels⟩
  · obtain ⟨tokens, hread⟩ := exists_next_eq_tower
    refine ⟨tokens, _, hread, ?_, Analyzer.reached_analyze_traced⟩
    exact ⟨_, List.mem_cons_self, _, List.mem_cons_self, _, List.mem_cons_self, height_tower 128⟩

end Sol25
