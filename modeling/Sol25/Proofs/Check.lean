import Sol25.Analysis.Check

/-!
# What a check finds

A check stops at the first fault, but what it looks for is best told as the list of all faults there
are. `Check.Finds` says that a check, made in some state, answers with the head of such a list and
leaves a state of some kind. The rules for the ways in which checks are put together
(`Finds.andThen`, `finds_forEach_foldl`) put the lists together in the same way. Most checks leave
the state as they find it, and `Check.Reports` is about these.

Where it does not matter which faults there are, only what is true on every way out, `Check.Yields`
says it of the answer and of the state together. What a loop of checks may break off with is then an
invariant of the loop (`yields_forEach`), and `Check.Restores` says that the state is the same
again.
-/

set_option autoImplicit false
set_option relaxedAutoImplicit false

namespace Sol25.Check

variable {σ α : Type}

/-- The check answers with the first of the faults, if there is one, and leaves such a state. -/
structure Finds (check : Check σ) (before : σ) (faults : List Fault) (after : σ → Prop) : Prop where
  fault : (check before).1 = faults.head?
  state : after (check before).2

variable {check former latter : Check σ} {before : σ} {faults others : List Fault}
  {middle after weaker : σ → Prop} {fault : Fault}

theorem Finds.mono (h : check.Finds before faults after)
    (hweaker : ∀ state, after state → weaker state) : check.Finds before faults weaker :=
  ⟨h.fault, hweaker _ h.state⟩

theorem finds_of_eq_pass {state : σ} (heq : check before = pass state) (h : after state) :
    check.Finds before [] after :=
  ⟨by rw [heq, pass, List.head?_nil], by rwa [heq]⟩

theorem finds_of_eq_fail {state : σ} (heq : check before = fail fault state) (h : after state) :
    check.Finds before [fault] after :=
  ⟨by rw [heq, fail, List.head?_cons], by rwa [heq]⟩

theorem finds_pass (h : after before) : pass.Finds before [] after :=
  finds_of_eq_pass rfl h

/-- The list of the fault alone, unless the condition holds. -/
def faultUnless (condition : Prop) [Decidable condition] (fault : Fault) : List Fault :=
  if condition then [] else [fault]

@[simp] theorem faultUnless_eq_nil_iff {condition : Prop} [Decidable condition] :
    faultUnless condition fault = [] ↔ condition := by
  by_cases h : condition <;> simp [faultUnless, h]

theorem forall_mem_faultUnless {P : Fault → Prop} {condition : Prop} [Decidable condition]
    (h : P fault) : ∀ other ∈ faultUnless condition fault, P other := by
  unfold faultUnless
  split
  · exact List.forall_mem_nil _
  · exact List.forall_mem_singleton.mpr h

/-- The latter check matters only where the former finds nothing. -/
theorem Finds.andThen (hformer : former.Finds before faults middle)
    (hlatter : faults = [] → ∀ state, middle state → latter.Finds state others after)
    (hstop : faults ≠ [] → ∀ state, middle state → after state) :
    (former.andThen latter).Finds before (faults ++ others) after := by
  obtain ⟨hfault, hmiddle⟩ := hformer
  cases hresult : former before with
  | mk fault? state =>
    rw [hresult] at hfault hmiddle
    cases faults with
    | nil =>
      obtain rfl : fault? = none := hfault
      have hthen : former.andThen latter before = latter state := by
        rw [Check.andThen, hresult]
      obtain ⟨hothers, hafter⟩ := hlatter rfl state hmiddle
      exact ⟨by rw [hthen, hothers, List.nil_append], by rwa [hthen]⟩
    | cons first rest =>
      obtain rfl : fault? = some first := hfault
      have hthen : former.andThen latter before = (some first, state) := by
        rw [Check.andThen, hresult]
      exact ⟨by rw [hthen, List.cons_append, List.head?_cons],
        by rw [hthen]; exact hstop (List.cons_ne_nil _ _) state hmiddle⟩

/-- If each check that finds nothing makes one step, then all of them together, if they find
nothing, make the steps one after the other. -/
theorem finds_forEach_foldl {items : List α} {each : α → Check σ} {faultsOf : α → List Fault}
    {step : σ → α → σ} {kept : σ → Prop}
    (heach : ∀ item ∈ items, ∀ state, kept state →
      (each item).Finds state (faultsOf item) fun next ↦
        faultsOf item = [] → next = step state item)
    (hstep : ∀ item state, kept state → kept (step state item)) (h : kept before) :
    (forEach items each).Finds before (items.flatMap faultsOf) fun last ↦
      items.flatMap faultsOf = [] → last = items.foldl step before := by
  induction items generalizing before with
  | nil => exact finds_pass fun _ ↦ rfl
  | cons item rest ih =>
    rw [List.flatMap_cons, List.append_eq_nil_iff]
    refine (heach item List.mem_cons_self before h).andThen (fun hnone state hstate ↦ ?_)
      fun hsome _ _ hboth ↦ absurd hboth.1 hsome
    obtain rfl := hstate hnone
    exact (ih (fun other hother ↦ heach other (List.mem_cons_of_mem _ hother))
      (hstep item before h)).mono fun last hlast hboth ↦ hlast hboth.2

/-! ### Checks that leave the state as it is -/

/-- The check answers with the first of the faults, if there is one, and leaves the state. -/
def Reports (check : Check σ) (faults : List Fault) (state : σ) : Prop :=
  check state = (faults.head?, state)

variable {state : σ}

theorem Reports.finds (h : check.Reports faults state) : check.Finds state faults (· = state) :=
  ⟨by rw [h], by rw [h]⟩

theorem Finds.reports (h : check.Finds state faults (· = state)) : check.Reports faults state :=
  Prod.ext h.fault h.state

theorem reports_pass : pass.Reports [] state := rfl

theorem reports_fail : (fail fault).Reports [fault] state := rfl

theorem reports_demand {condition : Prop} [Decidable condition] {holds : Bool}
    (h : holds ↔ condition) : (demand holds fault).Reports (faultUnless condition fault) state := by
  by_cases hcondition : condition
  · rw [faultUnless, if_pos hcondition, demand, if_pos (h.mpr hcondition)]
    exact reports_pass
  · rw [faultUnless, if_neg hcondition, demand, if_neg fun hholds ↦ hcondition (h.mp hholds)]
    exact reports_fail

theorem Reports.andThen (hformer : former.Reports faults state)
    (hlatter : latter.Reports others state) :
    (former.andThen latter).Reports (faults ++ others) state := by
  refine (hformer.finds.andThen (fun _ next hnext ↦ ?_) fun _ _ hnext ↦ hnext).reports
  rw [hnext]
  exact hlatter.finds

theorem reports_forEach {items : List α} {each : α → Check σ} {faultsOf : α → List Fault}
    (h : ∀ item ∈ items, (each item).Reports (faultsOf item) state) :
    (forEach items each).Reports (items.flatMap faultsOf) state := by
  induction items with
  | nil => exact reports_pass
  | cons item rest ih =>
    rw [List.flatMap_cons]
    exact (h item List.mem_cons_self).andThen
      (ih fun other hother ↦ h other (List.mem_cons_of_mem _ hother))

/-! ### What is true on every way out of a check -/

/-- The answer to the check, made in this state, and the state that it leaves are so. -/
def Yields (check : Check σ) (before : σ) (outcome : Option Fault → σ → Prop) : Prop :=
  outcome (check before).1 (check before).2

variable {outcome partway looser : Option Fault → σ → Prop}

theorem Yields.mono (h : check.Yields before outcome)
    (hlooser : ∀ fault? state, outcome fault? state → looser fault? state) :
    check.Yields before looser :=
  hlooser _ _ h

theorem yields_pass (h : outcome none state) : pass.Yields state outcome := h

theorem yields_fail (h : outcome (some fault) state) : (fail fault).Yields state outcome := h

theorem yields_demand {holds : Bool} (hpass : outcome none state)
    (hfail : outcome (some fault) state) : (demand holds fault).Yields state outcome := by
  cases holds
  · exact yields_fail hfail
  · exact yields_pass hpass

theorem Yields.andThen (hformer : former.Yields before partway)
    (hlatter : ∀ state, partway none state → latter.Yields state outcome)
    (hstop : ∀ fault state, partway (some fault) state → outcome (some fault) state) :
    (former.andThen latter).Yields before outcome := by
  rw [Yields] at hformer ⊢
  rw [Check.andThen]
  cases hresult : former before with
  | mk fault? state =>
    rw [hresult] at hformer
    cases fault? with
    | none => exact hlatter state hformer
    | some fault => exact hstop fault state hformer

/-- What is true before each item, and after it if nothing is found, is true after all of them. -/
theorem yields_forEach {items : List α} {each : α → Check σ}
    (heach : ∀ item ∈ items, ∀ state, outcome none state → (each item).Yields state outcome)
    (h : outcome none before) : (forEach items each).Yields before outcome := by
  induction items generalizing before with
  | nil => exact yields_pass h
  | cons item rest ih =>
    exact (heach item List.mem_cons_self before h).andThen
      (fun _ hstate ↦ ih (fun other hother ↦ heach other (List.mem_cons_of_mem _ hother)) hstate)
      fun _ _ hstopped ↦ hstopped

/-- The check leaves the state as it finds it, with a fault or without. -/
def Restores (check : Check σ) (state : σ) : Prop := check.Yields state fun _ left ↦ left = state

theorem restores_pass : pass.Restores state := rfl

theorem restores_fail : (fail fault).Restores state := rfl

theorem restores_demand (holds : Bool) (fault : Fault) (state : σ) :
    (demand holds fault).Restores state :=
  yields_demand rfl rfl

theorem Restores.andThen (hformer : former.Restores state) (hlatter : latter.Restores state) :
    (former.andThen latter).Restores state :=
  Yields.andThen hformer (fun _ hleft ↦ hleft ▸ hlatter) fun _ _ hleft ↦ hleft

theorem restores_forEach {each : α → Check σ} (h : ∀ item, (each item).Restores state)
    (items : List α) : (forEach items each).Restores state :=
  yields_forEach (fun item _ _ hleft ↦ hleft ▸ h item) rfl

end Sol25.Check
