import Mathlib.Data.Finmap
import Sol25.Proofs.ScopeStack
import Sol25.Proofs.Table

/-!
# Scopes under any calls

Nobody has to open and leave scopes in pairs, and names may be bound and looked up at any time.
`runs_outermost` says what becomes of the outermost scope under any sequence of such calls, scopes
that are left once too often included. It behaves as a stack of finite maps that is never empty
(`NameStack`): every call is answered as the stack answers it, and what is left is an arrangement of
what is left of the stack (`Arranges`), in which the current scope is the last one and each of the
others is enclosed by the one in front of it. A binding that fails changes nothing, and calls inside
a scope that has been opened leave no trace once it is left (`exit_afterAll_enter`).

The arrangement of a stack of tables (`ofStack`) stands between the two. One lemma says what a call
does to it (`refines_perform`), and the rest is an induction over the calls. The stack itself knows
nothing of indices or of the order in which names came in.
-/

set_option autoImplicit false
set_option relaxedAutoImplicit false

namespace Sol25

/-! ### Tables as finite maps -/

namespace Table

variable {α : Type}

/-- What a table holds, without the order in which it came in. -/
def toFinmap (table : Table α) : Finmap fun _ : String ↦ α :=
  (table.entries.map fun entry ↦ (⟨entry.1, entry.2⟩ : Σ _ : String, α)).toFinmap

theorem dlookup_map_entry (entries : List (String × α)) (name : String) :
    (entries.map fun entry ↦ (⟨entry.1, entry.2⟩ : Σ _ : String, α)).dlookup name =
      (entries.find? (·.1 = name)).map (·.2) := by
  induction entries with
  | nil => rfl
  | cons entry rest ih =>
    obtain ⟨key, value⟩ := entry
    rw [List.map_cons, List.find?_cons]
    by_cases h : key = name
    · subst h
      rw [List.dlookup_cons_eq]
      simp
    · rw [List.dlookup_cons_ne _ _ (Ne.symm h), ih]
      simp [h]

theorem lookup_toFinmap (table : Table α) (name : String) :
    table.toFinmap.lookup name = table.get? name := by
  rw [toFinmap, Finmap.dlookup_list_toFinmap, dlookup_map_entry, get?]

theorem mem_toFinmap_iff {table : Table α} {name : String} :
    name ∈ table.toFinmap ↔ table.contains name := by
  rw [← Finmap.lookup_isSome, lookup_toFinmap, contains]

theorem toFinmap_empty : (empty : Table α).toFinmap = ∅ := rfl

/-- A name that is there keeps its value. -/
theorem toFinmap_insertNew_of_contains {table : Table α} {name : String}
    (h : table.contains name) (value : α) :
    (table.insertNew name value).toFinmap = table.toFinmap := by
  rw [insertNew, if_pos h]

theorem toFinmap_insertNew_of_not_contains {table : Table α} {name : String}
    (h : ¬ table.contains name) (value : α) :
    (table.insertNew name value).toFinmap = table.toFinmap.insert name value := by
  apply Finmap.ext_lookup
  intro other
  rw [lookup_toFinmap, get?_insertNew]
  by_cases hname : name = other
  · subst hname
    have hnone : table.get? name = none := Option.not_isSome_iff_eq_none.mp h
    rw [hnone, if_pos rfl, Finmap.lookup_insert]
    rfl
  · rw [if_neg hname, Option.or_none, Finmap.lookup_insert_of_ne _ (Ne.symm hname),
      lookup_toFinmap]

end Table

namespace Scopes

/-! ### Calls -/

/-- What can be asked of the scopes. -/
inductive Call where
  | enter
  | exit
  | defineParam (param : Ident)
  | defineTarget (target : Ident)
  | lookup (name : String)

/-- What a call is answered with. -/
inductive Answer where
  /-- The index of the scope that has been opened. -/
  | opened (index : Nat)
  | left
  /-- The fault that keeps a name from being bound, if there is one. -/
  | defined (fault? : Option Fault)
  | found (binding? : Option Binding)

/-- One call: its answer, and the scopes behind it. -/
def perform (scopes : Scopes) : Call → Answer × Scopes
  | .enter => (.opened scopes.enter.current, scopes.enter)
  | .exit => (.left, scopes.exit)
  | .defineParam param => (.defined (defineParam param scopes).1, (defineParam param scopes).2)
  | .defineTarget target =>
    (.defined (defineTarget target scopes).1, (defineTarget target scopes).2)
  | .lookup name => (.found (scopes.lookup name), scopes)

/-- The scopes after the calls have been made one after the other. -/
def afterAll (scopes : Scopes) (calls : List Call) : Scopes :=
  calls.foldl (fun scopes call ↦ (scopes.perform call).2) scopes

/-- What the calls are answered with one after the other. -/
def answers (scopes : Scopes) : List Call → List Answer
  | [] => []
  | call :: rest => (scopes.perform call).1 :: (scopes.perform call).2.answers rest

end Scopes

/-! ### The stack -/

/-- How the names of a scope are bound. -/
abbrev Bindings : Type := Finmap fun _ : String ↦ Binding

/-- A stack of scopes. There is always one. -/
structure NameStack where
  top : Bindings
  /-- The scopes around it, the nearest first. -/
  below : List Bindings

namespace NameStack

open Scopes (Call Answer)

/-- The names that are bound everywhere. -/
def start : NameStack :=
  ⟨[⟨"self", .pseudo⟩, ⟨"super", .pseudo⟩, ⟨"nil", .pseudo⟩, ⟨"true", .pseudo⟩,
    ⟨"false", .pseudo⟩].toFinmap, []⟩

def maps (stack : NameStack) : List Bindings := stack.top :: stack.below

def height (stack : NameStack) : Nat := stack.maps.length

/-- What a stack does. The bottom is never popped, and names are bound in the topmost map alone. -/
def perform (stack : NameStack) : Call → Answer × NameStack
  | .enter => (.opened stack.height, ⟨∅, stack.maps⟩)
  | .exit =>
    match stack.below with
    | [] => (.left, stack)
    | top :: below => (.left, ⟨top, below⟩)
  | .defineParam param =>
    if param.name ∈ stack.top then
      (.defined (some (.located (.duplicateParameter param.name) param.span)), stack)
    else (.defined none, ⟨stack.top.insert param.name .parameter, stack.below⟩)
  | .defineTarget target =>
    if stack.top.lookup target.name = some .parameter then
      (.defined (some (.located (.variableCollision target.name) target.span)), stack)
    else if target.name ∈ stack.top then (.defined none, stack)
    else (.defined none, ⟨stack.top.insert target.name .assigned, stack.below⟩)
  | .lookup name => (.found (stack.maps.findSome? (·.lookup name)), stack)

def afterAll (stack : NameStack) (calls : List Call) : NameStack :=
  calls.foldl (fun stack call ↦ (stack.perform call).2) stack

def answers (stack : NameStack) : List Call → List Answer
  | [] => []
  | call :: rest => (stack.perform call).1 :: (stack.perform call).2.answers rest

end NameStack

namespace Scopes

variable {scopes : Scopes} {stack : NameStack} {inner : Table Binding}
  {outer tables base : List (Table Binding)}

/-! ### One call -/

/-- The scopes are the arrangement of tables that hold what the maps of the stack hold. -/
def Refines (scopes : Scopes) (stack : NameStack) : Prop :=
  ∃ tables, scopes = ofStack tables ∧ tables.map Table.toFinmap = stack.maps

theorem refines_outermost : outermost.Refines NameStack.start :=
  ⟨[pseudoTable], outermost_eq_ofStack, rfl⟩

/-- The innermost table stands for the topmost map. -/
theorem Refines.exists_cons (h : scopes.Refines stack) :
    ∃ inner outer, scopes = ofStack (inner :: outer) ∧ inner.toFinmap = stack.top ∧
      outer.map Table.toFinmap = stack.below := by
  obtain ⟨tables, rfl, hmaps⟩ := h
  obtain ⟨inner, outer, rfl, htop, hbelow⟩ := List.map_eq_cons_iff.mp hmaps
  exact ⟨inner, outer, rfl, htop, hbelow⟩

theorem refines_cons {top : Bindings} {below : List Bindings} (htop : inner.toFinmap = top)
    (hbelow : outer.map Table.toFinmap = below) :
    (ofStack (inner :: outer)).Refines ⟨top, below⟩ :=
  ⟨inner :: outer, rfl, by rw [List.map_cons, htop, hbelow]; rfl⟩

theorem findSome?_map_toFinmap (tables : List (Table Binding)) (name : String) :
    (tables.map Table.toFinmap).findSome? (·.lookup name) = tables.findSome? (·.get? name) := by
  rw [List.findSome?_map]
  congr 1
  funext table
  exact table.lookup_toFinmap name

theorem perform_defineParam_ofStack (param : Ident) :
    (ofStack (inner :: outer)).perform (.defineParam param) =
      if inner.contains param.name then
        (.defined (some (.located (.duplicateParameter param.name) param.span)),
          ofStack (inner :: outer))
      else (.defined none, ofStack (inner.insertNew param.name .parameter :: outer)) := by
  rw [perform, defineParam, currentNames_ofStack]
  split
  · rfl
  · rw [bind_ofStack]

theorem perform_defineTarget_ofStack (target : Ident) :
    (ofStack (inner :: outer)).perform (.defineTarget target) =
      if inner.get? target.name = some .parameter then
        (.defined (some (.located (.variableCollision target.name) target.span)),
          ofStack (inner :: outer))
      else (.defined none, ofStack (inner.insertNew target.name .assigned :: outer)) := by
  rw [perform, defineTarget, currentNames_ofStack]
  split
  · rfl
  · rw [bind_ofStack]

/-- The scopes answer a call as the stack does, and go on as the stack goes on. -/
theorem refines_perform (h : scopes.Refines stack) (call : Call) :
    (scopes.perform call).1 = (stack.perform call).1 ∧
      (scopes.perform call).2.Refines (stack.perform call).2 := by
  obtain ⟨inner, outer, rfl, htop, hbelow⟩ := h.exists_cons
  obtain ⟨top, below⟩ := stack
  obtain rfl : inner.toFinmap = top := htop
  obtain rfl : outer.map Table.toFinmap = below := hbelow
  have hne : inner :: outer ≠ [] := List.cons_ne_nil _ _
  cases call with
  | enter =>
    have hheight : (ofStack (inner :: outer)).enter.current =
        NameStack.height ⟨inner.toFinmap, outer.map Table.toFinmap⟩ := by
      change (ofStack (inner :: outer)).depth = (outer.map Table.toFinmap).length + 1
      rw [depth_ofStack, List.length_map, List.length_cons]
    refine ⟨congrArg Answer.opened hheight, ?_⟩
    change (ofStack (inner :: outer)).enter.Refines _
    rw [enter_ofStack hne]
    exact refines_cons Table.toFinmap_empty rfl
  | exit =>
    cases outer with
    | nil =>
      refine ⟨rfl, ?_⟩
      change (ofStack [inner]).exit.Refines _
      rw [exit_ofStack_singleton]
      exact refines_cons rfl rfl
    | cons next rest =>
      refine ⟨rfl, ?_⟩
      change (ofStack (inner :: next :: rest)).exit.Refines _
      rw [exit_ofStack (List.cons_ne_nil _ _)]
      exact refines_cons rfl rfl
  | defineParam param =>
    rw [perform_defineParam_ofStack, NameStack.perform]
    by_cases hthere : inner.contains param.name
    · rw [if_pos hthere, if_pos (Table.mem_toFinmap_iff.mpr hthere)]
      exact ⟨rfl, refines_cons rfl rfl⟩
    · rw [if_neg hthere, if_neg (mt Table.mem_toFinmap_iff.mp hthere)]
      exact ⟨rfl, refines_cons (Table.toFinmap_insertNew_of_not_contains hthere _) rfl⟩
  | defineTarget target =>
    rw [perform_defineTarget_ofStack, NameStack.perform, Table.lookup_toFinmap]
    split
    · exact ⟨rfl, refines_cons rfl rfl⟩
    · by_cases hthere : inner.contains target.name
      · rw [if_pos (Table.mem_toFinmap_iff.mpr hthere)]
        exact ⟨rfl, refines_cons (Table.toFinmap_insertNew_of_contains hthere _) rfl⟩
      · rw [if_neg (mt Table.mem_toFinmap_iff.mp hthere)]
        exact ⟨rfl, refines_cons (Table.toFinmap_insertNew_of_not_contains hthere _) rfl⟩
  | lookup name =>
    refine ⟨congrArg Answer.found ?_, refines_cons rfl rfl⟩
    rw [lookup_ofStack hne, ← findSome?_map_toFinmap]
    rfl

/-- A name that cannot be bound leaves everything as it was. -/
theorem defineParam_of_fault {param : Ident} {fault : Fault}
    (h : (defineParam param scopes).1 = some fault) : (defineParam param scopes).2 = scopes := by
  unfold defineParam at h ⊢
  split at h
  · next hthere => rw [if_pos hthere]
  · cases h

theorem defineTarget_of_fault {target : Ident} {fault : Fault}
    (h : (defineTarget target scopes).1 = some fault) :
    (defineTarget target scopes).2 = scopes := by
  unfold defineTarget at h ⊢
  split at h
  · next hthere => rw [if_pos hthere]
  · cases h

/-! ### Any number of calls -/

theorem Refines.answers_eq (h : scopes.Refines stack) (calls : List Call) :
    scopes.answers calls = stack.answers calls := by
  induction calls generalizing scopes stack with
  | nil => rfl
  | cons call rest ih =>
    obtain ⟨hanswer, hnext⟩ := refines_perform h call
    rw [answers, NameStack.answers, hanswer, ih hnext]

theorem Refines.afterAll (h : scopes.Refines stack) (calls : List Call) :
    (scopes.afterAll calls).Refines (stack.afterAll calls) := by
  induction calls generalizing scopes stack with
  | nil => exact h
  | cons call rest ih => exact ih (refines_perform h call).2

/-- The scopes side by side are the maps of the stack, the bottom first. Each is enclosed by the one
in front of it, and the last is the current one. -/
structure Arranges (scopes : Scopes) (stack : NameStack) : Prop where
  depth : scopes.depth = stack.height
  current : scopes.current + 1 = scopes.frames.size
  enclosing : ∀ index frame, scopes.frames[index]? = some frame →
    frame.enclosing? = if index = 0 then none else some (index - 1)
  maps : scopes.frames.toList.map (·.names.toFinmap) = stack.maps.reverse

theorem map_names_framesOf (tables : List (Table Binding)) :
    (framesOf tables).map Frame.names = tables.reverse := by
  induction tables with
  | nil => rfl
  | cons inner outer ih => rw [framesOf, List.map_append, ih, List.reverse_cons]; rfl

theorem enclosing?_of_getElem?_framesOf {index : Nat} {frame : Frame}
    (h : (framesOf tables)[index]? = some frame) :
    frame.enclosing? = if index = 0 then none else some (index - 1) := by
  induction tables with
  | nil => cases h
  | cons inner outer ih =>
    rw [framesOf] at h
    rcases Nat.lt_or_ge index (framesOf outer).length with hlt | hge
    · rw [List.getElem?_append_left hlt] at h
      exact ih h
    · rw [List.getElem?_append_right hge, List.getElem?_singleton] at h
      split at h
      · next hlast =>
        obtain rfl := Option.some.inj h
        rw [length_framesOf] at hge hlast
        have hindex : index = outer.length := by omega
        subst hindex
        simp only [List.length_eq_zero_iff]
      · cases h

theorem Refines.arranges (h : scopes.Refines stack) : scopes.Arranges stack := by
  obtain ⟨inner, outer, rfl, htop, hbelow⟩ := h.exists_cons
  have hmaps : (inner :: outer).map Table.toFinmap = stack.maps := by
    rw [List.map_cons, htop, hbelow, NameStack.maps]
  refine ⟨?_, ?_, fun index frame hframe ↦ ?_, ?_⟩
  · rw [depth_ofStack, NameStack.height, ← hmaps, List.length_map]
  · change (inner :: outer).length - 1 + 1 = (ofStack (inner :: outer)).depth
    rw [depth_ofStack]
    rfl
  · rw [ofStack, List.getElem?_toArray] at hframe
    exact enclosing?_of_getElem?_framesOf hframe
  · change (framesOf (inner :: outer)).map (Table.toFinmap ∘ Frame.names) = _
    rw [← List.map_map, map_names_framesOf, List.map_reverse, hmaps]

/-! ### Calls inside a scope -/

def Call.opens : Call → Bool
  | .enter => true
  | _ => false

def Call.leaves : Call → Bool
  | .exit => true
  | _ => false

/-- The calls leave only scopes that they have opened, and in the end they have left all of them. -/
structure Inside (calls : List Call) : Prop where
  stays : ∀ earlier, earlier <+: calls → earlier.countP Call.leaves ≤ earlier.countP Call.opens
  returns : calls.countP Call.leaves = calls.countP Call.opens

/-- A call that does not leave the last scope above some others does not reach these. -/
theorem exists_perform_append_eq (base : List (Table Binding)) (call : Call)
    (h : call.leaves.toNat < (inner :: outer).length) :
    ∃ next outer', ((ofStack (inner :: outer ++ base)).perform call).2 =
        ofStack (next :: outer' ++ base) ∧
      (next :: outer').length + call.leaves.toNat = (inner :: outer).length + call.opens.toNat := by
  rw [List.cons_append]
  cases call with
  | enter => exact ⟨_, inner :: outer, enter_ofStack (List.cons_ne_nil _ _), rfl⟩
  | exit =>
    cases outer with
    | nil => exact absurd h (Nat.lt_irrefl 1)
    | cons next rest => exact ⟨next, rest, exit_ofStack (List.cons_ne_nil _ _), rfl⟩
  | defineParam param =>
    rw [perform_defineParam_ofStack]
    split
    · exact ⟨inner, outer, rfl, rfl⟩
    · exact ⟨_, outer, rfl, rfl⟩
  | defineTarget target =>
    rw [perform_defineTarget_ofStack]
    split
    · exact ⟨inner, outer, rfl, rfl⟩
    · exact ⟨_, outer, rfl, rfl⟩
  | lookup name => exact ⟨inner, outer, rfl, rfl⟩

theorem countP_cons_toNat (p : Call → Bool) (call : Call) (rest : List Call) :
    (call :: rest).countP p = rest.countP p + (p call).toNat := by
  rw [List.countP_cons]
  cases p call <;> rfl

theorem exists_afterAll_append_eq (inner : Table Binding) (outer base : List (Table Binding))
    (calls : List Call) (h : ∀ earlier, earlier <+: calls →
      earlier.countP Call.leaves < (inner :: outer).length + earlier.countP Call.opens) :
    ∃ next outer', (ofStack (inner :: outer ++ base)).afterAll calls =
        ofStack (next :: outer' ++ base) ∧
      (next :: outer').length + calls.countP Call.leaves =
        (inner :: outer).length + calls.countP Call.opens := by
  induction calls generalizing inner outer with
  | nil => exact ⟨inner, outer, rfl, rfl⟩
  | cons call rest ih =>
    have hcall := h [call] (List.prefix_append [call] rest)
    rw [countP_cons_toNat, countP_cons_toNat, List.countP_nil, List.countP_nil] at hcall
    have hstep : call.leaves.toNat < (inner :: outer).length := by
      cases call with
      | exit => simpa [Call.leaves, Call.opens] using hcall
      | enter | defineParam _ | defineTarget _ | lookup _ => exact Nat.succ_pos _
    obtain ⟨next, above, hperform, hlength⟩ := exists_perform_append_eq base call hstep
    obtain ⟨last, others, hrest, htotal⟩ := ih next above
      fun earlier hearlier ↦ by
        have hcons := h (call :: earlier) (List.cons_prefix_cons.mpr ⟨rfl, hearlier⟩)
        rw [countP_cons_toNat, countP_cons_toNat] at hcons
        omega
    refine ⟨last, others, ?_, ?_⟩
    · change Scopes.afterAll ((ofStack (inner :: outer ++ base)).perform call).2 rest = _
      rw [hperform, hrest]
    · rw [countP_cons_toNat, countP_cons_toNat]
      omega

/-- Whatever happens inside a scope, everything is as before once it is left. -/
theorem exit_afterAll_enter (h : scopes.Refines stack) {calls : List Call}
    (hinside : Inside calls) : (scopes.enter.afterAll calls).exit = scopes := by
  obtain ⟨inner, outer, rfl, -, -⟩ := h.exists_cons
  have hne : inner :: outer ≠ [] := List.cons_ne_nil _ _
  obtain ⟨last, others, hafter, hlength⟩ :=
    exists_afterAll_append_eq Table.empty [] (inner :: outer) calls
      fun earlier hearlier ↦ by
        have hstays := hinside.stays earlier hearlier
        simp only [List.length_singleton]
        omega
  have hothers : others = [] := by
    rw [hinside.returns, List.length_cons, List.length_singleton] at hlength
    exact List.length_eq_zero_iff.mp (by omega)
  subst hothers
  rw [enter_ofStack hne]
  change (Scopes.afterAll (ofStack ([Table.empty] ++ inner :: outer)) calls).exit = _
  rw [hafter, List.singleton_append, exit_ofStack hne]

/-! ### What holds in every run -/

/-- What holds of the scopes when these calls have been made since there was only the outermost. -/
structure Runs (calls : List Call) (scopes : Scopes) : Prop where
  answers : outermost.answers calls = NameStack.start.answers calls
  arranges : scopes.Arranges (NameStack.start.afterAll calls)
  param_fault : ∀ param fault, (defineParam param scopes).1 = some fault →
    (defineParam param scopes).2 = scopes
  target_fault : ∀ target fault, (defineTarget target scopes).1 = some fault →
    (defineTarget target scopes).2 = scopes
  restored : ∀ inside, Inside inside → (scopes.enter.afterAll inside).exit = scopes

theorem runs_outermost (calls : List Call) : Runs calls (outermost.afterAll calls) := by
  have hrefines : (outermost.afterAll calls).Refines (NameStack.start.afterAll calls) :=
    refines_outermost.afterAll calls
  refine ⟨refines_outermost.answers_eq calls, hrefines.arranges, ?_, ?_, ?_⟩
  · exact fun _ _ ↦ defineParam_of_fault
  · exact fun _ _ ↦ defineTarget_of_fault
  · exact fun _ ↦ exit_afterAll_enter hrefines

end Scopes

end Sol25
