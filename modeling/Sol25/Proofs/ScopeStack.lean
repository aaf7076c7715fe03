import Sol25.Scopes

/-!
# Scopes are a stack of tables

The open scopes stand side by side and refer to one another by index. In truth they are a stack:
each scope is enclosed by the one in front of it, and the current one is the last. `Scopes.ofStack`
arranges a stack of tables, the innermost of which comes first, in this way, and every operation on
the arrangement is one on the stack: opening a scope pushes an empty table
(`enter_ofStack`), leaving one pops a table unless it is the only one (`exit_ofStack`,
`exit_ofStack_singleton`), binding changes the innermost table alone (`bind_ofStack`), and a name is
looked up from the innermost table outwards (`lookup_ofStack`).
-/

set_option autoImplicit false
set_option relaxedAutoImplicit false

namespace Sol25.Scopes

/-- The scopes of a stack of tables, the outermost scope first. -/
def framesOf : List (Table Binding) → List Frame
  | [] => []
  | inner :: outer =>
    framesOf outer ++ [⟨if outer = [] then none else some (outer.length - 1), inner⟩]

/-- The scopes whose tables are those of the stack, the innermost table first. -/
def ofStack (stack : List (Table Binding)) : Scopes :=
  ⟨(framesOf stack).toArray, stack.length - 1⟩

variable {inner : Table Binding} {outer stack : List (Table Binding)} {name : String}

@[simp] theorem length_framesOf (stack : List (Table Binding)) :
    (framesOf stack).length = stack.length := by
  induction stack with
  | nil => rfl
  | cons inner outer ih => rw [framesOf, List.length_append, ih, List.length_singleton,
      List.length_cons]

theorem getElem?_framesOf_cons_self :
    (framesOf (inner :: outer))[outer.length]? =
      some ⟨if outer = [] then none else some (outer.length - 1), inner⟩ := by
  rw [framesOf, List.getElem?_append_right (by simp)]
  simp

/-- The table with which every stack begins. -/
def pseudoTable : Table Binding := Table.ofList (pseudoNames.map (·, .pseudo))

theorem outermost_eq_ofStack : outermost = ofStack [pseudoTable] := rfl

theorem depth_ofStack (stack : List (Table Binding)) : (ofStack stack).depth = stack.length := by
  rw [depth, ofStack, List.size_toArray, length_framesOf]

theorem enter_ofStack (h : stack ≠ []) :
    (ofStack stack).enter = ofStack (Table.empty :: stack) := by
  simp [enter, ofStack, framesOf, h]

theorem exit_ofStack (h : outer ≠ []) : (ofStack (inner :: outer)).exit = ofStack outer := by
  have hsize : 1 < (ofStack (inner :: outer)).frames.size := by
    have := List.length_pos_iff.mpr h
    rw [ofStack, List.size_toArray, length_framesOf, List.length_cons]
    omega
  rw [exit, if_pos hsize]
  simp [ofStack, framesOf, h]

theorem exit_ofStack_singleton : (ofStack [inner]).exit = ofStack [inner] := rfl

theorem currentNames_ofStack : (ofStack (inner :: outer)).currentNames = inner := by
  rw [currentNames, ofStack, List.getElem?_toArray, List.length_cons, Nat.add_sub_cancel,
    getElem?_framesOf_cons_self]
  rfl

theorem modify_append_singleton {α : Type} (front : List α) (last : α) (change : α → α) :
    (front ++ [last]).modify front.length change = front ++ [change last] := by
  induction front with
  | nil => rfl
  | cons first front ih =>
    rw [List.cons_append, List.length_cons, List.modify_succ_cons, ih, List.cons_append]

theorem bind_ofStack (binding : Binding) :
    (ofStack (inner :: outer)).bind name binding =
      ofStack (inner.insertNew name binding :: outer) := by
  rw [bind, ofStack, ofStack, List.length_cons, Nat.add_sub_cancel, framesOf, framesOf,
    List.modify_toArray, ← length_framesOf outer, modify_append_singleton]
  simp

/-- The scopes around a scope are those in front of it, so only they matter to a lookup. -/
theorem lookupFrom_of_frames {scopes : Scopes} (hne : stack ≠ [])
    (h : ∀ index < stack.length, scopes.frames[index]? = (framesOf stack)[index]?) :
    scopes.lookupFrom (stack.length - 1) name = stack.findSome? (·.get? name) := by
  induction stack with
  | nil => exact absurd rfl hne
  | cons inner outer ih =>
    have hinner := h outer.length (Nat.lt_succ_self _)
    rw [getElem?_framesOf_cons_self] at hinner
    rw [List.length_cons, Nat.add_sub_cancel, lookupFrom, hinner, List.findSome?_cons]
    cases hget : inner.get? name with
    | some binding => simp [hget]
    | none =>
      by_cases houter : outer = []
      · simp [hget, houter]
      · have hlt := List.length_pos_iff.mpr houter
        simp only [hget, houter, if_false]
        rw [if_pos (by omega)]
        apply ih houter
        intro index hindex
        rw [h index (Nat.lt_succ_of_lt hindex), framesOf, List.getElem?_append_left (by simpa)]

theorem lookup_ofStack (h : stack ≠ []) :
    (ofStack stack).lookup name = stack.findSome? (·.get? name) :=
  lookupFrom_of_frames h fun index _ ↦ by simp [ofStack]

end Sol25.Scopes
