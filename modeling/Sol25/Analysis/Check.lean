import Sol25.Fault

/-!
Checks: steps over a state that end with a fault or with none. The first fault ends a sequence of
checks, and what has been done to the state by then is not taken back.
-/

set_option autoImplicit false
set_option relaxedAutoImplicit false

namespace Sol25

/-- A check answers with the fault it finds, if any, and the state it leaves. -/
abbrev Check (σ : Type) := σ → Option Fault × σ

namespace Check

variable {σ α : Type}

/-- The check that finds nothing. -/
def pass : Check σ := fun state ↦ (none, state)

def fail (fault : Fault) : Check σ := fun state ↦ (some fault, state)

/-- Finds the fault unless the condition holds. -/
def demand (condition : Bool) (fault : Fault) : Check σ := if condition then pass else fail fault

/-- The second check is made only if the first finds nothing. -/
def andThen (former latter : Check σ) : Check σ := fun state ↦
  match former state with
  | (none, state) => latter state
  | (some fault, state) => (some fault, state)

/-- The checks of all items, one after the other. -/
def forEach (items : List α) (check : α → Check σ) : Check σ :=
  items.foldr (fun item others ↦ (check item).andThen others) pass

end Check

end Sol25
