/-!
# Checks

A check has no result but its error. Checks run one after the other, and the first that fails
decides.
-/

namespace Restaking

variable {ε α : Type}

/-- Demands a condition, with the error for the case that it fails. -/
def demand (condition : Prop) [Decidable condition] (error : ε) : Except ε Unit :=
  if condition then .ok () else .error error

/-- Checks the members of a list from the first to the last. -/
def checkAll (check : α → Except ε Unit) : List α → Except ε Unit
  | [] => .ok ()
  | a :: rest => do
    check a
    checkAll check rest

/-- Runs a partial function over a list from the first member to the last. -/
def traverse {β : Type} (f : α → Except ε β) : List α → Except ε (List β)
  | [] => .ok []
  | a :: rest => do
    let b ← f a
    let bs ← traverse f rest
    return b :: bs

/-- A step of a larger computation that can only succeed or fail. -/
def attempt {m : Type → Type} [Monad m] (result : Except ε α) : ExceptT ε m α :=
  ExceptT.mk (pure result)

@[simp] theorem demand_eq_ok {condition : Prop} [Decidable condition] {error : ε} :
    demand condition error = .ok () ↔ condition := by
  unfold demand
  split <;> simp_all

end Restaking
