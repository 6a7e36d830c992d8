import Restaking.Text.Numeral

/-!
# Gas

The execution of a contract is charged to a meter with a fixed limit. Charges add up, to no more
than the greatest 64-bit number; going over the limit is an error, and the charge stays on the
meter all the same.
-/

namespace Restaking

/-- Why the execution of a contract fails. -/
inductive ExecutionError where
  | outOfGas (limit consumed : UInt64)
  /-- The contract fails for a reason of its own. -/
  | contract (reason : String)
  deriving DecidableEq

/-- The wording of an error. -/
def ExecutionError.message : ExecutionError → String
  | .outOfGas limit consumed =>
    "Out of gas; limit: " ++ Numeral.text limit.toNat ++ ", consumed: "
      ++ Numeral.text consumed.toNat
  | .contract reason => "Contract execution failed: " ++ reason

/-- A gas meter. -/
structure GasMeter where
  limit : UInt64
  consumed : UInt64
  deriving DecidableEq

namespace GasMeter

/-- A meter on which nothing is charged yet. -/
def new (limit : UInt64) : GasMeter := ⟨limit, 0⟩

/-- The gas that may still be charged. -/
def remaining (m : GasMeter) : UInt64 :=
  UInt64.ofNat (m.limit.toNat - m.consumed.toNat)

/-- Puts a charge on the meter. -/
def charge (m : GasMeter) (amount : UInt64) : GasMeter :=
  { m with consumed := UInt64.ofNat (min (m.consumed.toNat + amount.toNat) (UInt64.size - 1)) }

/-- Checks that the charges are within the limit. -/
def check (m : GasMeter) : Except ExecutionError Unit :=
  if m.limit < m.consumed then .error (.outOfGas m.limit m.consumed) else .ok ()

/-- Puts a charge on the meter, and tells whether the charges are still within the limit. -/
def consume (m : GasMeter) (amount : UInt64) : Except ExecutionError Unit × GasMeter :=
  ((m.charge amount).check, m.charge amount)

end GasMeter

end Restaking
