import Restaking.Json.Form
import Restaking.Registry.Error
import Restaking.Staking.Key

/-!
# Staking parameters

The parameters name the covenant committee and the number of its members that have to sign a
delegation. A committee lists each key once and is at least as large as its quorum.
-/

namespace Restaking

/-- The covenant committee and its quorum. -/
structure StakingParams where
  /-- The keys of the members. -/
  committee : List String
  quorum : UInt32
  deriving DecidableEq

namespace StakingParams

/-- The parameters without a committee. -/
def empty : StakingParams := ⟨[], 0⟩

/-- Checks the keys, that they differ, and that the quorum can be met. -/
def check (p : StakingParams) : Except RegistryError Unit := do
  (Key.checkDistinct [] p.committee).mapError .entry
  demand (p.quorum.toNat ≤ p.committee.length) (.badQuorum p.quorum p.committee.length)

/-- Whether a key belongs to a member of the committee. -/
def isMember (p : StakingParams) (key : String) : Bool := key ∈ p.committee

instance : JsonForm StakingParams where
  toJson p := .obj (Json.field "covenant_pks" p.committee ++ Json.field "covenant_quorum" p.quorum)
  ofJson? v := do
    let ms ← v.members?
    return {
      committee := ← ms.required? "covenant_pks"
      quorum := ← ms.required? "covenant_quorum" }

end StakingParams

end Restaking
