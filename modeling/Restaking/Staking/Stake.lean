import Restaking.Staking.Delegation

/-!
# The life of a delegation

A stake is a delegation at some stage of its life. It is admitted as active. The delegator's
signature makes it unbonding; a slashing or an unbonding ends it, from either of the two stages.
At the end only the identity is kept, and nothing changes any more.
-/

namespace Restaking

/-- A delegation whose delegator has signed the unbonding. -/
structure UnbondingDelegation where
  delegation : Delegation
  /-- The delegator's signature on the unbonding transaction. -/
  signature : Bytes
  deriving DecidableEq

/-- A delegation at a stage of its life. -/
inductive Stake where
  | active (d : Delegation)
  | unbonding (u : UnbondingDelegation)
  | slashed (id : DelegationId)
  | unbonded (id : DelegationId)
  deriving DecidableEq

namespace Stake

/-- What a stake is known by, at every stage. -/
def id : Stake → DelegationId
  | .active d => Delegation.id d
  | .unbonding u => Delegation.id u.delegation
  | .slashed id => id
  | .unbonded id => id

/-- The stage that a stake has reached. -/
def stage : Stake → Stage
  | .active _ => .active
  | .unbonding _ => .unbonding
  | .slashed _ => .slashed
  | .unbonded _ => .unbonded

/-- Whether a stake is active. -/
def isActive (s : Stake) : Bool := s.stage = .active

/-- Whether a stake has come to its end. -/
def isTerminal (s : Stake) : Bool := s.stage = .slashed ∨ s.stage = .unbonded

/-- Admits a delegation that is well-formed and that enough members have signed. -/
def accept (d : Delegation) (quorum : UInt32) : Except StakingError Stake := do
  Delegation.check d
  demand (quorum.toNat ≤ signerCount d.memberSignatures)
    (.quorumNotMet (signerCount d.memberSignatures) quorum)
  return .active d

/-- Begins to unbond, with the delegator's signature. -/
def beginUnbonding (signature : Bytes) : Stake → Except StakingError Stake
  | .active d =>
    if signature = [] then .error (.malformed .emptySignature) else .ok (.unbonding ⟨d, signature⟩)
  | s => .error (.cannotUnbond s.stage)

/-- Ends by a slashing, unless the end has come already. -/
def slash (s : Stake) : Stake :=
  if s.isTerminal then s else .slashed s.id

/-- Ends by an unbonding, unless the end has come already. -/
def unbond (s : Stake) : Stake :=
  if s.isTerminal then s else .unbonded s.id

end Stake

/-! ## JSON forms -/

open Json (field variant)

instance : JsonForm UnbondingDelegation where
  toJson u := .obj (field "delegation" u.delegation ++ field "delegator_unbonding_sig" u.signature)
  ofJson? v := do
    let ms ← v.members?
    return {
      delegation := ← ms.required? "delegation"
      signature := ← ms.required? "delegator_unbonding_sig" }

instance : JsonForm Stake where
  toJson
    | .active d => variant "active" (toJson d)
    | .unbonding u => variant "unbonding" (toJson u)
    | .slashed id => variant "slashed" (toJson id)
    | .unbonded id => variant "unbonded" (toJson id)
  ofJson? v := do
    match ← v.variant? with
    | ("active", v) => return .active (← ofJson? v)
    | ("unbonding", v) => return .unbonding (← ofJson? v)
    | ("slashed", v) => return .slashed (← ofJson? v)
    | ("unbonded", v) => return .unbonded (← ofJson? v)
    | _ => none

end Restaking
