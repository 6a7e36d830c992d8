import Restaking.Staking.Entry
import Restaking.Staking.TxHash

/-!
# Delegations

A delegation locks an amount in a staking transaction and names the providers that it backs. It
carries the delegator's and the covenant members' signatures on the transaction that would slash
it, and the same for the transaction that unbonds it.

The body of a delegation is the same on the wire and in the registry, except for what it says about
undelegation: on the wire this part may be missing, and may hold the delegator's signature on the
unbonding. `Body` leaves that part open.
-/

namespace Restaking

/-- What a delegation that is not unbonding says about undelegation. -/
structure Undelegation where
  unbondingTx : Bytes
  /-- The members' signatures on the unbonding transaction. -/
  memberSignatures : List MemberSignature
  /-- The transaction that slashes the unbonding output. -/
  slashingTx : Bytes
  /-- The delegator's signature on the slashing transaction. -/
  slashingSignature : Bytes
  /-- The members' signatures on the slashing transaction. -/
  memberSlashingSignatures : List AdaptorSignatures
  deriving DecidableEq

/-- The body of a delegation, over what it says about undelegation. -/
structure Body (υ : Type) where
  /-- The delegator's key. -/
  delegator : String
  /-- The keys of the providers. -/
  providers : List String
  startHeight : UInt64
  endHeight : UInt64
  /-- The amount in satoshi. -/
  totalSat : UInt64
  stakingTx : Bytes
  /-- The transaction that slashes the staking output. -/
  slashingTx : Bytes
  /-- The delegator's signature on the slashing transaction. -/
  slashingSignature : Bytes
  /-- The members' signatures on the slashing transaction. -/
  memberSignatures : List AdaptorSignatures
  /-- The position of the staking output. -/
  outputIndex : UInt32
  /-- The unbonding time in blocks. -/
  unbondingTime : UInt32
  undelegation : υ
  /-- The version of the staking parameters that the delegation is held to. -/
  paramsVersion : UInt32
  deriving DecidableEq

/-- The same body with another part on undelegation. -/
def Body.withUndelegation {υ ω : Type} (b : Body υ) (undelegation : ω) : Body ω where
  delegator := b.delegator
  providers := b.providers
  startHeight := b.startHeight
  endHeight := b.endHeight
  totalSat := b.totalSat
  stakingTx := b.stakingTx
  slashingTx := b.slashingTx
  slashingSignature := b.slashingSignature
  memberSignatures := b.memberSignatures
  outputIndex := b.outputIndex
  unbondingTime := b.unbondingTime
  undelegation := undelegation
  paramsVersion := b.paramsVersion

/-- A delegation that has not begun to unbond. -/
abbrev Delegation := Body Undelegation

/-- What tells delegations apart. -/
structure DelegationId where
  /-- The delegator's key. -/
  delegator : String
  /-- The hash of the staking transaction, in hexadecimal. -/
  stakingTx : String
  deriving DecidableEq

namespace Delegation

/-- The hash of the staking transaction. -/
def hash (d : Delegation) : TxHash := .ofTx d.stakingTx

/-- What a delegation is known by. -/
def id (d : Delegation) : DelegationId := ⟨d.delegator, (hash d).text⟩

end Delegation

/-! ## Checks -/

/-- Checks the part on undelegation of a delegation with that many providers. -/
def Undelegation.check (providers : Nat) (u : Undelegation) : Except EntryError Unit := do
  demand (u.unbondingTx ≠ []) .emptyUnbondingTx
  demand (u.slashingTx ≠ []) .emptySlashingTx
  demand (u.slashingSignature ≠ []) .emptySignature
  checkAll MemberSignature.check u.memberSignatures
  checkAll (AdaptorSignatures.checkFor providers) u.memberSlashingSignatures

/-- Checks the structure of a delegation: keys, time-lock, amount, transactions and signatures.
Whether enough members have signed is another question. -/
def Delegation.checkEntry (d : Delegation) : Except EntryError Unit := do
  Key.check d.delegator
  demand (d.providers ≠ []) .noProviders
  Key.checkDistinct [] d.providers
  demand (d.startHeight < d.endHeight) (.badTimeLock d.startHeight d.endHeight)
  demand (d.totalSat ≠ 0) .emptyStake
  demand (d.stakingTx ≠ []) .emptyStakingTx
  demand (d.slashingTx ≠ []) .emptySlashingTx
  demand (d.slashingSignature ≠ []) .emptySignature
  demand (d.unbondingTime.toNat ≤ maxUnbondingTime) (.badUnbondingTime d.unbondingTime)
  checkAll (AdaptorSignatures.checkFor d.providers.length) d.memberSignatures
  d.undelegation.check d.providers.length

/-- Checks the structure of a delegation; whatever is wrong makes the delegation malformed. -/
def Delegation.check (d : Delegation) : Except StakingError Unit :=
  (Delegation.checkEntry d).mapError .malformed

/-! ## JSON forms -/

open Json (field)

/-- The members of an undelegation, with further members after the first. -/
def Undelegation.toMembers (u : Undelegation) (further : Members) : Members :=
  field "unbonding_tx" u.unbondingTx ++ further
    ++ field "covenant_unbonding_sig_list" u.memberSignatures ++ field "slashing_tx" u.slashingTx
    ++ field "delegator_slashing_sig" u.slashingSignature
    ++ field "covenant_slashing_sigs" u.memberSlashingSignatures

/-- The undelegation that members describe. -/
def Undelegation.ofMembers? (ms : Members) : Option Undelegation := do
  return {
    unbondingTx := ← ms.required? "unbonding_tx"
    memberSignatures := ← ms.required? "covenant_unbonding_sig_list"
    slashingTx := ← ms.required? "slashing_tx"
    slashingSignature := ← ms.required? "delegator_slashing_sig"
    memberSlashingSignatures := ← ms.required? "covenant_slashing_sigs" }

instance : JsonForm Undelegation where
  toJson u := .obj (u.toMembers [])
  ofJson? v := v.members?.bind Undelegation.ofMembers?

namespace Body

variable {υ : Type}

/-- The members of a body, given those that tell about undelegation. -/
def toMembers (b : Body υ) (undelegation : Members) : Members :=
  field "btc_pk_hex" b.delegator ++ field "fp_btc_pk_list" b.providers
    ++ field "start_height" b.startHeight ++ field "end_height" b.endHeight
    ++ field "total_sat" b.totalSat ++ field "staking_tx" b.stakingTx
    ++ field "slashing_tx" b.slashingTx ++ field "delegator_slashing_sig" b.slashingSignature
    ++ field "covenant_sigs" b.memberSignatures ++ field "staking_output_idx" b.outputIndex
    ++ field "unbonding_time" b.unbondingTime ++ undelegation
    ++ field "params_version" b.paramsVersion

/-- The body that members describe, given how they tell about undelegation. -/
def ofMembers? (undelegation : Members → Option υ) (ms : Members) : Option (Body υ) := do
  return {
    delegator := ← ms.required? "btc_pk_hex"
    providers := ← ms.required? "fp_btc_pk_list"
    startHeight := ← ms.required? "start_height"
    endHeight := ← ms.required? "end_height"
    totalSat := ← ms.required? "total_sat"
    stakingTx := ← ms.required? "staking_tx"
    slashingTx := ← ms.required? "slashing_tx"
    slashingSignature := ← ms.required? "delegator_slashing_sig"
    memberSignatures := ← ms.required? "covenant_sigs"
    outputIndex := ← ms.required? "staking_output_idx"
    unbondingTime := ← ms.required? "unbonding_time"
    undelegation := ← undelegation ms
    paramsVersion := ← ms.required? "params_version" }

end Body

instance : JsonForm Delegation where
  toJson d := .obj (d.toMembers (field "undelegation_info" d.undelegation))
  ofJson? v := v.members?.bind (Body.ofMembers? (·.required? "undelegation_info"))

instance : JsonForm DelegationId where
  toJson i := .obj (field "btc_pk_hex" i.delegator ++ field "staking_tx_hash" i.stakingTx)
  ofJson? v := do
    let ms ← v.members?
    return {
      delegator := ← ms.required? "btc_pk_hex"
      stakingTx := ← ms.required? "staking_tx_hash" }

end Restaking
