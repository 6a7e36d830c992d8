import Restaking.Staking.Provider
import Restaking.Staking.Stake

/-!
# Packets

The provider chain relays packets of four lists: registrations of providers, delegations that have
become active, notices of slashing, notices of unbonding. A `Wire.Packet` is what a message says;
a `Packet` is what it means once every entry has passed its checks.

* `Packet.ofWire` goes over the lists in order, and the first faulty entry decides.
* `Packet.toWire` writes a packet back; it wants every transaction and signature that the wire form
  demands to be there.
-/

namespace Restaking

namespace Wire

/-- What a message says about undelegation. -/
structure Undelegation extends Restaking.Undelegation where
  /-- The delegator's signature on the unbonding transaction. -/
  delegatorSignature : Option Bytes
  deriving DecidableEq

/-- A delegation as a message tells of it: the part on undelegation may be missing. -/
abbrev Delegation := Body (Option Undelegation)

/-- The four lists of a message. -/
structure Packet where
  registrations : List Registration
  delegations : List Delegation
  slashings : List SlashNotice
  unbondings : List UnbondNotice
  deriving DecidableEq

/-- A message that relays a packet. -/
inductive Envelope where
  | relay (packet : Packet)

/-- Whether all four lists are empty. -/
def Packet.isEmpty (p : Packet) : Bool :=
  p.registrations.isEmpty && p.delegations.isEmpty && p.slashings.isEmpty && p.unbondings.isEmpty

end Wire

/-- A packet whose entries have passed their checks. -/
structure Packet where
  providers : List Provider
  delegations : List Delegation
  slashings : List SlashNotice
  unbondings : List UnbondNotice
  deriving DecidableEq

/-! ## From the wire -/

/-- The delegation that a message tells of: it has a part on undelegation, in which the delegator
has signed nothing yet, not even with an empty signature. -/
def Delegation.ofWire (w : Wire.Delegation) : Except StakingError Delegation :=
  match w.undelegation with
  | none => .error (.malformed .missingUndelegation)
  | some u =>
    match u.delegatorSignature with
    | some _ => .error (.malformed .alreadySigned)
    | none => do
      let d : Delegation := w.withUndelegation u.toUndelegation
      Delegation.check d
      return d

/-- The providers that registrations announce; none may repeat another or one of those seen. -/
def Packet.announced (seen : List ProviderId) :
    List Registration → Except StakingError (List Provider)
  | [] => .ok []
  | r :: rest => do
    let p ← Provider.ofRegistration r
    demand (p.id ∉ seen) (.repeatedProvider p.consumer p.key)
    let ps ← Packet.announced (p.id :: seen) rest
    return p :: ps

/-- The packet that the lists of a message make up. -/
def Packet.ofWire (w : Wire.Packet) : Except StakingError Packet := do
  let providers ← Packet.announced [] w.registrations
  let delegations ← traverse Delegation.ofWire w.delegations
  (checkAll SlashNotice.check w.slashings).mapError .malformed
  (checkAll UnbondNotice.check w.unbondings).mapError .malformed
  return { providers, delegations, slashings := w.slashings, unbondings := w.unbondings }

/-! ## To the wire -/

/-- A delegation as a message tells of it. -/
def Delegation.toWire (d : Delegation) : Except StakingError Wire.Delegation := do
  demand (d.stakingTx ≠ []) (.emptyField "staking_tx")
  demand (d.slashingTx ≠ []) (.emptyField "slashing_tx")
  demand (d.slashingSignature ≠ []) (.emptyField "delegator_slashing_sig")
  demand (d.undelegation.unbondingTx ≠ []) (.emptyField "unbonding_tx")
  demand (d.undelegation.slashingTx ≠ []) (.emptyField "unbonding slashing_tx")
  demand (d.undelegation.slashingSignature ≠ []) (.emptyField "unbonding delegator_slashing_sig")
  return d.withUndelegation (some { d.undelegation with delegatorSignature := none })

/-- The lists of a message that make up a packet. -/
def Packet.toWire (p : Packet) : Except StakingError Wire.Packet := do
  let delegations ← traverse Delegation.toWire p.delegations
  return {
    registrations := p.providers.map Provider.toRegistration
    delegations
    slashings := p.slashings
    unbondings := p.unbondings }

/-! ## JSON forms -/

open Json (field fieldIfAny variant)

instance : JsonForm Wire.Undelegation where
  toJson u :=
    .obj (u.toUndelegation.toMembers (fieldIfAny "delegator_unbonding_sig" u.delegatorSignature))
  ofJson? v := do
    let ms ← v.members?
    return {
      toUndelegation := ← Undelegation.ofMembers? ms
      delegatorSignature := ← ms.optional? "delegator_unbonding_sig" }

instance : JsonForm Wire.Delegation where
  toJson d := .obj (d.toMembers (fieldIfAny "undelegation_info" d.undelegation))
  ofJson? v := v.members?.bind (Body.ofMembers? (·.optional? "undelegation_info"))

/-- Lists that are absent are empty. -/
instance : JsonForm Wire.Packet where
  toJson p := .obj (field "new_fp" p.registrations ++ field "active_del" p.delegations
    ++ field "slashed_del" p.slashings ++ field "unbonded_del" p.unbondings)
  ofJson? v := do
    let ms ← v.members?
    return {
      registrations := ← ms.withDefault? "new_fp" []
      delegations := ← ms.withDefault? "active_del" []
      slashings := ← ms.withDefault? "slashed_del" []
      unbondings := ← ms.withDefault? "unbonded_del" [] }

instance : JsonForm Wire.Envelope where
  toJson
    | .relay p => variant "btc_staking" (toJson p)
  ofJson? v := do
    match ← v.variant? with
    | ("btc_staking", v) => return .relay (← ofJson? v)
    | _ => none

/-! ## Messages -/

/-- The packet that a message relays. -/
def Packet.ofMessage (bytes : Bytes) : Except StakingError Packet :=
  match ofMessage? Wire.Envelope bytes with
  | none => .error .unreadable
  | some (.relay w) => Packet.ofWire w

/-- The message that relays a packet. -/
def Packet.toMessage (p : Packet) : Except StakingError String := do
  let w ← p.toWire
  return jsonText (Wire.Envelope.relay w)

end Restaking
