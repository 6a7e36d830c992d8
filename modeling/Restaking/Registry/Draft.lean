import Restaking.Registry.State

/-!
# Drafts

A packet is applied as a whole or not at all. Its entries go into a draft, which holds the entries
that the packet adds or changes and shadows what the registry holds under the same keys. Once every
entry has been accepted, the draft is committed.
-/

namespace Restaking

/-- The entries that a packet adds or changes. -/
structure Draft where
  providers : Table ProviderId Provider
  stakes : Table TxHash Stake

namespace Draft

/-- The draft that changes nothing. -/
def empty : Draft := ⟨.empty, .empty⟩

/-- Whether a provider is registered, in the draft or before it. -/
def hasProvider (d : Draft) (base : Registry) (id : ProviderId) : Bool :=
  d.providers.contains id || base.providers.contains id

/-- The stake under a hash, in the draft or before it. -/
def stake? (d : Draft) (base : Registry) (hash : TxHash) : Option Stake :=
  match d.stakes.get? hash with
  | some s => some s
  | none => base.stakes.get? hash

/-- Puts a stake under a hash. -/
def putStake (d : Draft) (hash : TxHash) (s : Stake) : Draft :=
  { d with stakes := d.stakes.insert hash s }

/-- The registry with the entries of the draft. -/
def commit (d : Draft) (base : Registry) : Registry :=
  { base with
    providers := base.providers.overlay d.providers
    stakes := base.stakes.overlay d.stakes }

/-! ## Entries -/

/-- Registers a provider. Providers do not change: a second registration is an error. -/
def register (base : Registry) (d : Draft) (p : Provider) : Except RegistryError Draft := do
  p.check.mapError .staking
  demand (d.hasProvider base p.id = false) (.staking (.repeatedProvider p.consumer p.key))
  return { d with providers := d.providers.insert p.id p }

/-- What comes of admitting a delegation. -/
inductive Admission where
  /-- The delegation is new, and becomes active. -/
  | new (s : Stake)
  /-- The delegation has been admitted before; it stays as it is. -/
  | known (s : Stake)
  deriving DecidableEq

/-- Admits a delegation whose staking transaction is not known yet, against the parameters of the
version that it names. -/
def acceptNew (base : Registry) (d : Draft) (candidate : Delegation) :
    Except RegistryError (Admission × Draft) := do
  let params ← base.paramsOf candidate.paramsVersion
  match candidate.memberSignatures.find? fun s => !params.isMember s.signer with
  | some s => .error (.notAMember s.signer)
  | none => do
    let s ← (Stake.accept candidate params.quorum).mapError .staking
    return (.new s, d.putStake (Delegation.hash candidate) s)

/-- Admits a delegation. If its staking transaction is known, it has to be the same delegator's. -/
def accept (base : Registry) (d : Draft) (candidate : Delegation) :
    Except RegistryError (Admission × Draft) :=
  match d.stake? base (Delegation.hash candidate) with
  | some s =>
    if s.id.delegator = candidate.delegator then .ok (.known s, d)
    else .error (.delegationExists (Delegation.hash candidate).text)
  | none => acceptNew base d candidate

/-- The transaction hash that a text spells. -/
def hashOfText (text : String) : Except RegistryError TxHash := do
  let bytes ← (Hex.decode text).mapError .notHex
  match TxHash.ofBytes? bytes with
  | some hash => .ok hash
  | none => .error (.badHashLength bytes.length)

/-- The stake whose staking transaction a text names, with its hash. -/
def find (base : Registry) (d : Draft) (text : String) : Except RegistryError (TxHash × Stake) := do
  let hash ← hashOfText text
  match d.stake? base hash with
  | some s => .ok (hash, s)
  | none => .error (.delegationNotFound text)

/-- Records a slashing. -/
def slash (base : Registry) (d : Draft) (n : SlashNotice) : Except RegistryError Draft := do
  let (hash, s) ← d.find base n.stakingTx
  return d.putStake hash s.slash

/-- Records an unbonding. An active delegation begins to unbond with the delegator's signature
first. -/
def unbond (base : Registry) (d : Draft) (n : UnbondNotice) : Except RegistryError Draft := do
  let (hash, s) ← d.find base n.stakingTx
  let s ← if s.isActive then (s.beginUnbonding n.signature).mapError .staking else pure s
  return d.putStake hash s.unbond

/-! ## Packets -/

/-- Admits delegations one after the other, and counts the new ones. -/
def acceptAll (base : Registry) (d : Draft) : List Delegation → Except RegistryError (Nat × Draft)
  | [] => .ok (0, d)
  | candidate :: rest => do
    let (admission, d) ← d.accept base candidate
    let (count, d) ← acceptAll base d rest
    return (match admission with | .new _ => count + 1 | .known _ => count, d)

/-- Takes in the entries of a packet: providers, delegations, slashings, unbondings. The number is
that of the new delegations. -/
def ofPacket (base : Registry) (p : Packet) : Except RegistryError (Nat × Draft) := do
  let d ← p.providers.foldlM (register base) empty
  let (count, d) ← acceptAll base d p.delegations
  let d ← p.slashings.foldlM (slash base) d
  let d ← p.unbondings.foldlM (unbond base) d
  return (count, d)

end Draft

end Restaking
