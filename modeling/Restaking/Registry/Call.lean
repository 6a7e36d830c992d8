import Restaking.Address
import Restaking.Registry.Draft
import Restaking.Registry.Message

/-!
# Calls to the registry

A call reads and writes what the registry stores, and ends in a reply or an error. Writing takes
effect at once: what a call has written before it fails stays written. Setting up writes step by
step. Every command makes all its checks before its only write. Which addresses there are is up to
the host.
-/

namespace Restaking

/-- What a call reports when it succeeds. No call sends messages on. -/
structure Reply where
  /-- Names with values, in order. -/
  attributes : List (String × String)
  /-- Lines for the host's log. -/
  log : List String
  deriving DecidableEq

/-- A reply without lines for the log. -/
def Reply.ofAttributes (attributes : List (String × String)) : Reply := ⟨attributes, []⟩

/-- A call to the registry: what it stores carries over from step to step, and stays when a step
fails. -/
abbrev Call := ExceptT RegistryError (StateM Registry)

namespace Registry

/-- Makes a call on a registry. -/
def perform {α : Type} (r : Registry) (call : Call α) : Except RegistryError α × Registry :=
  Id.run (call.run.run r)

/-- A value that has to be stored. -/
def stored {α : Type} (part : Registry → Option α) : Call α := do
  match part (← get) with
  | some a => return a
  | none => throw .notStored

variable [AddressHost]

/-- Has the host check an address, if there is one. -/
def checkAddress : Option String → Except RegistryError Unit
  | none => .ok ()
  | some address => (AddressHost.check address).mapError .hostAddress

/-! ## Who may do what -/

/-- Demands that the caller is the admin. -/
def demandAdmin (sender : String) : Call Unit := do
  match (← get).admin with
  | none => throw .adminNotStored
  | some admin => attempt (demand (admin = some sender) .notAdmin)

/-- Demands that the caller may relay packets: the configured relayer may, and so may the admin. -/
def demandRelayer (sender : String) : Call Unit := do
  let config ← stored (·.config)
  if sender ≠ config.relayer then
    let admin ← stored (·.admin)
    attempt (demand (admin = some sender) .unauthorized)

/-! ## Setting up -/

/-- Sets the registry up. The caller becomes the relayer. -/
def setUp (sender : String) (hasFunds : Bool) (s : Setup) : Call Reply := do
  attempt (demand (hasFunds = false) .notPayable)
  modify fun r => { r with config := some ⟨sender⟩ }
  attempt (checkAddress s.admin)
  modify fun r => { r with admin := some s.admin }
  let params := s.params.getD .empty
  attempt params.check
  modify fun r => { r with params := r.params.insert 0 params }
  modify fun r => { r with info := some contractInfo }
  return .ofAttributes [("action", "instantiate")]

/-! ## Commands -/

/-- Changes the admin. The new address is checked before the caller is. -/
def updateAdmin (sender : String) (admin : Option String) : Call Reply := do
  attempt (checkAddress admin)
  demandAdmin sender
  modify fun r => { r with admin := some admin }
  return .ofAttributes
    [("action", "update_admin"), ("admin", admin.getD "None"), ("sender", sender)]

/-- Applies a packet, as a whole or not at all. -/
def relay (sender : String) (w : Wire.Packet) : Call Reply := do
  demandRelayer sender
  let p ← attempt ((Packet.ofWire w).mapError .staking)
  let base ← get
  let (admitted, draft) ← attempt (Draft.ofPacket base p)
  set (draft.commit base)
  let newProviders := Numeral.text p.providers.length
  let newDelegations := Numeral.text admitted
  return {
    attributes := [("action", "btc_staking"), ("new_fps", newProviders),
      ("active_dels", newDelegations), ("slashed_dels", Numeral.text p.slashings.length),
      ("unbonded_dels", Numeral.text p.unbondings.length)]
    log := ["btc staking packet applied: " ++ newProviders ++ " new fps, " ++ newDelegations
      ++ " new delegations"] }

/-- Adds a version of the staking parameters. -/
def addParams (sender : String) (params : StakingParams) : Call Reply := do
  demandAdmin sender
  attempt params.check
  let version ← attempt (← get).nextVersion
  modify fun r => { r with params := r.params.insert version params }
  return .ofAttributes
    [("action", "add_staking_params"), ("version", Numeral.text version.toNat)]

/-- Does what a command says. -/
def execute (sender : String) : Command → Call Reply
  | .updateAdmin admin => updateAdmin sender admin
  | .relay packet => relay sender packet
  | .addParams params => addParams sender params

/-! ## Calls of the host -/

/-- Takes notice of a message from the host. -/
def notify : HostMessage → Call Reply
  | .beginBlock block => do
    modify fun r => { r with lastBlock := some block }
    let height := Numeral.intText block.height.toInt
    return {
      attributes := [("action", "begin_block"), ("height", height)]
      log := ["begin block " ++ height ++ " (" ++ block.hash ++ ")"] }

/-- Moves the registry to a new version of the contract: there is nothing to do. -/
def migrate (_ : Migration) : Call Reply :=
  return .ofAttributes []

end Registry

end Restaking
