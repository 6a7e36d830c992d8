import Restaking.Block
import Restaking.Registry.Params
import Restaking.Staking.Packet
import Restaking.Table

/-!
# What the registry stores

The registry keeps the relayer that was configured, its admin, the staking parameters by version,
the providers, the delegations by the hash of their staking transaction, and the last block that it
was told about. Before it is set up, it keeps nothing.

Every part is a value of its type, and not the text that the host keeps for it. So a part can be
missing, but a text that is no value of the type cannot be stored, and the error of reading such a
text never occurs. The registry itself saves nothing but values, and the parameters, providers,
stakes and notices that it saves are read back as they were (see `Storage`).
-/

namespace Restaking

/-- The configuration. -/
structure Config where
  /-- The address that may relay packets, besides the admin. -/
  relayer : String
  deriving DecidableEq

/-- The name and version of the contract that set a registry up. -/
structure ContractInfo where
  name : String
  version : String
  deriving DecidableEq

/-- What the registry stores. -/
structure Registry where
  config : Option Config
  /-- The admin once it was set; a registry may be set to have none. -/
  admin : Option (Option String)
  params : Table UInt32 StakingParams
  providers : Table ProviderId Provider
  stakes : Table TxHash Stake
  lastBlock : Option BlockNotice
  info : Option ContractInfo

namespace Registry

/-- The registry before it is set up. -/
def empty : Registry where
  config := none
  admin := none
  params := .empty
  providers := .empty
  stakes := .empty
  lastBlock := none
  info := none

/-- The contract that this library is the registry of. -/
def contractInfo : ContractInfo := ⟨"btc-staking", "0.5.0"⟩

/-- The staking parameters of a version. -/
def paramsOf (r : Registry) (version : UInt32) : Except RegistryError StakingParams :=
  match r.params.get? version with
  | some p => .ok p
  | none => .error (.paramsNotFound version)

/-- The version after the last one. The greatest version has none after it. -/
def nextVersion (r : Registry) : Except RegistryError UInt32 :=
  match r.params.last? with
  | some (version, _) =>
    if version.toNat + 1 < UInt32.size then .ok (version + 1) else .error .versionsExhausted
  | none => .ok 0

/-- The hashes of all delegations with the stages that they have reached. -/
def stages (r : Registry) : List (TxHash × Stage) :=
  r.stakes.entries.map fun e => (e.1, e.2.stage)

end Registry

instance : JsonForm Config where
  toJson c := .obj (Json.field "babylon" c.relayer)
  ofJson? v := do
    let ms ← v.members?
    return { relayer := ← ms.required? "babylon" }

end Restaking
