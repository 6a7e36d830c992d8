import Restaking.Registry.State

/-!
# Messages to the registry

What a registry is set up with, what it can be told to do, and what it can be asked.
-/

namespace Restaking

/-- What a registry is set up with. -/
structure Setup where
  /-- The parameters of version zero. -/
  params : Option StakingParams
  admin : Option String
  deriving DecidableEq

/-- What a registry can be told to do. -/
inductive Command where
  /-- Change the admin. -/
  | updateAdmin (admin : Option String)
  /-- Apply a packet from the provider chain. -/
  | relay (packet : Wire.Packet)
  /-- Add a version of the staking parameters. -/
  | addParams (params : StakingParams)
  deriving DecidableEq

/-- What a registry is told when it moves to a new version of the contract: nothing. -/
structure Migration where
  deriving DecidableEq

/-- What a registry can be asked. -/
inductive Query where
  | config
  /-- The parameters of a version, or the latest. -/
  | params (version : Option UInt32)
  | admin
  | provider (consumer key : String)
  /-- The providers of a consumer whose keys come after one. -/
  | providers (consumer : String) (after : Option String) (limit : Option UInt32)
  /-- The delegation whose staking transaction has a hash. -/
  | stake (hash : String)
  /-- The delegations whose hashes come after one, or the active ones among them. -/
  | stakes (after : Option String) (limit : Option UInt32) (activeOnly : Option Bool)
  | lastBlock
  deriving DecidableEq

/-- A page of providers. -/
structure ProviderPage where
  providers : List Provider
  deriving DecidableEq

/-- A page of delegations. -/
structure StakePage where
  stakes : List Stake
  deriving DecidableEq

/-- What the registry answers. -/
inductive Answer where
  | config (config : Config)
  | params (params : StakingParams)
  | admin (admin : Option String)
  | provider (provider : Provider)
  | providers (page : ProviderPage)
  | stake (stake : Stake)
  | stakes (page : StakePage)
  | lastBlock (block : Option BlockNotice)
  deriving DecidableEq

/-! ## JSON forms -/

open Json (field fieldOrNull variant)

instance : JsonForm Setup where
  toJson s := .obj (fieldOrNull "params" s.params ++ fieldOrNull "admin" s.admin)
  ofJson? v := do
    let ms ← v.members?
    return { params := ← ms.optional? "params", admin := ← ms.optional? "admin" }

/-- The lists of a packet stand in the command itself; those that are absent are empty. -/
instance : JsonForm Command where
  toJson
    | .updateAdmin admin => variant "update_admin" (.obj (fieldOrNull "admin" admin))
    | .relay packet =>
      variant "btc_staking" (.obj (field "new_fp" packet.registrations
        ++ field "active_del" packet.delegations ++ field "slashed_del" packet.slashings
        ++ field "unbonded_del" packet.unbondings))
    | .addParams params => variant "add_staking_params" (.obj (field "params" params))
  ofJson? v := do
    match ← v.variant? with
    | ("update_admin", v) => return .updateAdmin (← (← v.members?).optional? "admin")
    | ("btc_staking", v) =>
      let ms ← v.members?
      return .relay {
        registrations := ← ms.withDefault? "new_fp" []
        delegations := ← ms.withDefault? "active_del" []
        slashings := ← ms.withDefault? "slashed_del" []
        unbondings := ← ms.withDefault? "unbonded_del" [] }
    | ("add_staking_params", v) => return .addParams (← (← v.members?).required? "params")
    | _ => none

instance : JsonForm Migration where
  toJson _ := .obj []
  ofJson? v := do
    let _ ← v.members?
    return {}

instance : JsonForm Query where
  toJson
    | .config => variant "config" (.obj [])
    | .params version => variant "params" (.obj (fieldOrNull "version" version))
    | .admin => variant "admin" (.obj [])
    | .provider consumer key =>
      variant "finality_provider" (.obj (field "consumer_id" consumer ++ field "btc_pk_hex" key))
    | .providers consumer after limit =>
      variant "finality_providers" (.obj (field "consumer_id" consumer
        ++ fieldOrNull "start_after" after ++ fieldOrNull "limit" limit))
    | .stake hash => variant "delegation" (.obj (field "staking_tx_hash_hex" hash))
    | .stakes after limit activeOnly =>
      variant "delegations" (.obj (fieldOrNull "start_after" after ++ fieldOrNull "limit" limit
        ++ fieldOrNull "active" activeOnly))
    | .lastBlock => variant "last_block" (.obj [])
  ofJson? v := do
    let (name, v) ← v.variant?
    let ms ← v.members?
    match name with
    | "config" => return .config
    | "params" => return .params (← ms.optional? "version")
    | "admin" => return .admin
    | "finality_provider" =>
      return .provider (← ms.required? "consumer_id") (← ms.required? "btc_pk_hex")
    | "finality_providers" =>
      return .providers (← ms.required? "consumer_id") (← ms.optional? "start_after")
        (← ms.optional? "limit")
    | "delegation" => return .stake (← ms.required? "staking_tx_hash_hex")
    | "delegations" =>
      return .stakes (← ms.optional? "start_after") (← ms.optional? "limit")
        (← ms.optional? "active")
    | "last_block" => return .lastBlock
    | _ => none

instance : JsonForm ProviderPage where
  toJson p := .obj (field "fps" p.providers)
  ofJson? v := do
    let ms ← v.members?
    return { providers := ← ms.required? "fps" }

instance : JsonForm StakePage where
  toJson p := .obj (field "delegations" p.stakes)
  ofJson? v := do
    let ms ← v.members?
    return { stakes := ← ms.required? "delegations" }

/-- The JSON value of an answer. -/
def Answer.toJson : Answer → Json
  | .config c => JsonForm.toJson c
  | .params p => JsonForm.toJson p
  | .admin a => .obj (fieldOrNull "admin" a)
  | .provider p => JsonForm.toJson p
  | .providers page => JsonForm.toJson page
  | .stake s => JsonForm.toJson s
  | .stakes page => JsonForm.toJson page
  | .lastBlock none => .null
  | .lastBlock (some block) => JsonForm.toJson block

end Restaking
