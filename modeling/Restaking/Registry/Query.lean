import Restaking.Registry.Draft
import Restaking.Registry.Message

/-!
# Queries

Lists are answered page by page. A page starts after a given key and holds ten entries, or as many
as asked for, but no more than thirty.
-/

namespace Restaking.Registry

/-- The number of entries of a page that asks for no number. -/
def defaultPageSize : UInt32 := 10

/-- The greatest number of entries of a page. -/
def maxPageSize : Nat := 30

/-- The number of entries that a page may have. -/
def pageSize (limit : Option UInt32) : Nat :=
  min (limit.getD defaultPageSize).toNat maxPageSize

/-- What is stored, or the error that nothing is. -/
def orNotStored {α : Type} : Option α → Except RegistryError α
  | some a => .ok a
  | none => .error .notStored

/-- The staking parameters of a version, or the latest. -/
def paramsAnswer (r : Registry) : Option UInt32 → Except RegistryError StakingParams
  | some version => r.paramsOf version
  | none =>
    match r.params.last? with
    | some (_, params) => .ok params
    | none => .error (.paramsNotFound 0)

/-- The first providers of a consumer, in the order of their keys, after the given key. -/
def providerPage (r : Registry) (consumer : String) (after : Option String)
    (limit : Option UInt32) : ProviderPage where
  providers :=
    (r.providers.entries.filter fun e =>
      e.1.consumer = consumer ∧ ∀ bound ∈ after, compare bound e.1.key = .lt).map (·.2)
      |>.take (pageSize limit)

/-- The delegation whose staking transaction has the given hash. -/
def stakeAnswer (r : Registry) (hash : String) : Except RegistryError Stake := do
  match r.stakes.get? (← Draft.hashOfText hash) with
  | some s => return s
  | none => .error (.delegationNotFound hash)

/-- The first delegations, in the order of their hashes, after the given hash. -/
def stakePage (r : Registry) (after : Option TxHash) (limit : Option UInt32) (activeOnly : Bool) :
    StakePage where
  stakes :=
    ((r.stakes.above after).map (·.2)).filter (fun s => !activeOnly || s.isActive)
      |>.take (pageSize limit)

/-- Answers a query. -/
def query (r : Registry) : Query → Except RegistryError Answer
  | .config => return .config (← orNotStored r.config)
  | .params version => return .params (← r.paramsAnswer version)
  | .admin => return .admin (← orNotStored r.admin)
  | .provider consumer key => return .provider (← orNotStored (r.providers.get? ⟨consumer, key⟩))
  | .providers consumer after limit => return .providers (r.providerPage consumer after limit)
  | .stake hash => return .stake (← r.stakeAnswer hash)
  | .stakes after limit activeOnly => do
    let after ← after.mapM Draft.hashOfText
    return .stakes (r.stakePage after limit (activeOnly.getD false))
  | .lastBlock => return .lastBlock r.lastBlock

end Restaking.Registry
