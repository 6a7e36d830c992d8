import Restaking.Decimal
import Restaking.Staking.Entry

/-!
# Finality providers

A provider is announced by a registration, in which the commission is still a text, and kept as a
`Provider`, in which it is a decimal. A provider is known by its consumer and its key.
-/

namespace Restaking

/-- What a provider says about itself. -/
structure Profile where
  moniker : String
  identity : String
  website : String
  securityContact : String
  details : String
  deriving DecidableEq

/-- A compressed public key on the provider chain. -/
structure ChainKey where
  key : Bytes
  deriving DecidableEq

/-- The proof that the two keys of a provider have one owner. -/
structure Possession where
  /-- The kind of the second signature. -/
  kind : Int32
  chainSignature : Bytes
  btcSignature : Bytes
  deriving DecidableEq

/-- The announcement of a provider. -/
structure Registration where
  profile : Option Profile
  /-- The commission as a decimal text. -/
  commission : String
  chainKey : Option ChainKey
  /-- The public key. -/
  key : String
  possession : Option Possession
  /-- The consumer that the provider works for. -/
  consumer : String
  deriving DecidableEq

/-- A registered provider. -/
structure Provider where
  profile : Option Profile
  commission : Decimal
  chainKey : Option ChainKey
  /-- The public key. -/
  key : String
  possession : Option Possession
  /-- The consumer that the provider works for. -/
  consumer : String
  deriving DecidableEq

/-! ## Identity -/

/-- What tells providers apart: one key may serve several consumers. -/
structure ProviderId where
  consumer : String
  key : String
  deriving DecidableEq

/-- Providers are ordered by their consumers, and those of one consumer by their keys. -/
instance : Ord ProviderId := ⟨compareLex (compareOn ProviderId.consumer) (compareOn ProviderId.key)⟩

instance : Std.TransOrd ProviderId :=
  inferInstanceAs (Std.TransCmp (compareLex (compareOn ProviderId.consumer) (compareOn ProviderId.key)))

instance : Std.LawfulEqOrd ProviderId where
  eq_of_compare {p q} h := by
    obtain ⟨c, k⟩ := p
    obtain ⟨c', k'⟩ := q
    obtain ⟨hc, hk⟩ : compare c c' = .eq ∧ compare k k' = .eq := by
      simpa [compare, compareLex, compareOn, Ordering.then_eq_eq] using h
    rw [Std.LawfulEqCmp.compare_eq_iff_eq.1 hc, Std.LawfulEqCmp.compare_eq_iff_eq.1 hk]

/-- What a provider is known by. -/
def Provider.id (p : Provider) : ProviderId := ⟨p.consumer, p.key⟩

/-! ## Commissions -/

/-- Checks that a commission is at most one. -/
def checkCommission (rate : Decimal) : Except StakingError Unit :=
  demand (rate.units ≤ Decimal.unitsPerOne) (.badCommission rate.text)

/-- The commission that a text denotes. A text that is no decimal is quoted as it is, and a decimal
above one by its value. -/
def commissionOfText (text : String) : Except StakingError Decimal :=
  match Decimal.ofText? text with
  | none => .error (.badCommission text)
  | some rate => do
    checkCommission rate
    return rate

/-! ## Checks and conversions -/

/-- Checks the key and that there is a consumer. -/
def Registration.check (r : Registration) : Except EntryError Unit := do
  Key.check r.key
  demand (r.consumer ≠ "") .emptyConsumer

/-- Checks the commission, the key and that there is a consumer. -/
def Provider.check (p : Provider) : Except StakingError Unit := do
  checkCommission p.commission
  (Key.check p.key).mapError .entry
  demand (p.consumer ≠ "") (.entry .emptyConsumer)

/-- The provider that a registration announces. -/
def Provider.ofRegistration (r : Registration) : Except StakingError Provider := do
  r.check.mapError .entry
  let commission ← commissionOfText r.commission
  return {
    profile := r.profile
    commission
    chainKey := r.chainKey
    key := r.key
    possession := r.possession
    consumer := r.consumer }

/-- The registration that announces a provider. -/
def Provider.toRegistration (p : Provider) : Registration where
  profile := p.profile
  commission := p.commission.text
  chainKey := p.chainKey
  key := p.key
  possession := p.possession
  consumer := p.consumer

/-! ## JSON forms

A registration leaves out what is absent; a provider writes `null` for it. -/

open Json (field fieldIfAny fieldOrNull)

instance : JsonForm Profile where
  toJson p := .obj (field "moniker" p.moniker ++ field "identity" p.identity
    ++ field "website" p.website ++ field "security_contact" p.securityContact
    ++ field "details" p.details)
  ofJson? v := do
    let ms ← v.members?
    return {
      moniker := ← ms.required? "moniker"
      identity := ← ms.required? "identity"
      website := ← ms.required? "website"
      securityContact := ← ms.required? "security_contact"
      details := ← ms.required? "details" }

instance : JsonForm ChainKey where
  toJson k := .obj (field "key" k.key)
  ofJson? v := do
    let ms ← v.members?
    return { key := ← ms.required? "key" }

instance : JsonForm Possession where
  toJson p := .obj (field "btc_sig_type" p.kind ++ field "babylon_sig" p.chainSignature
    ++ field "btc_sig" p.btcSignature)
  ofJson? v := do
    let ms ← v.members?
    return {
      kind := ← ms.required? "btc_sig_type"
      chainSignature := ← ms.required? "babylon_sig"
      btcSignature := ← ms.required? "btc_sig" }

instance : JsonForm Registration where
  toJson r := .obj (fieldIfAny "description" r.profile ++ field "commission" r.commission
    ++ fieldIfAny "babylon_pk" r.chainKey ++ field "btc_pk_hex" r.key
    ++ fieldIfAny "pop" r.possession ++ field "consumer_id" r.consumer)
  ofJson? v := do
    let ms ← v.members?
    return {
      profile := ← ms.optional? "description"
      commission := ← ms.required? "commission"
      chainKey := ← ms.optional? "babylon_pk"
      key := ← ms.required? "btc_pk_hex"
      possession := ← ms.optional? "pop"
      consumer := ← ms.required? "consumer_id" }

instance : JsonForm Provider where
  toJson p := .obj (fieldOrNull "description" p.profile ++ field "commission" p.commission
    ++ fieldOrNull "consensus_pk" p.chainKey ++ field "btc_pk_hex" p.key
    ++ fieldOrNull "pop" p.possession ++ field "consumer_id" p.consumer)
  ofJson? v := do
    let ms ← v.members?
    return {
      profile := ← ms.optional? "description"
      commission := ← ms.required? "commission"
      chainKey := ← ms.optional? "consensus_pk"
      key := ← ms.required? "btc_pk_hex"
      possession := ← ms.optional? "pop"
      consumer := ← ms.required? "consumer_id" }

end Restaking
