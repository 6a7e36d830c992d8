import Restaking.Staking.Packet

/-!
# Sample data

Keys, transactions and signatures derived from small seeds, for trying things out. Equal seeds give
equal data. The data is well-formed, but means nothing on the Bitcoin chain.
-/

namespace Restaking.Fixture

/-- The blocks of an endless byte stream: digests of the domain, the seed and a counter. -/
def blocks (domain : String) (seed : UInt8) (counter : Nat) : Nat → Bytes
  | 0 => []
  | count + 1 =>
    Sha256.digest (Utf8.encode domain ++ seed :: Sha256.wordBytes (UInt32.ofNat counter))
      ++ blocks domain seed (counter + 1) count

/-- The first bytes of the stream of a domain and a seed. -/
def derive (domain : String) (seed : UInt8) (length : Nat) : Bytes :=
  (blocks domain seed 0 ((length + 31) / 32)).take length

/-- A public key. -/
def key (seed : UInt8) : String := Hex.encode (derive "btc_pk" seed 32)

/-- The keys of a committee; from the 257th on they repeat. -/
def committee (size : Nat) : List String :=
  (List.range size).map fun i => Hex.encode (derive "covenant_pk" (UInt8.ofNat i) 32)

/-- The registration of a provider. -/
def registration (seed : UInt8) (consumer : String) : Registration where
  profile := some {
    moniker := "fp" ++ Numeral.text seed.toNat
    identity := "Finality Provider " ++ Numeral.text seed.toNat
    website := "https://fp" ++ Numeral.text seed.toNat ++ ".com"
    securityContact := "security_contact"
    details := "details" }
  commission := "0.05"
  chainKey := some { key := derive "babylon_pk" seed 33 }
  key := key seed
  possession := some {
    kind := 0
    chainSignature := derive "babylon_sig" seed 64
    btcSignature := derive "btc_sig" seed 64 }
  consumer

/-- The adaptor signatures of committee members for that many providers. -/
def adaptorSignatures (domain : String) (signers : List String) (providers : Nat) :
    List AdaptorSignatures :=
  signers.mapIdx fun i signer =>
    { signer
      signatures := (List.range providers).map fun j => derive domain (UInt8.ofNat (i * 16 + j)) 65 }

/-- A delegation that has become active. -/
def delegation (seed : UInt8) (providers signers : List String) : Wire.Delegation where
  delegator := key seed
  providers
  startHeight := 1
  endHeight := 1000
  totalSat := 10000
  stakingTx := derive "staking_tx" seed 94
  slashingTx := derive "slashing_tx" seed 120
  slashingSignature := derive "delegator_slashing_sig" seed 64
  memberSignatures := adaptorSignatures "covenant_sig" signers providers.length
  outputIndex := 0
  unbondingTime := 101
  undelegation := some {
    unbondingTx := derive "unbonding_tx" seed 94
    memberSignatures := signers.mapIdx fun i signer =>
      { signer, signature := derive "covenant_unbonding_sig" (UInt8.ofNat i) 64 }
    slashingTx := derive "unbonding_slashing_tx" seed 120
    slashingSignature := derive "delegator_unbonding_slashing_sig" seed 64
    memberSlashingSignatures := adaptorSignatures "covenant_slashing_sig" signers providers.length
    delegatorSignature := none }
  paramsVersion := 0

end Restaking.Fixture
