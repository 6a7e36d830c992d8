import Restaking.Json.Form
import Restaking.Staking.Key

/-!
# Signatures and notices

The parts of a packet that carry signatures: those of covenant members on a delegation, and the
notices that a delegation was slashed or has unbonded.
-/

namespace Restaking

/-- The adaptor signatures of a covenant member, one for each provider of a delegation. -/
structure AdaptorSignatures where
  /-- The member's key. -/
  signer : String
  signatures : List Bytes
  deriving DecidableEq

/-- The signature of a covenant member. -/
structure MemberSignature where
  /-- The member's key. -/
  signer : String
  signature : Bytes
  deriving DecidableEq

/-- The notice that a delegation was slashed. -/
structure SlashNotice where
  /-- The hash of the staking transaction, in hexadecimal. -/
  stakingTx : String
  /-- The secret key of the provider whose fault it was. -/
  recoveredKey : String
  deriving DecidableEq

/-- The notice that a delegation has unbonded early. -/
structure UnbondNotice where
  /-- The hash of the staking transaction, in hexadecimal. -/
  stakingTx : String
  /-- The delegator's signature on the unbonding transaction. -/
  signature : Bytes
  deriving DecidableEq

/-! ## Checks -/

/-- Checks the key and that no signature is empty. -/
def AdaptorSignatures.check (s : AdaptorSignatures) : Except EntryError Unit := do
  Key.check s.signer
  demand (∀ signature ∈ s.signatures, signature ≠ []) .emptySignature

/-- Checks that there is one signature for each of the providers as well. -/
def AdaptorSignatures.checkFor (providers : Nat) (s : AdaptorSignatures) :
    Except EntryError Unit := do
  s.check
  demand (s.signatures.length = providers)
    (.signatureCount s.signer s.signatures.length providers)

/-- Checks the key and that the signature is not empty. -/
def MemberSignature.check (s : MemberSignature) : Except EntryError Unit := do
  Key.check s.signer
  demand (s.signature ≠ []) .emptySignature

/-- Checks that a text is the hexadecimal text of a transaction hash, in either letter case. -/
def checkHashText (text : String) : Except EntryError Unit :=
  if text.utf8ByteSize = 2 * hashLength then
    match Hex.decode text with
    | .error e => .error (.notHex e)
    | .ok _ => .ok ()
  else .error .badHashText

/-- Checks the hash and that there is a key. -/
def SlashNotice.check (n : SlashNotice) : Except EntryError Unit := do
  checkHashText n.stakingTx
  demand (n.recoveredKey ≠ "") .emptySecretKey

/-- Checks the hash and that there is a signature. -/
def UnbondNotice.check (n : UnbondNotice) : Except EntryError Unit := do
  checkHashText n.stakingTx
  demand (n.signature ≠ []) .emptySignature

/-! ## Counting signers -/

/-- The number of different texts in a list. -/
def countDistinct : List String → Nat
  | [] => 0
  | text :: rest => (if text ∈ rest then 0 else 1) + countDistinct rest

/-- The number of members that have signed, however often each of them occurs. -/
def signerCount (signatures : List AdaptorSignatures) : Nat :=
  countDistinct (signatures.map (·.signer))

/-! ## JSON forms -/

open Json (field)

instance : JsonForm AdaptorSignatures where
  toJson s := .obj (field "cov_pk" s.signer ++ field "adaptor_sigs" s.signatures)
  ofJson? v := do
    let ms ← v.members?
    return { signer := ← ms.required? "cov_pk", signatures := ← ms.required? "adaptor_sigs" }

instance : JsonForm MemberSignature where
  toJson s := .obj (field "pk" s.signer ++ field "sig" s.signature)
  ofJson? v := do
    let ms ← v.members?
    return { signer := ← ms.required? "pk", signature := ← ms.required? "sig" }

instance : JsonForm SlashNotice where
  toJson n := .obj (field "staking_tx_hash" n.stakingTx ++ field "recovered_fp_btc_sk" n.recoveredKey)
  ofJson? v := do
    let ms ← v.members?
    return {
      stakingTx := ← ms.required? "staking_tx_hash"
      recoveredKey := ← ms.required? "recovered_fp_btc_sk" }

instance : JsonForm UnbondNotice where
  toJson n := .obj (field "staking_tx_hash" n.stakingTx ++ field "unbonding_tx_sig" n.signature)
  ofJson? v := do
    let ms ← v.members?
    return {
      stakingTx := ← ms.required? "staking_tx_hash"
      signature := ← ms.required? "unbonding_tx_sig" }

end Restaking
