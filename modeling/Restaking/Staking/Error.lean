import Restaking.Text.Hex

/-!
# Errors of staking data

An entry of a packet is faulty by itself (`EntryError`), or what is to be done with it is not
possible (`StakingError`). Each error is a cause; its wording is one function on it.
-/

namespace Restaking

/-- The number of bytes of a public key. -/
def keyLength : Nat := 32

/-- The number of bytes of a transaction hash. -/
def hashLength : Nat := 32

/-- The greatest unbonding time in blocks, the bound of a relative time-lock. -/
def maxUnbondingTime : Nat := 65535

/-- What is wrong with an entry of a packet, or with a key. -/
inductive EntryError where
  /-- A text is not hexadecimal. -/
  | notHex (e : Hex.Error)
  /-- The text of a transaction hash has the wrong length. -/
  | badHashText
  /-- A key has the wrong length, or is not spelt in lowercase. -/
  | badKey (text : String)
  | emptyKey
  | emptySecretKey
  | emptyConsumer
  | noProviders
  | repeatedKey (key : String)
  | emptyStakingTx
  | emptySlashingTx
  | emptyUnbondingTx
  | missingUndelegation
  /-- An active delegation already carries the delegator's signature on the unbonding. -/
  | alreadySigned
  | badUnbondingTime (blocks : UInt32)
  | badTimeLock (start stop : UInt64)
  | emptyStake
  /-- A member's adaptor signatures are not one for each provider. -/
  | signatureCount (member : String) (found expected : Nat)
  | emptySignature
  deriving DecidableEq

/-- The wording of an error. -/
def EntryError.message : EntryError → String
  | .notHex e => e.message
  | .badHashText =>
    "Staking tx hash hex string is not " ++ Numeral.text (2 * hashLength) ++ " chars long"
  | .badKey text =>
    "Invalid Btc public key " ++ text ++ ": expected " ++ Numeral.text keyLength
      ++ " bytes in lowercase hex"
  | .emptyKey => "Empty Btc public key"
  | .emptySecretKey => "Empty Btc private key"
  | .emptyConsumer => "Empty consumer id"
  | .noProviders => "No Finality Providers Btc public keys"
  | .repeatedKey key => "Duplicate Finality Provider Btc public key: " ++ key
  | .emptyStakingTx => "Empty Staking tx"
  | .emptySlashingTx => "Empty Slashing tx"
  | .emptyUnbondingTx => "Empty Unbonding tx"
  | .missingUndelegation => "Missing undelegation info"
  | .alreadySigned => "unexpected delegator unbonding signature in active delegation"
  | .badUnbondingTime blocks =>
    "Invalid unbonding time blocks: " ++ Numeral.text blocks.toNat ++ ", max: "
      ++ Numeral.text maxUnbondingTime
  | .badTimeLock start stop =>
    "Invalid time-lock range: start height " ++ Numeral.text start.toNat
      ++ " is not lower than end height " ++ Numeral.text stop.toNat
  | .emptyStake => "Empty staking amount"
  | .signatureCount member found expected =>
    "Covenant " ++ member ++ " has " ++ Numeral.text found ++ " adaptor signatures, expected "
      ++ Numeral.text expected
  | .emptySignature => "Empty signature from the delegator"

/-- The stages of a delegation's life. -/
inductive Stage where
  | active
  | unbonding
  | slashed
  | unbonded
  deriving DecidableEq

/-- The name of a stage. -/
def Stage.name : Stage → String
  | .active => "active"
  | .unbonding => "unbonding"
  | .slashed => "slashed"
  | .unbonded => "unbonded"

/-- Why staking data is refused. -/
inductive StakingError where
  /-- An entry is faulty. -/
  | entry (e : EntryError)
  /-- A commission is no decimal, or above one. -/
  | badCommission (text : String)
  /-- A provider is registered twice for a consumer. -/
  | repeatedProvider (consumer key : String)
  /-- An entry about a delegation is faulty. -/
  | malformed (e : EntryError)
  /-- Too few members of the covenant committee have signed. -/
  | quorumNotMet (signers : Nat) (quorum : UInt32)
  /-- Only an active delegation begins to unbond. -/
  | cannotUnbond (stage : Stage)
  /-- A field that the wire form demands is empty. -/
  | emptyField (field : String)
  /-- A message is no packet. -/
  | unreadable
  deriving DecidableEq

/-- The wording of an error; a message that cannot be read has none of its own. -/
def StakingError.message? : StakingError → Option String
  | .entry e => some e.message
  | .badCommission text =>
    some ("Invalid commission rate: " ++ text ++ ", expected a decimal in [0, 1]")
  | .repeatedProvider consumer key =>
    some ("Finality provider " ++ key ++ " is already registered on consumer " ++ consumer)
  | .malformed e => some ("Malformed BTC delegation: " ++ e.message)
  | .quorumNotMet signers quorum =>
    some ("Covenant quorum not met: " ++ Numeral.text signers ++ " distinct signers, quorum is "
      ++ Numeral.text quorum.toNat)
  | .cannotUnbond stage =>
    some ("Illegal transition begin_unbonding for a " ++ stage.name ++ " BTC delegation")
  | .emptyField field => some ("Encoding error: empty " ++ field)
  | .unreadable => none

end Restaking
