import Restaking.Staking.Error

/-!
# Errors of the registry

Why a call to the registry fails. The wording of an error is one function on it; an error about
something that was never stored, or about versions that have run out, has no wording of its own.
-/

namespace Restaking

/-- Why a call to the registry fails. -/
inductive RegistryError where
  /-- Nothing is stored where something is asked for. -/
  | notStored
  /-- The host refuses an address, and says why. -/
  | hostAddress (wording : String)
  /-- Funds came with a call that takes none. -/
  | notPayable
  | notAdmin
  /-- The caller should be the admin, but no admin was ever set. -/
  | adminNotStored
  /-- The text of a transaction hash is not hexadecimal. -/
  | notHex (e : Hex.Error)
  /-- A transaction hash has the wrong number of bytes. -/
  | badHashLength (length : Nat)
  /-- A key of a covenant committee is faulty. -/
  | entry (e : EntryError)
  /-- Staking data is refused. -/
  | staking (e : StakingError)
  /-- The caller may not relay packets. -/
  | unauthorized
  /-- Another delegator's delegation has the same staking transaction. -/
  | delegationExists (hash : String)
  | delegationNotFound (hash : String)
  | paramsNotFound (version : UInt32)
  /-- The staking parameters have reached the greatest version. -/
  | versionsExhausted
  /-- A committee is too small for its quorum. -/
  | badQuorum (quorum : UInt32) (members : Nat)
  /-- A signer is not on the committee. -/
  | notAMember (key : String)
  deriving DecidableEq

/-- The wording of an error. -/
def RegistryError.message? : RegistryError → Option String
  | .notStored => none
  | .hostAddress wording => some wording
  | .notPayable => some "This message does no accept funds"
  | .notAdmin => some "Caller is not admin"
  | .adminNotStored => none
  | .notHex e => some e.message
  | .badHashLength length => some ("The hash length is invalid: " ++ Numeral.text length)
  | .entry e => some e.message
  | .staking e => e.message?
  | .unauthorized => some "Unauthorized"
  | .delegationExists hash => some ("Staking tx hash already exists: " ++ hash)
  | .delegationNotFound hash => some ("Delegation not found: " ++ hash)
  | .paramsNotFound version =>
    some ("BTC staking params version " ++ Numeral.text version.toNat ++ " not found")
  | .versionsExhausted => none
  | .badQuorum quorum members =>
    some ("Covenant quorum " ++ Numeral.text quorum.toNat ++ " is invalid for a committee of "
      ++ Numeral.text members ++ " members")
  | .notAMember key => some ("Covenant " ++ key ++ " is not a member of the covenant committee")

end Restaking
