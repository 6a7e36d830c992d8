import Restaking.Bech32.Text

/-!
# Account addresses

An account is known by its bytes, 1 to 255 of them, and its address is their bech32 text under the
human-readable part of the chain. Reading (`decode`) wants that part in the letter case of the
chain's own spelling, the first checksum variant, and no bits beyond the bytes.
-/

namespace Restaking.Address

/-- Why a text is no address. -/
inductive Error where
  /-- The text is not bech32. -/
  | bech32 (e : Bech32.Error)
  | wrongHrp
  | wrongVariant
  | badData
  | badLength
  deriving DecidableEq

/-- What is wrong with the address. -/
def Error.reason : Error → String
  | .bech32 e => e.message
  | .wrongHrp => "wrong bech32 prefix"
  | .wrongVariant => "wrong bech32 variant"
  | .badData => "invalid bech32 data"
  | .badLength => "Invalid canonical address length"

/-- The wording of an error. -/
def Error.message (e : Error) : String :=
  "Invalid address: " ++ e.reason

/-- The greatest number of bytes of an account. -/
def maxLength : Nat := 255

/-- Whether an account can have that many bytes. -/
def IsLength (n : Nat) : Prop := 1 ≤ n ∧ n ≤ maxLength

instance (n : Nat) : Decidable (IsLength n) := inferInstanceAs (Decidable (_ ∧ _))

/-- The bytes of the account that an address names on the chain with the given part. -/
def decode (text hrp : String) : Except Error Bytes := do
  let d ← (Bech32.decode text).mapError .bech32
  if d.hrp ≠ hrp then .error .wrongHrp
  else if d.variant ≠ .bech32 then .error .wrongVariant
  else
    match Bech32.bytesOfWords? d.words with
    | none => .error .badData
    | some bytes => if IsLength bytes.length then .ok bytes else .error .badLength

/-- The address of bytes under a human-readable part. -/
def encode (bytes : Bytes) (hrp : String) : Except Error String :=
  (Bech32.encode hrp (Bech32.wordsOfBytes bytes)).mapError .bech32

/-! ## The unset account -/

/-- The account of twenty zero bytes, which stands for no account. -/
def unset : Bytes := List.replicate 20 0

/-- The address of the unset account. -/
def ofUnset (hrp : String) : Except Error String :=
  encode unset hrp

/-- Whether a text is the address of the unset account, in either letter case. -/
def isUnset (text hrp : String) : Bool :=
  match decode text hrp with
  | .ok bytes => bytes = unset
  | .error _ => false

end Restaking.Address

/-! ## Addresses that a host checks

The registry leaves it to its host which addresses there are.
-/

namespace Restaking

/-- A host that checks addresses. An address that passes is used as it is given. -/
class AddressHost where
  /-- Checks an address. If the host refuses it, it says why. -/
  check (address : String) : Except String Unit

namespace Address.Host

/-! One such host knows accounts under one human-readable part. It accepts the one text that it
would write itself: bits beyond the bytes or uppercase letters make an address that is read, but is
not the normal one. -/

/-- Why the host refuses an address. -/
inductive Error where
  | notBech32
  | wrongHrp
  | badLength
  | notNormal
  deriving DecidableEq

/-- The wording of an error. -/
def Error.message : Error → String
  | .notBech32 => "Generic error: Error decoding bech32"
  | .wrongHrp => "Generic error: Wrong bech32 prefix"
  | .badLength => "Generic error: Invalid canonical address length"
  | .notNormal => "Generic error: Invalid input: address not normalized"

/-- The human-readable part of the host's accounts. -/
def hrp : String := "cosmwasm"

/-- The greatest length of a text that the host reads. -/
def maxTextLength : Nat := 1023

/-- What a text says, if it is bech32 of the first variant and not too long. -/
def read (text : String) : Except Error Bech32.Decoded :=
  match Bech32.decode text with
  | .error _ => .error .notBech32
  | .ok d =>
    if d.variant = .bech32 ∧ text.length ≤ maxTextLength then .ok d else .error .notBech32

/-- Checks that a text is the normal address of an account. -/
def check (text : String) : Except Error Unit := do
  let d ← read text
  let bytes := (Bech32.bytesOfWords d.words).1
  if d.hrp ≠ hrp then .error .wrongHrp
  else if ¬ IsLength bytes.length then .error .badLength
  else if (Address.encode bytes hrp).toOption ≠ some text then .error .notNormal
  else .ok ()

/-- The rules of this host. -/
@[reducible] def rules : AddressHost where
  check text := (check text).mapError Error.message

end Address.Host

end Restaking
