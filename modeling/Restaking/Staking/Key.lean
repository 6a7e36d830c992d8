import Restaking.Check
import Restaking.Staking.Error

/-!
# Public keys

A public key is 32 bytes, known by their lowercase hexadecimal text. Keys are compared as texts,
so only that one spelling is accepted.
-/

namespace Restaking.Key

/-- Checks that a text is the spelling of a key. -/
def check (text : String) : Except EntryError Unit :=
  if text = "" then .error .emptyKey
  else
    match Hex.decode text with
    | .error e => .error (.notHex e)
    | .ok bytes => demand (bytes.length = keyLength ∧ Hex.encode bytes = text) (.badKey text)

/-- Checks keys that must differ from each other and from those seen before. -/
def checkDistinct (seen : List String) : List String → Except EntryError Unit
  | [] => .ok ()
  | key :: rest => do
    check key
    demand (key ∉ seen) (.repeatedKey key)
    checkDistinct (key :: seen) rest

end Restaking.Key
