import Restaking.Sha256
import Restaking.Staking.Error

/-!
# Transaction hashes

A transaction is known by the double SHA-256 of its bytes in reverse order. Hashes are ordered as
rows of bytes.
-/

namespace Restaking

/-- The hash of a transaction: 32 bytes. -/
structure TxHash where
  bytes : Bytes
  length_bytes : bytes.length = hashLength
  deriving DecidableEq

namespace TxHash

instance : Ord TxHash := ⟨compareOn TxHash.bytes⟩

instance : Std.TransOrd TxHash := inferInstanceAs (Std.TransCmp (compareOn TxHash.bytes))

instance : Std.LawfulEqOrd TxHash where
  eq_of_compare {x y} h := by
    obtain ⟨a, ha⟩ := x
    obtain ⟨b, hb⟩ := y
    obtain rfl : a = b := Std.LawfulEqCmp.compare_eq_iff_eq.1 (show compare a b = .eq from h)
    rfl

/-- The hash of a transaction given by its bytes. -/
def ofTx (tx : Bytes) : TxHash where
  bytes := (Sha256.digest (Sha256.digest tx)).reverse
  length_bytes := by rw [List.length_reverse, Sha256.length_digest]; rfl

/-- The lowercase hexadecimal text of a hash. -/
def text (h : TxHash) : String := Hex.encode h.bytes

/-- The hash that bytes are, if there are as many as a hash has. -/
def ofBytes? (bytes : Bytes) : Option TxHash :=
  if h : bytes.length = hashLength then some ⟨bytes, h⟩ else none

end TxHash

end Restaking
