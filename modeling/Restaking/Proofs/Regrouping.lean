import Restaking.Bech32.Regroup
import Mathlib.Tactic.Ring

/-!
# Regrouping is exact

A row of words encodes bytes if and only if it is the row that the bytes are written as
(`bytesOfWords?_eq_some_iff`): the rule on left-over bits leaves no second way.

Both directions go through the row of bits. Words and bits determine each other
(`wordsOfBits_flatMap_bits`), bytes and bits do so up to the bits that are left over
(`bytesOfBits_append`, `flatMap_bytesOfBits`), and the zeros that fill up the last word make no
difference to the words (`wordsOfBits_append_zeros`).
-/

namespace Restaking.Bech32

/-! ## Rows of bits -/

@[simp] theorem length_bits (width n : Nat) : (bits width n).length = width := by
  induction width with
  | zero => rfl
  | succ width ih => rw [bits, List.length_cons, ih]

theorem foldl_bit (row : List Bool) (n : Nat) :
    row.foldl (fun acc b => 2 * acc + b.toNat) n = n * 2 ^ row.length + valueOfBits row := by
  unfold valueOfBits
  induction row generalizing n with
  | nil => simp
  | cons b rest ih =>
    rw [List.foldl_cons, ih, List.foldl_cons, ih (2 * 0 + b.toNat), List.length_cons, Nat.pow_succ]
    ring

theorem valueOfBits_cons (b : Bool) (row : List Bool) :
    valueOfBits (b :: row) = b.toNat * 2 ^ row.length + valueOfBits row := by
  rw [valueOfBits, List.foldl_cons, foldl_bit, Nat.mul_zero, Nat.zero_add]

theorem valueOfBits_lt (row : List Bool) : valueOfBits row < 2 ^ row.length := by
  induction row with
  | nil => exact Nat.one_pos
  | cons b rest ih =>
    rw [valueOfBits_cons, List.length_cons, Nat.pow_succ]
    cases b
    · rw [Bool.toNat_false]
      omega
    · rw [Bool.toNat_true]
      omega

/-- Only the lowest bits of a number count. -/
theorem bits_mod (width n k : Nat) (h : width ≤ k) : bits width (n % 2 ^ k) = bits width n := by
  induction width with
  | zero => rfl
  | succ width ih =>
    rw [bits, bits, ih (by omega), Nat.testBit_mod_two_pow, decide_eq_true (by omega),
      Bool.true_and]

theorem bits_valueOfBits (row : List Bool) : bits row.length (valueOfBits row) = row := by
  induction row with
  | nil => rfl
  | cons b rest ih =>
    have hlt := valueOfBits_lt rest
    have htop : (valueOfBits (b :: rest)).testBit rest.length = b := by
      rw [valueOfBits_cons, Nat.mul_comm, Nat.testBit_two_pow_mul_add _ hlt]
      cases b <;> simp
    have hlow : valueOfBits (b :: rest) % 2 ^ rest.length = valueOfBits rest := by
      rw [valueOfBits_cons, Nat.mul_comm, Nat.mul_add_mod, Nat.mod_eq_of_lt hlt]
    rw [List.length_cons, bits, htop, ← bits_mod _ _ _ le_rfl, hlow, ih]

theorem valueOfBits_bits (width n : Nat) : valueOfBits (bits width n) = n % 2 ^ width := by
  induction width with
  | zero => rw [bits, Nat.pow_zero, Nat.mod_one]; rfl
  | succ width ih =>
    rw [bits, valueOfBits_cons, length_bits, ih, Nat.mod_pow_succ, Nat.toNat_testBit]
    ring

/-! ## Words and bits -/

theorem bits_ofNat_valueOfBits {row : List Bool} (h : row.length = 5) :
    bits 5 (BitVec.ofNat 5 (valueOfBits row)).toNat = row := by
  have hlt : valueOfBits row < 2 ^ 5 := h ▸ valueOfBits_lt row
  rw [BitVec.toNat_ofNat, Nat.mod_eq_of_lt hlt, ← h, bits_valueOfBits]

/-- The number of zeros that fill up the last word of a row of `n` bits. -/
def filling (n : Nat) : Nat := (5 - n % 5) % 5

/-- The bits of the words are the row, filled up. -/
theorem flatMap_bits_wordsOfBits (row : List Bool) :
    (wordsOfBits row).flatMap (fun w => bits 5 w.toNat) =
      row ++ List.replicate (filling row.length) false := by
  fun_induction wordsOfBits row with
  | case1 => rfl
  | case2 a | case3 a b | case4 a b c | case5 a b c d =>
    rw [List.flatMap_singleton, bits_ofNat_valueOfBits rfl]
    rfl
  | case6 a b c d e rest ih =>
    have hfill : filling (rest.length + 5) = filling rest.length := by
      unfold filling
      omega
    rw [List.flatMap_cons, bits_ofNat_valueOfBits rfl, ih]
    simp [hfill]

theorem wordsOfBits_append {row : List Bool} (h : row.length = 5) (rest : List Bool) :
    wordsOfBits (row ++ rest) = .ofNat 5 (valueOfBits row) :: wordsOfBits rest := by
  match row, h with
  | [a, b, c, d, e], _ => rfl

theorem wordsOfBits_flatMap_bits (words : List Word) :
    wordsOfBits (words.flatMap fun w => bits 5 w.toNat) = words := by
  induction words with
  | nil => rfl
  | cons w rest ih =>
    rw [List.flatMap_cons, wordsOfBits_append (length_bits 5 w.toNat), ih, valueOfBits_bits,
      Nat.mod_eq_of_lt w.isLt, BitVec.ofNat_toNat, BitVec.setWidth_eq]

/-- Zeros that only fill up the last word make no difference. -/
theorem wordsOfBits_append_zeros (row : List Bool) {k : Nat} (hk : k < 5)
    (h : (row.length + k) % 5 = 0) :
    wordsOfBits (row ++ List.replicate k false) = wordsOfBits row := by
  have hfill : k = filling row.length := by
    unfold filling
    omega
  rw [hfill, ← flatMap_bits_wordsOfBits, wordsOfBits_flatMap_bits]

/-! ## Bytes and bits -/

theorem bits_ofNat_byte {row : List Bool} (h : row.length = 8) :
    bits 8 (UInt8.ofNat (valueOfBits row)).toNat = row := by
  have hlt : valueOfBits row < 2 ^ 8 := h ▸ valueOfBits_lt row
  rw [UInt8.toNat_ofNat_of_lt' hlt, ← h, bits_valueOfBits]

theorem bytesOfBits_cons {row : List Bool} (h : row.length = 8) (rest : List Bool) :
    bytesOfBits (row ++ rest) =
      (UInt8.ofNat (valueOfBits row) :: (bytesOfBits rest).1, (bytesOfBits rest).2) := by
  match row, h with
  | [a, b, c, d, e, f, g, i], _ => rfl

theorem bytesOfBits_short {left : List Bool} (h : left.length < 8) :
    bytesOfBits left = ([], left) := by
  match left, h with
  | [], _ | [_], _ | [_, _], _ | [_, _, _], _ | [_, _, _, _], _ | [_, _, _, _, _], _
  | [_, _, _, _, _, _], _ | [_, _, _, _, _, _, _], _ => rfl

/-- Bits of bytes, and fewer than eight after them, are read as they are. -/
theorem bytesOfBits_append (bytes : Bytes) {left : List Bool} (h : left.length < 8) :
    bytesOfBits ((bytes.flatMap fun b => bits 8 b.toNat) ++ left) = (bytes, left) := by
  induction bytes with
  | nil => exact bytesOfBits_short h
  | cons b rest ih =>
    rw [List.flatMap_cons, List.append_assoc, bytesOfBits_cons (length_bits 8 b.toNat), ih,
      valueOfBits_bits, Nat.mod_eq_of_lt b.toNat_lt, UInt8.ofNat_toNat]

/-- A row of bits is that of the bytes it makes up, followed by what is left over. -/
theorem flatMap_bytesOfBits (row : List Bool) :
    ((bytesOfBits row).1.flatMap fun b => bits 8 b.toNat) ++ (bytesOfBits row).2 = row := by
  fun_induction bytesOfBits row with
  | case1 a b c d e f g h rest bytes left heq ih =>
    rw [heq] at ih
    rw [List.flatMap_cons, bits_ofNat_byte rfl, List.append_assoc, ih]
    rfl
  | case2 => rfl

/-! ## Words and bytes -/

theorem length_flatMap_bits {α : Type} (width : Nat) (value : α → Nat) (l : List α) :
    (l.flatMap fun a => bits width (value a)).length = width * l.length := by
  induction l with
  | nil => rfl
  | cons a rest ih =>
    rw [List.flatMap_cons, List.length_append, length_bits, ih, List.length_cons, Nat.mul_succ,
      Nat.add_comm]

/-- The words that encode bytes are exactly those that the bytes are written as. -/
theorem bytesOfWords?_eq_some_iff {words : List Word} {bytes : Bytes} :
    bytesOfWords? words = some bytes ↔ words = wordsOfBytes bytes := by
  unfold bytesOfWords? bytesOfWords wordsOfBytes
  constructor
  · intro h
    have hrow := flatMap_bytesOfBits (words.flatMap fun w => bits 5 w.toNat)
    have hlength := congrArg List.length hrow
    generalize bytesOfBits (words.flatMap fun w => bits 5 w.toNat) = split at h hrow hlength
    obtain ⟨bytes', left⟩ := split
    dsimp only at h hrow hlength
    split_ifs at h with hleft
    obtain rfl := Option.some.inj h
    obtain ⟨hshort, hzero⟩ := hleft
    have hzeros : left = List.replicate left.length false := by
      rw [List.eq_replicate_iff]
      exact ⟨rfl, fun b hb => by simpa using List.all_eq_true.1 hzero b hb⟩
    rw [List.length_append, length_flatMap_bits 5] at hlength
    rw [← wordsOfBits_append_zeros _ hshort (by omega), ← hzeros, hrow, wordsOfBits_flatMap_bits]
  · rintro rfl
    have hfill : filling (bytes.flatMap fun b => bits 8 b.toNat).length < 5 :=
      Nat.mod_lt _ (by decide)
    have hshort : (List.replicate (filling (bytes.flatMap fun b => bits 8 b.toNat).length)
        false).length < 5 := by rwa [List.length_replicate]
    have hzero : (List.replicate (filling (bytes.flatMap fun b => bits 8 b.toNat).length)
        false).all (!·) = true := by
      rw [List.all_replicate, Bool.not_false, ite_self]
    rw [flatMap_bits_wordsOfBits, bytesOfBits_append bytes (by omega)]
    exact if_pos ⟨hshort, hzero⟩

end Restaking.Bech32
