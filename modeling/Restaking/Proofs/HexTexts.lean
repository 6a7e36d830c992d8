import Restaking.Text.Hex
import Restaking.Proofs.Scanning

/-!
# What a hexadecimal text denotes

A text denotes bytes if and only if it is their hexadecimal text but for the case of its letters
(`Hex.decode_eq_ok_iff`). Both come down to half bytes: reading a text reads the halves of the bytes
that it denotes (`decodePairs_eq_ok`), and a character is read as a half if and only if its
lowercase form is the digit of that half (`map_value?_eq_map_some`).
-/

namespace Restaking

theorem Utf8.length_encode (text : String) : (encode text).length = text.utf8ByteSize := by
  have hbytes : (encode text).toByteArray = text.toByteArray := String.utf8Encode_toList
  rw [← List.size_toByteArray, hbytes]
  rfl

namespace Hex

/-! ## Half bytes -/

/-- The two halves of a byte, the high one first. -/
def halves (b : UInt8) : List Nat := [b.toNat / 16, b.toNat % 16]

theorem halves_lt (bytes : Bytes) : ∀ n ∈ bytes.flatMap halves, n < 16 := by
  intro n hn
  obtain ⟨b, _, hn⟩ := List.mem_flatMap.1 hn
  have hb := b.toNat_lt
  rcases List.mem_cons.1 hn with rfl | hn
  · omega
  · obtain rfl := List.mem_singleton.1 hn
    omega

theorem length_halves (bytes : Bytes) : (bytes.flatMap halves).length = 2 * bytes.length := by
  induction bytes with
  | nil => rfl
  | cons b rest ih =>
    rw [List.flatMap_cons, List.length_append, ih, List.length_cons]
    show 2 + 2 * rest.length = _
    omega

theorem halves_ofNat {h l : Nat} (hh : h < 16) (hl : l < 16) :
    halves (UInt8.ofNat (16 * h + l)) = [h, l] := by
  unfold halves
  rw [UInt8.toNat_ofNat_of_lt' (by omega : 16 * h + l < 2 ^ 8), Nat.mul_add_div (by decide),
    Nat.div_eq_of_lt hl, Nat.add_zero, Nat.mul_add_mod, Nat.mod_eq_of_lt hl]

theorem ofNat_halves (b : UInt8) : UInt8.ofNat (16 * (b.toNat / 16) + b.toNat % 16) = b := by
  rw [Nat.div_add_mod, UInt8.ofNat_toNat]

theorem toList_encode (bytes : Bytes) :
    (encode bytes).toList = (bytes.flatMap halves).map digit := by
  unfold encode
  rw [String.toList_ofList, List.map_flatMap]
  rfl

/-! ## Reading -/

/-- The values of digits are half bytes, and digits are ASCII. -/
theorem value?_bounds {b : UInt8} {n : Nat} (h : value? b = some n) : n < 16 ∧ b ≤ 126 := by
  unfold value? at h
  simp only [UInt8.le_iff_toNat_le, UInt8.reduceToNat] at h ⊢
  split_ifs at h <;> obtain rfl := Option.some.inj h <;> omega

theorem digitAt_eq_ok {position : Nat} {b : UInt8} {n : Nat} :
    digitAt position b = .ok n ↔ value? b = some n := by
  unfold digitAt
  cases value? b <;> simp

/-- Digits are read as the halves of the bytes that they denote. -/
theorem decodePairs_eq_ok {position : Nat} {digits bytes : Bytes} :
    decodePairs position digits = .ok bytes ↔
      digits.map value? = (bytes.flatMap halves).map some := by
  induction position, digits using decodePairs.induct generalizing bytes with
  | case1 =>
    cases bytes with
    | nil => exact iff_of_true rfl rfl
    | cons b rest => exact iff_of_false nofun nofun
  | case2 =>
    cases bytes with
    | nil => exact iff_of_false nofun nofun
    | cons b rest => exact iff_of_false nofun fun h => nomatch (List.cons.inj h).2
  | case3 position hi lo rest ih =>
    unfold decodePairs
    constructor
    · intro h
      obtain ⟨n, hn, h⟩ := bind_eq_ok.1 h
      obtain ⟨m, hm, h⟩ := bind_eq_ok.1 h
      obtain ⟨tail, htail, h⟩ := bind_eq_ok.1 h
      obtain rfl := Except.ok.inj h
      rw [digitAt_eq_ok] at hn hm
      rw [List.flatMap_cons, halves_ofNat (value?_bounds hn).1 (value?_bounds hm).1, List.map_cons,
        List.map_cons, hn, hm, ih.1 htail]
      rfl
    · intro h
      cases bytes with
      | nil => cases h
      | cons b tail =>
        obtain ⟨hhi, h⟩ := List.cons.inj h
        obtain ⟨hlo, htail⟩ := List.cons.inj h
        rw [digitAt_eq_ok.2 hhi, digitAt_eq_ok.2 hlo, ih.2 htail]
        exact congrArg (fun b => Except.ok (b :: tail)) (ofNat_halves b)

theorem length_decodePairs {position : Nat} {digits bytes : Bytes}
    (h : decodePairs position digits = .ok bytes) : digits.length = 2 * bytes.length := by
  have hlength := congrArg List.length (decodePairs_eq_ok.1 h)
  rwa [List.length_map, List.length_map, length_halves] at hlength

theorem decode_eq_ok {text : String} {bytes : Bytes} :
    decode text = .ok bytes ↔ decodePairs 0 (Utf8.encode text) = .ok bytes := by
  unfold decode decodeBytes
  split_ifs with hodd
  · refine iff_of_false nofun fun h => ?_
    have hlength := length_decodePairs h
    omega
  · rfl

/-- A text has two digits for each of the bytes that it denotes. -/
theorem utf8ByteSize_of_decode {text : String} {bytes : Bytes} (h : decode text = .ok bytes) :
    text.utf8ByteSize = 2 * bytes.length := by
  rw [← Utf8.length_encode]
  exact length_decodePairs (decode_eq_ok.1 h)

/-! ## Letter case -/

theorem digit_ascii {n : Nat} (hn : n < 16) : (digit n).toNat < 128 := by
  have hall : ∀ n : Fin 16, (digit n).toNat < 128 := by decide
  exact hall ⟨n, hn⟩

theorem value?_of_ascii {c : Char} (hc : c.toNat < 128) {n : Nat} (hn : n < 16) :
    value? (UInt8.ofNat c.toNat) = some n ↔ c.toLower = digit n :=
  Bech32.forall_ascii
    (p := fun c => ∀ n : Fin 16, value? (UInt8.ofNat c.toNat) = some n.val ↔ c.toLower = digit n)
    (by decide +kernel) hc ⟨n, hn⟩

theorem toLower_digit {n : Nat} (hn : n < 16) : (digit n).toLower = digit n := by
  have hall : ∀ n : Fin 16, (digit n).toLower = digit n := by decide
  exact hall ⟨n, hn⟩

/-- The bytes of a text are read as half bytes if and only if its characters, in lowercase, are the
digits of these. -/
theorem map_value?_eq_map_some {text : List Char} {ns : List Nat} (hns : ∀ n ∈ ns, n < 16) :
    (text.flatMap String.utf8EncodeChar).map value? = ns.map some ↔
      text.map Char.toLower = ns.map digit := by
  induction text generalizing ns with
  | nil => cases ns <;> simp
  | cons c rest ih =>
    rw [List.flatMap_cons, List.map_append]
    by_cases hc : c.toNat < 128
    · rw [Bech32.utf8EncodeChar_of_ascii hc]
      cases ns with
      | nil => exact iff_of_false nofun nofun
      | cons n ns =>
        obtain ⟨hn, hns⟩ := List.forall_mem_cons.1 hns
        rw [List.map_singleton, List.singleton_append, List.map_cons, List.map_cons, List.map_cons,
          List.cons.injEq, List.cons.injEq, value?_of_ascii hc hn, ih hns]
    · -- neither the first byte nor the character itself is a digit
      obtain ⟨b, more, hbytes, hb⟩ := Bech32.utf8EncodeChar_of_not_ascii hc
      rw [hbytes]
      cases ns with
      | nil => exact iff_of_false nofun nofun
      | cons n ns =>
        have hvalue : value? b ≠ some n := fun h => hb (value?_bounds h).2
        have hdigit : c.toLower ≠ digit n := by
          rw [Bech32.toLower_of_not_ascii hc]
          rintro rfl
          exact hc (digit_ascii (hns n List.mem_cons_self))
        exact iff_of_false (fun h => hvalue (List.cons.inj h).1) fun h =>
          hdigit (List.cons.inj h).1

/-- A text denotes bytes if and only if in lowercase it is their hexadecimal text. -/
theorem decode_eq_ok_iff {text : String} {bytes : Bytes} :
    decode text = .ok bytes ↔ text.toLower = encode bytes := by
  unfold String.toLower
  rw [decode_eq_ok, decodePairs_eq_ok, ← String.toList_inj, String.toList_map, toList_encode]
  exact map_value?_eq_map_some (halves_lt bytes)

/-- Hexadecimal texts are written in lowercase. -/
theorem toLower_encode (bytes : Bytes) : (encode bytes).toLower = encode bytes := by
  unfold String.toLower
  rw [← String.toList_inj, String.toList_map, toList_encode, List.map_map]
  exact List.map_congr_left fun n hn => toLower_digit (halves_lt bytes n hn)

/-- Bytes are read back from their text. -/
theorem decode_encode (bytes : Bytes) : decode (encode bytes) = .ok bytes :=
  decode_eq_ok_iff.2 (toLower_encode bytes)

theorem encode_inj {bytes bytes' : Bytes} (h : encode bytes = encode bytes') : bytes = bytes' := by
  rw [← Except.ok.injEq (ε := Error), ← decode_encode, h, decode_encode]

end Hex

end Restaking
