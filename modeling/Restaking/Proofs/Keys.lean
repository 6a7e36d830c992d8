import Restaking.Proofs.HexTexts
import Restaking.Staking.Key

/-!
# The one spelling of a key

A key is accepted by what its text denotes, and by comparing the text with the one that the registry
would write for it. This comes down to the characters of the text: a key is spelt with 64 lowercase
hexadecimal digits (`Key.check_eq_ok`).

1. Writing half bytes yields the characters of two ranges, and all of them (`Hex.isDigit_iff`).
2. Digits that come in pairs are the text of some bytes (`Hex.exists_encode_iff`).
-/

namespace Restaking

namespace Hex

/-- The lowercase hexadecimal digits. -/
def IsDigit (c : Char) : Prop := ('0' ≤ c ∧ c ≤ '9') ∨ ('a' ≤ c ∧ c ≤ 'f')

instance (c : Char) : Decidable (IsDigit c) := inferInstanceAs (Decidable (_ ∨ _))

theorem IsDigit.ascii {c : Char} (h : IsDigit c) : c.toNat < 128 := by
  have hle : c ≤ 'f' := by
    rcases h with ⟨_, h⟩ | ⟨_, h⟩
    · exact Char.le_trans h (by decide)
    · exact h
  exact Nat.lt_of_le_of_lt hle (by decide)

theorem isDigit_iff {c : Char} : IsDigit c ↔ ∃ n, n < 16 ∧ c = digit n := by
  constructor
  · intro h
    exact Bech32.forall_ascii (p := fun c => IsDigit c → ∃ n, n < 16 ∧ c = digit n)
      (by decide +kernel) h.ascii h
  · rintro ⟨n, hn, rfl⟩
    have hall : ∀ n : Fin 16, IsDigit (digit n) := by decide
    exact hall ⟨n, hn⟩

/-- Digits that come in pairs are the halves of bytes. -/
theorem exists_map_halves {n : Nat} {digits : List Char} (hdigits : ∀ c ∈ digits, IsDigit c)
    (hlength : digits.length = 2 * n) :
    ∃ bytes : Bytes, bytes.length = n ∧ (bytes.flatMap halves).map digit = digits := by
  induction n generalizing digits with
  | zero =>
    obtain rfl := List.length_eq_zero_iff.1 hlength
    exact ⟨[], rfl, rfl⟩
  | succ n ih =>
    obtain ⟨hi, digits, rfl⟩ := List.exists_cons_of_length_eq_add_one hlength
    obtain ⟨lo, rest, rfl⟩ := List.exists_cons_of_length_eq_add_one (Nat.succ.inj hlength)
    obtain ⟨hhi, hdigits⟩ := List.forall_mem_cons.1 hdigits
    obtain ⟨hlo, hrest⟩ := List.forall_mem_cons.1 hdigits
    obtain ⟨h, hh, rfl⟩ := isDigit_iff.1 hhi
    obtain ⟨l, hl, rfl⟩ := isDigit_iff.1 hlo
    -- the first two digits make up a byte, and so do those of the rest
    obtain ⟨bytes, rfl, rfl⟩ := ih hrest (Nat.succ.inj (Nat.succ.inj hlength))
    refine ⟨UInt8.ofNat (16 * h + l) :: bytes, rfl, ?_⟩
    rw [List.flatMap_cons, halves_ofNat hh hl]
    rfl

/-- The hexadecimal texts of so many bytes are the texts with two digits for each of them. -/
theorem exists_encode_iff {text : String} {n : Nat} :
    (∃ bytes : Bytes, bytes.length = n ∧ encode bytes = text) ↔
      text.length = 2 * n ∧ ∀ c ∈ text.toList, IsDigit c := by
  rw [← String.length_toList]
  constructor
  · rintro ⟨bytes, rfl, rfl⟩
    rw [toList_encode, List.length_map, length_halves]
    refine ⟨rfl, fun c hc => ?_⟩
    obtain ⟨m, hm, rfl⟩ := List.mem_map.1 hc
    exact isDigit_iff.2 ⟨m, halves_lt bytes m hm, rfl⟩
  · rintro ⟨hlength, hdigits⟩
    obtain ⟨bytes, hn, hbytes⟩ := exists_map_halves hdigits hlength
    exact ⟨bytes, hn, String.toList_inj.1 ((toList_encode bytes).trans hbytes)⟩

/-- The texts that denote so many bytes are those with two digits for each of them, in either letter
case. -/
theorem exists_decode_iff {text : String} {n : Nat} :
    (∃ bytes : Bytes, bytes.length = n ∧ decode text = .ok bytes) ↔
      text.length = 2 * n ∧ ∀ c ∈ text.toList, IsDigit c.toLower := by
  -- the digits of the text in lowercase are those of the bytes that it denotes
  have hencode : (∃ bytes : Bytes, bytes.length = n ∧ encode bytes = text.toLower) ↔
      text.length = 2 * n ∧ ∀ c ∈ text.toList, IsDigit c.toLower := by
    unfold String.toLower
    rw [exists_encode_iff, String.length_map, String.toList_map, List.forall_mem_map]
  rw [← hencode]
  refine exists_congr fun bytes => and_congr_right fun _ => ?_
  rw [decode_eq_ok_iff]
  exact eq_comm

end Hex

namespace Key

/-- The text spells a key: it consists of 64 lowercase hexadecimal digits. -/
def IsSpelt (text : String) : Prop := text.length = 64 ∧ ∀ c ∈ text.toList, Hex.IsDigit c

/-- A key is accepted if and only if its text is what would be written for some 32 bytes. -/
theorem check_eq_ok_iff_encode {text : String} :
    check text = .ok () ↔ ∃ bytes : Bytes, bytes.length = keyLength ∧ Hex.encode bytes = text := by
  unfold check
  constructor
  · intro h
    split_ifs at h
    cases hb : Hex.decode text with
    | error e => simp [hb] at h
    | ok bytes => exact ⟨bytes, by simpa [hb] using h⟩
  · rintro ⟨bytes, hlength, rfl⟩
    have hdecode := Hex.decode_encode bytes
    have hne : Hex.encode bytes ≠ "" := by
      intro hempty
      have hsize := Hex.utf8ByteSize_of_decode hdecode
      rw [hempty, hlength] at hsize
      cases hsize
    rw [if_neg hne, hdecode]
    exact demand_eq_ok.2 ⟨hlength, rfl⟩

/-- A key is accepted in its one spelling. -/
theorem check_eq_ok {text : String} : check text = .ok () ↔ IsSpelt text :=
  check_eq_ok_iff_encode.trans Hex.exists_encode_iff

/-- Keys that differ from each other and from those seen before. -/
theorem checkDistinct_eq_ok {seen keys : List String} :
    checkDistinct seen keys = .ok () ↔
      (∀ key ∈ keys, check key = .ok ()) ∧ keys.Nodup ∧ ∀ key ∈ keys, key ∉ seen := by
  induction keys generalizing seen with
  | nil => simp [checkDistinct]
  | cons key rest ih =>
    rw [checkDistinct, check_bind_eq_ok, check_bind_eq_ok, demand_eq_ok, ih, List.nodup_cons,
      List.forall_mem_cons, List.forall_mem_cons]
    constructor
    · rintro ⟨hkey, hnew, hrest, hnodup, hseen⟩
      exact ⟨⟨hkey, hrest⟩, ⟨fun h => hseen key h List.mem_cons_self, hnodup⟩, hnew,
        fun k hk h => hseen k hk (List.mem_cons_of_mem key h)⟩
    · rintro ⟨⟨hkey, hrest⟩, ⟨hfirst, hnodup⟩, hnew, hseen⟩
      refine ⟨hkey, hnew, hrest, hnodup, fun k hk => ?_⟩
      rw [List.mem_cons, not_or]
      exact ⟨fun e => hfirst (e ▸ hk), hseen k hk⟩

end Key

end Restaking
