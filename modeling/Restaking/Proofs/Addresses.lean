import Restaking.Address
import Restaking.Proofs.Checksums
import Restaking.Proofs.Regrouping
import Restaking.Proofs.Scanning

/-!
# Every account has one address

An address is accepted if and only if it is the one that the account's bytes are written as, in
lowercase or in uppercase (`decode_eq_ok_iff_encode`). Each part of the text is determined by the
bytes and the chain: the words because regrouping is exact, the last six of them because a checksum
is determined by what it covers, and the human-readable part because it has to be the chain's own
spelling, which has no uppercase letters then.
-/

namespace Restaking.Address

open Bech32

theorem lowercase_eq_self_iff {text : List Char} :
    lowercase text = text ↔ ∀ c ∈ text, c.isUpper = false := by
  unfold lowercase
  rw [map_eq_self_iff]
  refine forall₂_congr fun c _ => ⟨fun h => ?_, toLower_of_isUpper_eq_false⟩
  rw [← h]
  exact isUpper_toLower c

theorem decode_eq_ok {text hrp : String} {bytes : Bytes} :
    decode text hrp = .ok bytes ↔
      IsLength bytes.length ∧ Bech32.decode text = .ok ⟨hrp, wordsOfBytes bytes, .bech32⟩ := by
  unfold decode
  rw [bind_eq_ok]
  simp only [mapError_eq_ok]
  constructor
  · rintro ⟨⟨hrp', words, variant⟩, hd, h⟩
    dsimp only at h
    split_ifs at h with hhrp hvariant
    cases hwords : bytesOfWords? words with
    | none => simp [hwords] at h
    | some bytes' =>
      simp only [hwords] at h
      split_ifs at h with hlength
      obtain rfl := Except.ok.inj h
      obtain rfl := not_not.1 hhrp
      obtain rfl := not_not.1 hvariant
      rw [bytesOfWords?_eq_some_iff] at hwords
      exact ⟨hlength, hwords ▸ hd⟩
  · rintro ⟨hlength, hd⟩
    have hwords : bytesOfWords? (wordsOfBytes bytes) = some bytes := bytesOfWords?_eq_some_iff.2 rfl
    refine ⟨_, hd, ?_⟩
    simp [hwords, hlength]

/-- The words of an account, checksum included. -/
def accountWords (bytes : Bytes) (hrp : String) : List Word :=
  wordsOfBytes bytes ++ checksum .bech32 (Utf8.encode hrp) (wordsOfBytes bytes)

/-- An address spells the words of its account. -/
theorem decode_eq_ok_iff_spells {text hrp : String} {bytes : Bytes} :
    decode text hrp = .ok bytes ↔
      IsLength bytes.length ∧ Spells text.toList hrp.toList (accountWords bytes hrp) := by
  rw [decode_eq_ok, Bech32.decode_eq_ok_iff]
  refine and_congr_right fun _ => ?_
  constructor
  · rintro ⟨sum, hlength, hspells, hvariant⟩
    obtain rfl := (variant?_eq_bech32_iff hlength).1 hvariant
    exact hspells
  · intro hspells
    exact ⟨_, rfl, hspells, (variant?_eq_bech32_iff rfl).2 rfl⟩

/-- What an address is written as, if the human-readable part has no uppercase letters. -/
theorem encode_eq_ok {text hrp : String} {bytes : Bytes} (h : lowercase hrp.toList = hrp.toList) :
    encode bytes hrp = .ok text ↔ IsHrp hrp.toList ∧
      text.toList = hrp.toList ++ '1' :: (accountWords bytes hrp).map symbol := by
  unfold encode accountWords
  rw [mapError_eq_ok, Bech32.encode_eq_ok_iff, h, String.ofList_toList,
    and_iff_right (oneCase_iff.2 (.inl h.symm))]

theorem lowercase_append_symbols {hrp : List Char} (h : lowercase hrp = hrp) (words : List Word) :
    lowercase (hrp ++ '1' :: words.map symbol) = hrp ++ '1' :: words.map symbol := by
  have hsymbols : lowercase (words.map symbol) = words.map symbol := by
    unfold lowercase
    rw [List.map_map]
    exact List.map_congr_left fun w _ => toLower_symbol w
  unfold lowercase at *
  rw [List.map_append, List.map_cons, h, hsymbols]
  rfl

/-- Only a chain whose own spelling has no uppercase letters has addresses. -/
theorem isUpper_eq_false_of_decode {text hrp : String} {bytes : Bytes}
    (h : decode text hrp = .ok bytes) : ∀ c ∈ hrp.toList, c.isUpper = false := by
  obtain ⟨_, hlower, _, _⟩ := decode_eq_ok_iff_spells.1 h
  intro c hc
  have hmem : c ∈ lowercase text.toList := hlower ▸ List.mem_append_left _ hc
  obtain ⟨c', _, rfl⟩ := List.mem_map.1 hmem
  exact isUpper_toLower c'

/-- What an account is written as names the account on such a chain. -/
theorem decode_of_encode {text hrp : String} {bytes : Bytes}
    (hhrp : ∀ c ∈ hrp.toList, c.isUpper = false) (hlength : IsLength bytes.length)
    (h : encode bytes hrp = .ok text) : decode text hrp = .ok bytes := by
  have hself := lowercase_eq_self_iff.2 hhrp
  obtain ⟨hprintable, htext⟩ := (encode_eq_ok hself).1 h
  have hlower : lowercase text.toList = text.toList := by
    rw [htext]
    exact lowercase_append_symbols hself _
  exact decode_eq_ok_iff_spells.2
    ⟨hlength, hlower.trans htext, oneCase_iff.2 (.inl hlower.symm), hprintable⟩

/-- An address names an account on a chain if and only if the account has 1 to 255 bytes, the
human-readable part of the chain has no uppercase letters, and the address is what the account's
bytes are written as, in lowercase or in uppercase. -/
theorem decode_eq_ok_iff_encode {text hrp : String} {bytes : Bytes} :
    decode text hrp = .ok bytes ↔
      (1 ≤ bytes.length ∧ bytes.length ≤ 255) ∧ (∀ c ∈ hrp.toList, c.isUpper = false) ∧
        ∃ s, encode bytes hrp = .ok s ∧ (text = s ∨ text = s.toUpper) := by
  have hupper : ∀ s : String, s.toUpper.toList = s.toList.map Char.toUpper :=
    fun s => String.toList_map
  rw [decode_eq_ok_iff_spells, ← lowercase_eq_self_iff]
  refine and_congr_right fun _ => ?_
  constructor
  · rintro ⟨hlower, hcase, hhrp⟩
    have hself : lowercase hrp.toList = hrp.toList := by
      rw [lowercase_eq_self_iff]
      intro c hc
      have hmem : c ∈ lowercase text.toList := hlower ▸ List.mem_append_left _ hc
      obtain ⟨c', _, rfl⟩ := List.mem_map.1 hmem
      exact isUpper_toLower c'
    refine ⟨hself, String.ofList (lowercase text.toList), ?_, ?_⟩
    · rw [encode_eq_ok hself, String.toList_ofList]
      exact ⟨hhrp, hlower⟩
    · rw [← String.toList_inj, ← String.toList_inj, hupper, String.toList_ofList]
      exact oneCase_iff.1 hcase
  · rintro ⟨hself, s, hs, htext⟩
    obtain ⟨hhrp, hs⟩ := (encode_eq_ok hself).1 hs
    have hlower : lowercase s.toList = s.toList := by
      rw [hs]
      exact lowercase_append_symbols hself _
    have hform : lowercase text.toList = s.toList := by
      rcases htext with rfl | rfl
      · exact hlower
      · rw [hupper, lowercase_map_toUpper, hlower]
    refine ⟨hform.trans hs, ?_, hhrp⟩
    rw [oneCase_iff, hform, ← hupper, String.toList_inj, String.toList_inj]
    exact htext

end Restaking.Address
