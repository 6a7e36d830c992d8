import Restaking.Proofs.Backing

/-!
# Keys are their texts

A text is accepted as a key if and only if it consists of 64 lowercase hexadecimal digits, and what
is wrong with any other text can be told from its characters as well (`check_outcome`). An accepted
text is the only one that is accepted for the bytes that it denotes. So the checks that tell keys
apart, and the counts of different keys, may compare texts.

1. A text can be decoded if and only if it consists of pairs of digits in either letter case
   (`Hex.exists_decode_iff_isText`).
2. That leaves four outcomes of a check, each with its condition on the characters (`check_cases`).
3. Among accepted texts, decoding is injective (`eq_of_decode_eq`), so that it keeps a list without
   repetitions (`nodup_map_decode_iff`) and the number of different entries (`card_map_decode`).
-/

namespace Restaking

namespace Hex

/-- Pairs of hexadecimal digits in either letter case. -/
def IsText (text : String) : Prop :=
  text.length % 2 = 0 ∧ ∀ c ∈ text.toList, IsDigit c ∨ ('A' ≤ c ∧ c ≤ 'F')

theorem isDigit_toLower_iff {c : Char} : IsDigit c.toLower ↔ IsDigit c ∨ ('A' ≤ c ∧ c ≤ 'F') := by
  by_cases hc : c.toNat < 128
  · exact Bech32.forall_ascii
      (p := fun c => IsDigit c.toLower ↔ IsDigit c ∨ ('A' ≤ c ∧ c ≤ 'F')) (by decide +kernel) hc
  · rw [Bech32.toLower_of_not_ascii hc]
    refine ⟨.inl, ?_⟩
    rintro (h | ⟨_, h⟩)
    · exact h
    · exact absurd (Nat.lt_of_le_of_lt h (by decide)) hc

theorem exists_decode_iff_isText {text : String} :
    (∃ bytes, decode text = .ok bytes) ↔ IsText text := by
  have hdigits : (∀ c ∈ text.toList, IsDigit c.toLower) ↔
      ∀ c ∈ text.toList, IsDigit c ∨ ('A' ≤ c ∧ c ≤ 'F') :=
    forall₂_congr fun _ _ => isDigit_toLower_iff
  unfold IsText
  rw [← hdigits]
  constructor
  · rintro ⟨bytes, hbytes⟩
    obtain ⟨hlength, h⟩ := exists_decode_iff.1 ⟨bytes, rfl, hbytes⟩
    exact ⟨by omega, h⟩
  · rintro ⟨heven, h⟩
    have hlength : text.length = 2 * (text.length / 2) := by omega
    obtain ⟨bytes, _, hbytes⟩ := exists_decode_iff.2 ⟨hlength, h⟩
    exact ⟨bytes, hbytes⟩

end Hex

namespace Key

/-! ## Outcomes of a check -/

theorem IsSpelt.ne_empty {text : String} (h : IsSpelt text) : text ≠ "" := by
  rintro rfl
  exact absurd h.1 (by decide)

theorem IsSpelt.isText {text : String} (h : IsSpelt text) : Hex.IsText text := by
  refine ⟨?_, fun c hc => .inl (h.2 c hc)⟩
  rw [h.1]

/-- What comes of the check of a text, told from its characters. -/
theorem check_cases (text : String) :
    (IsSpelt text ∧ check text = .ok ()) ∨
      (text = "" ∧ check text = .error .emptyKey) ∨
      (¬ Hex.IsText text ∧ ∃ e, check text = .error (.notHex e)) ∨
      (text ≠ "" ∧ Hex.IsText text ∧ ¬ IsSpelt text ∧ check text = .error (.badKey text)) := by
  by_cases hspelt : IsSpelt text
  · exact .inl ⟨hspelt, check_eq_ok.2 hspelt⟩
  by_cases hempty : text = ""
  · refine .inr (.inl ⟨hempty, ?_⟩)
    unfold check
    rw [if_pos hempty]
  cases hdecode : Hex.decode text with
  | error e =>
    refine .inr (.inr (.inl ⟨fun htext => ?_, e, ?_⟩))
    · obtain ⟨bytes, hbytes⟩ := Hex.exists_decode_iff_isText.2 htext
      rw [hdecode] at hbytes
      cases hbytes
    · unfold check
      rw [if_neg hempty, hdecode]
  | ok bytes =>
    have htext : Hex.IsText text := Hex.exists_decode_iff_isText.1 ⟨bytes, hdecode⟩
    refine .inr (.inr (.inr ⟨hempty, htext, hspelt, ?_⟩))
    -- the text denotes bytes, but is not how they are written as a key
    have hwritten : ¬ (bytes.length = keyLength ∧ Hex.encode bytes = text) := fun h =>
      hspelt (check_eq_ok.1 (check_eq_ok_iff_encode.2 ⟨bytes, h⟩))
    unfold check demand
    rw [if_neg hempty, hdecode]
    exact if_neg hwritten

/-! ## Comparing keys -/

/-- The text denotes the bytes of a key. -/
def Denotes (text : String) (bytes : Bytes) : Prop :=
  Hex.decode text = .ok bytes ∧ bytes.length = 32

theorem exists_denotes_of_check {text : String} (h : check text = .ok ()) :
    ∃ bytes, Denotes text bytes ∧ Hex.encode bytes = text := by
  obtain ⟨bytes, hlength, rfl⟩ := check_eq_ok_iff_encode.1 h
  exact ⟨bytes, ⟨Hex.decode_encode bytes, hlength⟩, rfl⟩

/-- Different keys denote different bytes. -/
theorem eq_of_decode_eq {text other : String} (h : check text = .ok ())
    (hother : check other = .ok ()) (hdecode : Hex.decode text = Hex.decode other) :
    text = other := by
  obtain ⟨bytes, ⟨hbytes, _⟩, rfl⟩ := exists_denotes_of_check h
  obtain ⟨bytes', ⟨hbytes', _⟩, rfl⟩ := exists_denotes_of_check hother
  rw [hbytes, hbytes'] at hdecode
  rw [Except.ok.inj hdecode]

theorem nodup_map_decode_iff {keys : List String} (h : ∀ key ∈ keys, check key = .ok ()) :
    (keys.map Hex.decode).Nodup ↔ keys.Nodup :=
  ⟨List.Nodup.of_map _, fun hkeys =>
    hkeys.map_on fun key hkey key' hkey' => eq_of_decode_eq (h key hkey) (h key' hkey')⟩

theorem card_map_decode {keys : List String} (h : ∀ key ∈ keys, check key = .ok ()) :
    (keys.map Hex.decode).toFinset.card = countDistinct keys := by
  have himage : (keys.map Hex.decode).toFinset = keys.toFinset.image Hex.decode := by
    ext result
    simp
  rw [himage, countDistinct_eq_card]
  refine Finset.card_image_of_injOn fun key hkey key' hkey' => ?_
  exact eq_of_decode_eq (h key (List.mem_toFinset.1 hkey)) (h key' (List.mem_toFinset.1 hkey'))

/-- A text is accepted as a key if and only if it consists of 64 lowercase hexadecimal digits. Of the
others, the empty text is an empty key, a text that does not consist of pairs of digits is not
hexadecimal, and what is left are bad keys. An accepted text denotes 32 bytes, and two that denote
the same are equal. So demanding that keys differ, and counting different ones, is the same for the
texts as for the bytes. -/
theorem check_outcome :
    (∀ text, (check text = .ok () ↔ IsSpelt text) ∧
        (check text = .error .emptyKey ↔ text = "") ∧
        ((∃ e, check text = .error (.notHex e)) ↔ ¬ Hex.IsText text) ∧
        (check text = .error (.badKey text) ↔
          text ≠ "" ∧ Hex.IsText text ∧ ¬ IsSpelt text)) ∧
      (∀ text, check text = .ok () → ∃ bytes, Denotes text bytes ∧
        ∀ other, check other = .ok () → Denotes other bytes → other = text) ∧
      ∀ keys, (checkDistinct [] keys = .ok () ↔
          (∀ key ∈ keys, IsSpelt key) ∧ (keys.map Hex.decode).Nodup) ∧
        ((∀ key ∈ keys, IsSpelt key) →
          countDistinct keys = (keys.map Hex.decode).toFinset.card) := by
  refine ⟨fun text => ⟨check_eq_ok, ?_⟩, fun text hcheck => ?_, fun keys => ⟨?_, fun hkeys => ?_⟩⟩
  · rcases check_cases text with ⟨hspelt, hok⟩ | ⟨rfl, herror⟩ | ⟨htext, e, herror⟩ |
      ⟨hne, htext, hspelt, herror⟩
    · simp [hok, hspelt, hspelt.ne_empty, hspelt.isText]
    · have htext : Hex.IsText "" := ⟨rfl, nofun⟩
      simp [herror, htext]
    · have hne : text ≠ "" := by
        rintro rfl
        exact htext ⟨rfl, nofun⟩
      simp [herror, htext, hne]
    · simp [herror, hne, htext, hspelt]
  · obtain ⟨bytes, hbytes, _⟩ := exists_denotes_of_check hcheck
    refine ⟨bytes, hbytes, fun other hother hsame => ?_⟩
    exact eq_of_decode_eq hother hcheck (hsame.1.trans hbytes.1.symm)
  · rw [checkDistinct_eq_ok]
    simp only [List.not_mem_nil, not_false_eq_true, implies_true, and_true, ← check_eq_ok]
    exact and_congr_right fun hkeys => (nodup_map_decode_iff hkeys).symm
  · exact (card_map_decode fun key hkey => check_eq_ok.2 (hkeys key hkey)).symm

end Key

/-! ## Rows of one letter -/

namespace Sample

/-- A letter 64 times over. -/
def row (letter : Char) : String := String.ofList (List.replicate 64 letter)

theorem length_row (letter : Char) : (row letter).length = 64 := by
  rw [row, String.length_ofList, List.length_replicate]

theorem mem_row {c letter : Char} : c ∈ (row letter).toList ↔ c = letter := by
  rw [row, String.toList_ofList, List.mem_replicate]
  exact and_iff_right (by decide)

theorem isSpelt_row {letter : Char} (h : Hex.IsDigit letter) : Key.IsSpelt (row letter) :=
  ⟨length_row letter, fun _ hc => mem_row.1 hc ▸ h⟩

end Sample

/-- A row of a letter is a key in lowercase only. Rows of different letters are different keys, and
there are two keys in a list of three if one of them comes again. -/
theorem Key.check_outcome_rows :
    check (Sample.row 'a') = .ok () ∧
      check (Sample.row 'A') = .error (.badKey (Sample.row 'A')) ∧
      (∃ bytes, Denotes (Sample.row 'a') bytes) ∧
      ([Sample.row 'a', Sample.row 'b'].map Hex.decode).Nodup ∧
      ([Sample.row 'a', Sample.row 'b', Sample.row 'a'].map Hex.decode).toFinset.card = 2 := by
  obtain ⟨htexts, hsame, hlists⟩ := check_outcome
  have ha : IsSpelt (Sample.row 'a') := Sample.isSpelt_row (by decide)
  have hb : IsSpelt (Sample.row 'b') := Sample.isSpelt_row (by decide)
  have hne : Sample.row 'a' ≠ Sample.row 'b' := by
    intro h
    have hmem : 'a' ∈ (Sample.row 'b').toList := h ▸ Sample.mem_row.2 rfl
    exact absurd (Sample.mem_row.1 hmem) (by decide)
  have hkey : check (Sample.row 'a') = .ok () := (htexts _).1.2 ha
  have hkey' : check (Sample.row 'b') = .ok () := (htexts _).1.2 hb
  obtain ⟨bytes, hbytes, _⟩ := hsame _ hkey
  refine ⟨hkey, (htexts _).2.2.2.2 ⟨?_, ?_, ?_⟩, ⟨bytes, hbytes⟩, ((hlists _).1.1 ?_).2, ?_⟩
  · intro hempty
    have hlength := Sample.length_row 'A'
    rw [hempty] at hlength
    cases hlength
  · refine ⟨by rw [Sample.length_row], fun c hc => .inr ?_⟩
    rw [Sample.mem_row.1 hc]
    decide
  · exact fun hspelt => absurd (hspelt.2 'A' (Sample.mem_row.2 rfl)) (by decide)
  · rw [checkDistinct_eq_ok]
    simp [hkey, hkey', hne]
  · rw [← (hlists _).2 (by simp [ha, hb])]
    simp [countDistinct, hne.symm]

end Restaking
