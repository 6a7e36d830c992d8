import Restaking.Bech32.Text
import Restaking.Proofs.Results
import Mathlib.Data.List.TakeWhile
import Mathlib.Tactic.SplitIfs

/-!
# What is read as bech32

A text says something in bech32 if and only if it is written in one letter case and its lowercase
form is a human-readable part, a separator, and symbols, the last six of them a valid checksum
(`decode_eq_ok_iff`). The scans that report faults one by one come down to three conditions:

* on single characters, which have to be printable or symbols (`scanHrp_eq_ok`, `scanData_eq_ok`);
* on the letter case, which is that of a fold over the whole text (`foldlM_noteCase`);
* on lengths.

Texts in one case are those that are equal to their lowercase form, or to the uppercase form of it
(`oneCase_iff`).
-/

namespace Restaking.Bech32

/-! ## Characters -/

/-- What holds of the first 128 characters, checked one by one. -/
theorem forall_ascii {p : Char → Prop} (h : ∀ n : Fin 128, p (Char.ofNat n)) {c : Char}
    (hc : c.toNat < 128) : p c := by
  have hp := h ⟨c.toNat, hc⟩
  rwa [Char.ofNat_toNat] at hp

theorem letterCase?_of_not_ascii {c : Char} (hc : ¬ c.toNat < 128) : letterCase? c = none := by
  have hlower : ¬ ('a' ≤ c ∧ c ≤ 'z') := fun h => hc (Nat.lt_of_le_of_lt h.2 (by decide))
  have hupper : ¬ ('A' ≤ c ∧ c ≤ 'Z') := fun h => hc (Nat.lt_of_le_of_lt h.2 (by decide))
  unfold letterCase?
  rw [if_neg hlower, if_neg hupper]

theorem toLower_of_not_ascii {c : Char} (hc : ¬ c.toNat < 128) : c.toLower = c := by
  unfold Char.toLower
  exact dif_neg fun h => hc (Nat.lt_of_le_of_lt h.2 (by decide))

theorem toUpper_of_not_ascii {c : Char} (hc : ¬ c.toNat < 128) : c.toUpper = c := by
  unfold Char.toUpper
  exact dif_neg fun h => hc (Nat.lt_of_le_of_lt h.2 (by decide))

theorem toLower_of_isUpper_eq_false {c : Char} (h : c.isUpper = false) : c.toLower = c := by
  unfold Char.toLower
  unfold Char.isUpper at h
  exact dif_neg (of_decide_eq_false h)

theorem isUpper_toLower (c : Char) : c.toLower.isUpper = false := by
  by_cases hc : c.toNat < 128
  · exact forall_ascii (p := fun c => c.toLower.isUpper = false) (by decide) hc
  · rw [toLower_of_not_ascii hc]
    unfold Char.isUpper
    exact decide_eq_false fun h => hc (Nat.lt_of_le_of_lt h.2 (by decide))

theorem toLower_toUpper (c : Char) : c.toUpper.toLower = c.toLower := by
  by_cases hc : c.toNat < 128
  · exact forall_ascii (p := fun c => c.toUpper.toLower = c.toLower) (by decide) hc
  · rw [toUpper_of_not_ascii hc]

/-- The lowercase and the uppercase form of a character, and what they say about its case. -/
theorem letterCase?_ne_upper_iff (c : Char) : letterCase? c ≠ some .upper ↔ c.toLower = c := by
  by_cases hc : c.toNat < 128
  · exact forall_ascii (p := fun c => letterCase? c ≠ some .upper ↔ c.toLower = c) (by decide) hc
  · simp [letterCase?_of_not_ascii hc, toLower_of_not_ascii hc]

theorem letterCase?_ne_lower_iff (c : Char) :
    letterCase? c ≠ some .lower ↔ c.toLower.toUpper = c := by
  by_cases hc : c.toNat < 128
  · exact forall_ascii (p := fun c => letterCase? c ≠ some .lower ↔ c.toLower.toUpper = c)
      (by decide) hc
  · simp [letterCase?_of_not_ascii hc, toLower_of_not_ascii hc, toUpper_of_not_ascii hc]

/-! ## Letter case -/

/-- No letter of the text has the other case. -/
def InCase (k : LetterCase) (text : List Char) : Prop :=
  ∀ c ∈ text, ∀ k', letterCase? c = some k' → k' = k

/-- The text is written in one letter case. -/
def OneCase (text : List Char) : Prop := ∃ k, InCase k text

theorem noteCase_eq_ok {seen t : Option LetterCase} {c : Char} :
    noteCase seen c = .ok t ↔
      (letterCase? c = none ∧ t = seen) ∨
      ∃ k, letterCase? c = some k ∧ (∀ s ∈ seen, s = k) ∧ t = some k := by
  unfold noteCase
  cases letterCase? c with
  | none => simp [eq_comm]
  | some k =>
    cases seen with
    | none => simp [eq_comm]
    | some s =>
      by_cases h : s = k
      · simp [h, eq_comm]
      · simp [h]

theorem inCase_cons {k : LetterCase} {c : Char} {rest : List Char} :
    InCase k (c :: rest) ↔ (∀ k', letterCase? c = some k' → k' = k) ∧ InCase k rest :=
  List.forall_mem_cons

/-- The cases noted along a text are compatible if there is one case for all. -/
theorem foldlM_noteCase {seen : Option LetterCase} {text : List Char} :
    (∃ t, text.foldlM noteCase seen = .ok t) ↔ ∃ k, (∀ s ∈ seen, s = k) ∧ InCase k text := by
  induction text generalizing seen with
  | nil =>
    refine iff_of_true ⟨seen, rfl⟩ ⟨seen.getD .lower, fun s hs => ?_, nofun⟩
    rw [Option.mem_def.1 hs, Option.getD_some]
  | cons c rest ih =>
    constructor
    · rintro ⟨t, h⟩
      obtain ⟨u, hu, hrest⟩ := foldlM_cons_eq_ok.1 h
      obtain ⟨k, hk, hin⟩ := ih.1 ⟨t, hrest⟩
      rcases noteCase_eq_ok.1 hu with ⟨hc, rfl⟩ | ⟨k', hc, hseen, rfl⟩
      · exact ⟨k, hk, inCase_cons.2 ⟨fun k' hk' => by simp [hc] at hk', hin⟩⟩
      · obtain rfl : k' = k := hk k' rfl
        refine ⟨k', hseen, inCase_cons.2 ⟨fun k'' hk'' => ?_, hin⟩⟩
        exact Option.some.inj (hk''.symm.trans hc)
    · rintro ⟨k, hk, h⟩
      obtain ⟨hc, hin⟩ := inCase_cons.1 h
      simp only [foldlM_cons_eq_ok]
      cases hcase : letterCase? c with
      | none =>
        obtain ⟨t, ht⟩ := ih.2 ⟨k, hk, hin⟩
        exact ⟨t, seen, noteCase_eq_ok.2 (.inl ⟨hcase, rfl⟩), ht⟩
      | some k' =>
        obtain rfl := hc k' hcase
        obtain ⟨t, ht⟩ := ih.2 ⟨k', fun s hs => (Option.some.inj hs).symm, hin⟩
        exact ⟨t, some k', noteCase_eq_ok.2 (.inr ⟨k', hcase, hk, rfl⟩), ht⟩

theorem foldlM_noteCase_none {text : List Char} :
    (∃ t, text.foldlM noteCase none = .ok t) ↔ OneCase text := by
  rw [foldlM_noteCase]
  exact exists_congr fun k => and_iff_right nofun

theorem map_eq_self_iff {f : Char → Char} {text : List Char} :
    text.map f = text ↔ ∀ c ∈ text, f c = c := by
  have h := List.map_inj_left (l := text) (f := f) (g := id)
  rwa [List.map_id] at h

theorem inCase_lower_iff {text : List Char} : InCase .lower text ↔ lowercase text = text := by
  unfold InCase lowercase
  rw [map_eq_self_iff]
  refine forall₂_congr fun c _ => ?_
  rw [← letterCase?_ne_upper_iff]
  constructor
  · intro h e
    exact LetterCase.noConfusion (h _ e)
  · intro h k hk
    cases k with
    | lower => rfl
    | upper => exact absurd hk h

theorem inCase_upper_iff {text : List Char} :
    InCase .upper text ↔ (lowercase text).map Char.toUpper = text := by
  unfold InCase lowercase
  rw [List.map_map, map_eq_self_iff]
  refine forall₂_congr fun c _ => ?_
  rw [Function.comp_apply, ← letterCase?_ne_lower_iff]
  constructor
  · intro h e
    exact LetterCase.noConfusion (h _ e)
  · intro h k hk
    cases k with
    | lower => exact absurd hk h
    | upper => rfl

/-- A text is in one case if it is its own lowercase form, or the uppercase form of that. -/
theorem oneCase_iff {text : List Char} :
    OneCase text ↔ text = lowercase text ∨ text = (lowercase text).map Char.toUpper := by
  rw [eq_comm, ← inCase_lower_iff, eq_comm (a := text), ← inCase_upper_iff]
  constructor
  · rintro ⟨k, h⟩
    cases k with
    | lower => exact .inl h
    | upper => exact .inr h
  · rintro (h | h)
    · exact ⟨_, h⟩
    · exact ⟨_, h⟩

theorem lowercase_map_toUpper (text : List Char) :
    lowercase (text.map Char.toUpper) = lowercase text := by
  unfold lowercase
  rw [List.map_map]
  exact List.map_congr_left fun c _ => toLower_toUpper c

/-! ## The human-readable part -/

/-- The characters that a human-readable part may have. -/
def IsPrintable (c : Char) : Prop := 33 ≤ c.toNat ∧ c.toNat ≤ 126

/-- One to 83 printable characters. -/
structure IsHrp (text : List Char) : Prop where
  length_pos : 0 < text.length
  length_le : text.length ≤ maxHrpLength
  printable : ∀ c ∈ text, IsPrintable c

theorem utf8EncodeChar_of_ascii {c : Char} (hc : c.toNat < 128) :
    String.utf8EncodeChar c = [UInt8.ofNat c.toNat] := by
  unfold String.utf8EncodeChar
  exact if_pos (Nat.le_of_lt_succ hc)

theorem utf8EncodeChar_of_not_ascii {c : Char} (hc : ¬ c.toNat < 128) :
    ∃ b rest, String.utf8EncodeChar c = b :: rest ∧ ¬ b ≤ 126 := by
  have hv : ¬ c.val.toNat ≤ 127 := fun h => hc (Nat.lt_succ_of_le h)
  unfold String.utf8EncodeChar
  dsimp only
  rw [if_neg hv]
  split_ifs
  · refine ⟨_, _, rfl, ?_⟩
    rw [UInt8.le_iff_toNat_le]
    simp
    omega
  · refine ⟨_, _, rfl, ?_⟩
    rw [UInt8.le_iff_toNat_le]
    simp
    omega
  · refine ⟨_, _, rfl, ?_⟩
    rw [UInt8.le_iff_toNat_le]
    simp
    omega

/-- Of the bytes of a human-readable part exactly those of printable characters are accepted. -/
theorem scanHrp_eq_ok {seen t : Option LetterCase} {text : List Char} :
    scanHrp seen (text.flatMap String.utf8EncodeChar) = .ok t ↔
      (∀ c ∈ text, IsPrintable c) ∧ text.foldlM noteCase seen = .ok t := by
  induction text generalizing seen with
  | nil => simp [scanHrp]
  | cons c rest ih =>
    rw [List.flatMap_cons, List.forall_mem_cons, foldlM_cons_eq_ok]
    by_cases hc : c.toNat < 128
    · have hb : (UInt8.ofNat c.toNat).toNat = c.toNat :=
        UInt8.toNat_ofNat_of_lt' (Nat.lt_trans hc (by decide))
      have hprintable : (33 ≤ UInt8.ofNat c.toNat ∧ UInt8.ofNat c.toNat ≤ 126) ↔ IsPrintable c := by
        rw [UInt8.le_iff_toNat_le, UInt8.le_iff_toNat_le, hb]
        rfl
      rw [utf8EncodeChar_of_ascii hc, List.singleton_append, scanHrp, hb, Char.ofNat_toNat]
      by_cases hp : IsPrintable c
      · simp only [hprintable.2 hp, and_self, if_true, bind_eq_ok, ih, hp, true_and]
        constructor
        · rintro ⟨u, hu, hrest, ht⟩
          exact ⟨hrest, u, hu, ht⟩
        · rintro ⟨hrest, u, hu, ht⟩
          exact ⟨u, hu, hrest, ht⟩
      · simp [if_neg (fun h => hp (hprintable.1 h)), hp]
    · obtain ⟨b, more, hbytes, hb⟩ := utf8EncodeChar_of_not_ascii hc
      have hp : ¬ IsPrintable c := fun h => hc (Nat.lt_of_le_of_lt h.2 (by decide))
      rw [hbytes, List.cons_append, scanHrp, if_neg fun h => hb h.2]
      simp [hp]

theorem length_flatMap_utf8EncodeChar {text : List Char} (h : ∀ c ∈ text, IsPrintable c) :
    (text.flatMap String.utf8EncodeChar).length = text.length := by
  induction text with
  | nil => rfl
  | cons c rest ih =>
    obtain ⟨hc, hrest⟩ := List.forall_mem_cons.1 h
    have hascii : c.toNat < 128 := Nat.lt_of_le_of_lt hc.2 (by decide)
    rw [List.flatMap_cons, utf8EncodeChar_of_ascii hascii, List.singleton_append,
      List.length_cons, ih hrest, List.length_cons]

theorem checkHrp_eq_ok {text : List Char} {t : Option LetterCase} :
    checkHrp (Utf8.encode (String.ofList text)) = .ok t ↔
      IsHrp text ∧ text.foldlM noteCase none = .ok t := by
  unfold checkHrp Utf8.encode
  rw [String.toList_ofList]
  constructor
  · intro h
    split_ifs at h with hlength
    obtain ⟨hprintable, hcase⟩ := scanHrp_eq_ok.1 h
    rw [length_flatMap_utf8EncodeChar hprintable] at hlength
    exact ⟨⟨by omega, by omega, hprintable⟩, hcase⟩
  · rintro ⟨hhrp, hcase⟩
    have hlength := length_flatMap_utf8EncodeChar hhrp.printable
    have hpos := hhrp.length_pos
    have hle := hhrp.length_le
    rw [if_neg (by omega)]
    exact scanHrp_eq_ok.2 ⟨hhrp.printable, hcase⟩

/-- Letter case makes no difference to what can be a human-readable part. -/
theorem isPrintable_toLower_iff (c : Char) : IsPrintable c.toLower ↔ IsPrintable c := by
  by_cases hc : c.toNat < 128
  · unfold IsPrintable
    exact forall_ascii (p := fun c => (33 ≤ c.toLower.toNat ∧ c.toLower.toNat ≤ 126) ↔
      33 ≤ c.toNat ∧ c.toNat ≤ 126) (by decide) hc
  · rw [toLower_of_not_ascii hc]

theorem isHrp_lowercase_iff {text : List Char} : IsHrp (lowercase text) ↔ IsHrp text := by
  have hlength : (lowercase text).length = text.length := List.length_map _
  have hprintable : (∀ c ∈ lowercase text, IsPrintable c) ↔ ∀ c ∈ text, IsPrintable c := by
    unfold lowercase
    simp [isPrintable_toLower_iff]
  constructor
  · rintro ⟨hpos, hle, h⟩
    exact ⟨hlength ▸ hpos, hlength ▸ hle, hprintable.1 h⟩
  · rintro ⟨hpos, hle, h⟩
    exact ⟨hlength ▸ hpos, hlength ▸ hle, hprintable.2 h⟩

/-! ## Data symbols -/

theorem wordOfLower?_symbol : ∀ w : Word, wordOfLower? (symbol w) = some w := by decide +kernel

theorem symbol_ne_separator : ∀ w : Word, symbol w ≠ '1' := by decide +kernel

theorem toLower_symbol : ∀ w : Word, (symbol w).toLower = symbol w := by decide +kernel

theorem symbol_ascii : ∀ w : Word, (symbol w).toNat < 128 := by decide +kernel

theorem wordOfLower?_eq_some_iff {c : Char} {w : Word} :
    wordOfLower? c = some w ↔ c = symbol w := by
  constructor
  · intro h
    unfold wordOfLower? at h
    obtain ⟨i, hi, rfl⟩ := Option.map_eq_some_iff.1 h
    obtain ⟨hlt, hc, _⟩ := List.findIdx?_eq_some_iff_getElem.1 hi
    have hlength : alphabet.length = 32 := by decide +kernel
    have hmod : i % 2 ^ 5 = i := Nat.mod_eq_of_lt (by omega)
    unfold symbol
    rw [BitVec.toNat_ofNat, hmod, List.getD_eq_getElem?_getD, List.getElem?_eq_getElem hlt,
      Option.getD_some, of_decide_eq_true hc]
  · rintro rfl
    exact wordOfLower?_symbol w

theorem scanData_cons {seen : Option LetterCase} {c : Char} {rest : List Char} {words : List Word} :
    scanData seen (c :: rest) = .ok words ↔
      ∃ t w ws, noteCase seen c = .ok t ∧ c.toLower = symbol w ∧ scanData t rest = .ok ws ∧
        words = w :: ws := by
  rw [scanData]
  split_ifs with hc
  · -- no symbol has such a lowercase form
    refine iff_of_false nofun ?_
    rintro ⟨_, w, _, _, hw, _⟩
    have hascii := symbol_ascii w
    rw [← hw, toLower_of_not_ascii (by omega)] at hascii
    omega
  · rw [bind_eq_ok]
    refine exists_congr fun t => ?_
    simp only [exists_and_left]
    refine and_congr_right fun _ => ?_
    simp only [← wordOfLower?_eq_some_iff]
    cases wordOfLower? c.toLower with
    | none => simp
    | some w =>
      dsimp only
      rw [bind_eq_ok]
      simp only [pure_eq_ok, Except.ok.injEq, Option.some.injEq, exists_eq_left', eq_comm]

/-- The words of data symbols. -/
theorem scanData_eq_ok {seen : Option LetterCase} {text : List Char} {words : List Word} :
    scanData seen text = .ok words ↔
      lowercase text = words.map symbol ∧ ∃ t, text.foldlM noteCase seen = .ok t := by
  induction text generalizing seen words with
  | nil =>
    cases words with
    | nil => simp [scanData, lowercase]
    | cons w ws => simp [scanData, lowercase]
  | cons c rest ih =>
    simp only [scanData_cons, ih, foldlM_cons_eq_ok]
    constructor
    · rintro ⟨t, w, ws, ht, hw, ⟨hrest, u, hu⟩, rfl⟩
      refine ⟨?_, u, t, ht, hu⟩
      unfold lowercase at *
      rw [List.map_cons, hw, hrest, List.map_cons]
    · rintro ⟨hlower, u, t, ht, hu⟩
      unfold lowercase at *
      rw [List.map_cons, eq_comm, List.map_eq_cons_iff] at hlower
      obtain ⟨w, ws, rfl, hw, hrest⟩ := hlower
      exact ⟨t, w, ws, ht, hw.symm, ⟨hrest.symm, u, hu⟩, rfl⟩

/-! ## Whole texts -/

theorem splitAtSeparator?_append (before : List Char) {after : List Char} (h : '1' ∉ after) :
    splitAtSeparator? (before ++ '1' :: after) = some (before, after) := by
  have hne : ∀ c ∈ after.reverse, decide (c ≠ '1') = true := by
    intro c hc
    refine decide_eq_true fun e => ?_
    exact h (e ▸ List.mem_reverse.1 hc)
  have hreverse : (before ++ '1' :: after).reverse = after.reverse ++ '1' :: before.reverse := by
    simp
  unfold splitAtSeparator?
  rw [hreverse, List.dropWhile_append_of_pos hne, List.takeWhile_append_of_pos hne]
  simp

/-- The parts lie before and after the last separator. -/
theorem splitAtSeparator?_eq_some_iff {text before after : List Char} :
    splitAtSeparator? text = some (before, after) ↔
      text = before ++ '1' :: after ∧ '1' ∉ after := by
  constructor
  · intro h
    by_cases hmem : '1' ∈ text
    · obtain ⟨tail, head, htext, htail⟩ := List.eq_append_cons_of_mem (List.mem_reverse.2 hmem)
      obtain rfl : text = head.reverse ++ '1' :: tail.reverse := by
        rw [← text.reverse_reverse, htext]
        simp
      rw [splitAtSeparator?_append _ (fun e => htail (List.mem_reverse.1 e)), Option.some.injEq,
        Prod.mk.injEq] at h
      obtain ⟨rfl, rfl⟩ := h
      exact ⟨rfl, fun e => htail (List.mem_reverse.1 e)⟩
    · have hdrop : text.reverse.dropWhile (· ≠ '1') = [] := by
        rw [List.dropWhile_eq_nil_iff]
        intro c hc
        exact decide_eq_true fun e => hmem (e ▸ List.mem_reverse.1 hc)
      unfold splitAtSeparator? at h
      rw [hdrop] at h
      cases h
  · rintro ⟨rfl, h⟩
    exact splitAtSeparator?_append before h

/-- A text in one letter case that spells a human-readable part and words. -/
structure Spells (text hrp : List Char) (words : List Word) : Prop where
  lowercase_eq : lowercase text = hrp ++ '1' :: words.map symbol
  oneCase : OneCase text
  isHrp : IsHrp hrp

theorem separator_notMem_symbols (words : List Word) : '1' ∉ words.map symbol := by
  intro h
  obtain ⟨w, _, hw⟩ := List.mem_map.1 h
  exact symbol_ne_separator w hw

theorem toLower_eq_separator_iff (c : Char) : c.toLower = '1' ↔ c = '1' := by
  by_cases hc : c.toNat < 128
  · exact forall_ascii (p := fun c => c.toLower = '1' ↔ c = '1') (by decide) hc
  · rw [toLower_of_not_ascii hc]

/-- The separator is no letter. -/
theorem noteCase_separator (seen : Option LetterCase) : noteCase seen '1' = .ok seen := by
  cases seen with
  | none => rfl
  | some _ => rfl

/-- The parts that are scanned, of a text that spells something. -/
theorem spells_iff {text hrp : List Char} {words : List Word} :
    Spells text hrp words ↔ ∃ raw data t u, splitAtSeparator? text = some (raw, data) ∧
      lowercase raw = hrp ∧ checkHrp (Utf8.encode (String.ofList raw)) = .ok t ∧
      scanData t data = .ok words ∧ data.foldlM noteCase t = .ok u := by
  constructor
  · rintro ⟨hlower, hcase, hhrp⟩
    obtain ⟨raw, tail, rfl, hraw, htail⟩ := List.map_eq_append_iff.1 hlower
    obtain ⟨c, data, rfl, hc, hdata⟩ := List.map_eq_cons_iff.1 htail
    obtain rfl := (toLower_eq_separator_iff c).1 hc
    have hmem : '1' ∉ data := by
      intro h
      apply separator_notMem_symbols words
      rw [← hdata]
      exact List.mem_map.2 ⟨'1', h, rfl⟩
    obtain ⟨u, hu⟩ := foldlM_noteCase_none.2 hcase
    rw [List.foldlM_append, bind_eq_ok] at hu
    obtain ⟨t, ht, hu⟩ := hu
    rw [List.foldlM_cons, noteCase_separator, ok_bind] at hu
    have hhrp' : IsHrp (lowercase raw) := by rwa [show lowercase raw = hrp from hraw]
    refine ⟨raw, data, t, u, splitAtSeparator?_append raw hmem, hraw, ?_, ?_, hu⟩
    · exact checkHrp_eq_ok.2 ⟨isHrp_lowercase_iff.1 hhrp', ht⟩
    · exact scanData_eq_ok.2 ⟨hdata, u, hu⟩
  · rintro ⟨raw, data, t, u, hsplit, rfl, hcheck, hscan, hu⟩
    obtain ⟨rfl, _⟩ := splitAtSeparator?_eq_some_iff.1 hsplit
    obtain ⟨hhrp, ht⟩ := checkHrp_eq_ok.1 hcheck
    obtain ⟨hdata, _⟩ := scanData_eq_ok.1 hscan
    refine ⟨?_, ?_, isHrp_lowercase_iff.2 hhrp⟩
    · rw [← hdata]
      unfold lowercase
      rw [List.map_append, List.map_cons]
      rfl
    · refine foldlM_noteCase_none.1 ⟨u, ?_⟩
      rw [List.foldlM_append, ht, ok_bind, List.foldlM_cons, noteCase_separator, ok_bind, hu]

/-- A text is read if it spells a human-readable part and words that end in a valid checksum. -/
theorem decode_eq_ok_iff {text : String} {d : Decoded} :
    decode text = .ok d ↔ ∃ sum, sum.length = checksumLength ∧
      Spells text.toList d.hrp.toList (d.words ++ sum) ∧
      variant? (Utf8.encode d.hrp) (d.words ++ sum) = some d.variant := by
  unfold decode
  constructor
  · intro h
    cases hsplit : splitAtSeparator? text.toList with
    | none => simp [hsplit] at h
    | some parts =>
      obtain ⟨raw, data⟩ := parts
      simp only [hsplit] at h
      obtain ⟨t, hcheck, h⟩ := bind_eq_ok.1 h
      obtain ⟨words, hscan, h⟩ := bind_eq_ok.1 h
      split_ifs at h with hlength
      obtain ⟨_, u, hu⟩ := scanData_eq_ok.1 hscan
      cases hvariant : variant? (Utf8.encode (String.ofList (lowercase raw))) words with
      | none => simp [hvariant] at h
      | some variant =>
        simp only [hvariant, pure_eq_ok, Except.ok.injEq] at h
        subst h
        refine ⟨words.drop (words.length - checksumLength), ?_, ?_, ?_⟩
        · rw [List.length_drop]
          omega
        · rw [List.take_append_drop, String.toList_ofList]
          exact spells_iff.2 ⟨raw, data, t, u, hsplit, rfl, hcheck, hscan, hu⟩
        · rw [List.take_append_drop, hvariant]
  · rintro ⟨sum, hsum, hspells, hvariant⟩
    obtain ⟨hrp, words, variant⟩ := d
    dsimp only at hspells hvariant
    obtain ⟨raw, data, t, u, hsplit, hraw, hcheck, hscan, _⟩ := spells_iff.1 hspells
    have hhrp : String.ofList (lowercase raw) = hrp := by
      rw [hraw, String.ofList_toList]
    have hlength : ¬ (words ++ sum).length < checksumLength := by
      rw [List.length_append]
      omega
    have htake : (words ++ sum).take ((words ++ sum).length - checksumLength) = words := by
      rw [List.length_append, hsum, Nat.add_sub_cancel, List.take_left']
      rfl
    simp only [hsplit, hcheck, ok_bind, hscan, if_neg hlength, hhrp, hvariant, htake, pure_eq_ok]

/-- What is written in bech32: the lowercase form, with the checksum of the first variant. -/
theorem encode_eq_ok_iff {hrp text : String} {words : List Word} :
    encode hrp words = .ok text ↔ IsHrp hrp.toList ∧ OneCase hrp.toList ∧
      text.toList = lowercase hrp.toList ++ '1' :: (words ++ checksum .bech32
        (Utf8.encode (String.ofList (lowercase hrp.toList))) words).map symbol := by
  unfold encode
  rw [bind_eq_ok, ← foldlM_noteCase_none, ← and_assoc, ← exists_and_left, ← exists_and_right]
  refine exists_congr fun t => ?_
  rw [← checkHrp_eq_ok, String.ofList_toList, pure_eq_ok, Except.ok.injEq, ← String.toList_inj,
    String.toList_ofList, eq_comm (b := text.toList)]

end Restaking.Bech32
