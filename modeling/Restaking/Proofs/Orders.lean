import Restaking.Text.Utf8
import Mathlib.Data.String.Basic
import Mathlib.Tactic.SplitIfs

/-!
# The order of bytes

Rows of bytes are ordered as in a dictionary. Tables compare their keys by `compare`, which is this
order on bytes (`compare_lt_iff_lt`) and, by way of UTF-8, on texts (`compare_lt_iff_encode_lt`): a
text comes before another one if and only if its bytes do. That is so because the bytes of a greater
character are greater at the first place where they differ, however many there are
(`encodeChar_lt`).
-/

namespace Restaking

theorem compare_lt_iff_lt {s t : Bytes} : compare s t = .lt ↔ s < t := by
  induction s generalizing t with
  | nil =>
    cases t with
    | nil => simp
    | cons b t => simp [List.compare_nil_cons]
  | cons a s ih =>
    cases t with
    | nil => simp [List.compare_cons_nil]
    | cons b t =>
      rw [List.compare_cons_cons, Ordering.then_eq_lt, List.cons_lt_cons_iff, ih,
        Std.LawfulLTCmp.eq_lt_iff_lt, Std.LawfulEqCmp.compare_eq_iff_eq]

namespace Utf8

theorem ofNat_lt_ofNat_iff {a b : Nat} (ha : a < 256) (hb : b < 256) :
    UInt8.ofNat a < UInt8.ofNat b ↔ a < b := by
  rw [UInt8.lt_iff_toNat_lt, UInt8.toNat_ofNat_of_lt' ha, UInt8.toNat_ofNat_of_lt' hb]

theorem ofNat_eq_ofNat_iff {a b : Nat} (ha : a < 256) (hb : b < 256) :
    UInt8.ofNat a = UInt8.ofNat b ↔ a = b := by
  rw [← UInt8.toNat_inj, UInt8.toNat_ofNat_of_lt' ha, UInt8.toNat_ofNat_of_lt' hb]

/-- The bytes of a lesser character come first, whatever follows. -/
theorem encodeChar_lt {c d : Char} (h : c < d) (s t : Bytes) :
    String.utf8EncodeChar c ++ s < String.utf8EncodeChar d ++ t := by
  have hlt : c.val.toNat < d.val.toNat := h
  have hmax : d.val.toNat < 0x110000 := by
    have hvalid := d.valid
    unfold UInt32.isValidChar Nat.isValidChar at hvalid
    omega
  unfold String.utf8EncodeChar
  generalize c.val.toNat = m at hlt
  generalize d.val.toNat = n at hlt hmax
  -- the digits of a number come from one another by division
  have hdigits : ∀ k, k / 4096 = k / 64 / 64 ∧ k / 262144 = k / 64 / 64 / 64 := by
    intro k
    simp only [Nat.div_div_eq_div_mul, true_and]
  dsimp only
  rw [(hdigits m).1, (hdigits m).2, (hdigits n).1, (hdigits n).2]
  split_ifs <;>
    simp (disch := omega) only [List.cons_append, List.nil_append, List.cons_lt_cons_iff,
      ofNat_lt_ofNat_iff, ofNat_eq_ofNat_iff] <;>
    omega

theorem flatMap_encodeChar_lt {s t : List Char} (h : s < t) :
    s.flatMap String.utf8EncodeChar < t.flatMap String.utf8EncodeChar := by
  induction s generalizing t with
  | nil =>
    cases t with
    | nil => exact absurd h (List.not_lt_nil [])
    | cons d t =>
      have hne : (d :: t).flatMap String.utf8EncodeChar ≠ [] := by
        intro hnil
        have hlength := congrArg List.length (List.flatMap_eq_nil_iff.1 hnil d List.mem_cons_self)
        rw [String.length_utf8EncodeChar] at hlength
        exact Nat.ne_of_gt d.utf8Size_pos hlength
      obtain ⟨b, rest, hbytes⟩ := List.exists_cons_of_ne_nil hne
      rw [hbytes]
      exact List.nil_lt_cons b rest
  | cons c s ih =>
    cases t with
    | nil => exact absurd h (List.not_lt_nil (c :: s))
    | cons d t =>
      rw [List.flatMap_cons, List.flatMap_cons]
      rcases List.cons_lt_cons_iff.1 h with hlt | ⟨rfl, hlt⟩
      · exact encodeChar_lt hlt _ _
      · exact List.append_left_lt (ih hlt)

/-- UTF-8 keeps the order of texts. -/
theorem compare_encode (s t : String) : compare (encode s) (encode t) = compare s t := by
  have hlt : ∀ {s t : String}, compare s t = .lt → compare (encode s) (encode t) = .lt := by
    intro s t h
    rw [Std.LawfulLTCmp.eq_lt_iff_lt, String.lt_iff_toList_lt] at h
    exact compare_lt_iff_lt.2 (flatMap_encodeChar_lt h)
  cases h : compare s t with
  | lt => exact hlt h
  | eq =>
    obtain rfl := Std.LawfulEqCmp.compare_eq_iff_eq.1 h
    exact Std.ReflCmp.compare_self
  | gt => exact Std.OrientedCmp.gt_iff_lt.2 (hlt (Std.OrientedCmp.gt_iff_lt.1 h))

theorem compare_lt_iff_encode_lt {s t : String} : compare s t = .lt ↔ encode s < encode t := by
  rw [← compare_encode, compare_lt_iff_lt]

end Utf8

end Restaking
