/-!
# Sorted tables

A table holds at most one entry per key, in the order of the keys. Sortedness belongs to the type,
so a table is determined by what it holds (`Table.ext_get?`), and walking over the entries is
walking over the keys in order.

Looking up after writing obeys the two usual equations, `get?_insert_self` and `get?_insert_of_ne`.
-/

namespace Restaking

variable {κ α : Type} [Ord κ]

namespace Table

/-- Whether the keys of the entries ascend strictly. -/
def Sorted (entries : List (κ × α)) : Prop :=
  entries.Pairwise fun a b => compare a.1 b.1 = .lt

/-- The value under a key. -/
def lookup (k : κ) : List (κ × α) → Option α
  | [] => none
  | (k', a) :: rest => if compare k k' = .eq then some a else lookup k rest

/-- The entries with a value put under a key, in place of the one that was there. -/
def insertEntry (k : κ) (a : α) : List (κ × α) → List (κ × α)
  | [] => [(k, a)]
  | (k', a') :: rest =>
    match compare k k' with
    | .lt => (k, a) :: (k', a') :: rest
    | .eq => (k, a) :: rest
    | .gt => (k', a') :: insertEntry k a rest

theorem mem_insertEntry {k : κ} {a : α} {e : κ × α} {entries : List (κ × α)} :
    e ∈ insertEntry k a entries → e = (k, a) ∨ e ∈ entries := by
  fun_induction insertEntry k a entries <;> grind

variable [Std.TransOrd κ] [Std.LawfulEqOrd κ]

theorem Sorted.insertEntry {entries : List (κ × α)} (h : Sorted entries) (k : κ) (a : α) :
    Sorted (insertEntry k a entries) := by
  fun_induction Table.insertEntry k a entries with
  | case1 => simp [Sorted]
  | case2 k' a' rest hlt =>
    refine List.pairwise_cons.2 ⟨fun e he => ?_, h⟩
    rcases List.mem_cons.1 he with rfl | he
    · exact hlt
    · exact Std.TransCmp.lt_trans hlt ((List.pairwise_cons.1 h).1 e he)
  | case3 k' a' rest heq =>
    obtain rfl := Std.LawfulEqCmp.compare_eq_iff_eq.1 heq
    exact List.pairwise_cons.2 ⟨(List.pairwise_cons.1 h).1, (List.pairwise_cons.1 h).2⟩
  | case4 k' a' rest hgt ih =>
    refine List.pairwise_cons.2 ⟨fun e he => ?_, ih (List.pairwise_cons.1 h).2⟩
    rcases mem_insertEntry he with rfl | he
    · exact Std.OrientedCmp.gt_iff_lt.1 hgt
    · exact (List.pairwise_cons.1 h).1 e he

end Table

/-- A finite map whose entries are kept in the order of their keys. -/
structure Table (κ α : Type) [Ord κ] where
  /-- The entries, in order. -/
  entries : List (κ × α)
  /-- The keys ascend strictly. -/
  sorted : Table.Sorted entries

namespace Table

/-- The table without entries. -/
def empty : Table κ α := ⟨[], List.Pairwise.nil⟩

/-- The value under a key. -/
def get? (t : Table κ α) (k : κ) : Option α := lookup k t.entries

/-- Whether there is a value under a key. -/
def contains (t : Table κ α) (k : κ) : Bool := (t.get? k).isSome

/-- The number of entries. -/
def size (t : Table κ α) : Nat := t.entries.length

/-- The entry with the greatest key. -/
def last? (t : Table κ α) : Option (κ × α) := t.entries.getLast?

/-- The entries whose keys lie strictly above a bound, if there is a bound. -/
def above (t : Table κ α) : Option κ → List (κ × α)
  | none => t.entries
  | some bound => t.entries.filter fun e => compare bound e.1 = .lt

/-- Puts a value under a key, in place of the one that was there. -/
def insert [Std.TransOrd κ] [Std.LawfulEqOrd κ] (t : Table κ α) (k : κ) (a : α) : Table κ α :=
  ⟨insertEntry k a t.entries, t.sorted.insertEntry k a⟩

/-- Puts every entry of a second table over the first. -/
def overlay [Std.TransOrd κ] [Std.LawfulEqOrd κ] (t upper : Table κ α) : Table κ α :=
  upper.entries.foldl (fun t e => t.insert e.1 e.2) t

/-! ## What a table holds -/

@[simp] theorem get?_empty (k : κ) : (empty : Table κ α).get? k = none := rfl

theorem lookup_insertEntry_self [Std.LawfulEqOrd κ] (k : κ) (a : α) (entries : List (κ × α)) :
    lookup k (insertEntry k a entries) = some a := by
  fun_induction insertEntry k a entries <;> simp_all [lookup]

theorem lookup_insertEntry_of_ne [Std.LawfulEqOrd κ] {k k' : κ} (h : k' ≠ k) (a : α)
    (entries : List (κ × α)) : lookup k' (insertEntry k a entries) = lookup k' entries := by
  have hne : compare k' k ≠ .eq := fun e => h (Std.LawfulEqCmp.compare_eq_iff_eq.1 e)
  fun_induction insertEntry k a entries with
  | case1 => simp [lookup, hne]
  | case2 => simp [lookup, hne]
  | case3 k'' a' rest heq =>
    obtain rfl := Std.LawfulEqCmp.compare_eq_iff_eq.1 heq
    simp [lookup, hne]
  | case4 k'' a' rest _ ih => simp [lookup, ih]

/-- A key below all keys of the entries, or above all, has no value. -/
theorem lookup_eq_none {k : κ} {entries : List (κ × α)}
    (h : ∀ e ∈ entries, compare k e.1 ≠ .eq) : lookup k entries = none := by
  induction entries with
  | nil => rfl
  | cons e rest ih =>
    rw [lookup, if_neg (h e List.mem_cons_self), ih fun e he => h e (List.mem_cons_of_mem _ he)]

/-- A key below the first key has no value. -/
theorem lookup_head_none [Std.TransOrd κ] {k k' : κ} {a : α} {rest : List (κ × α)}
    (hs : Sorted ((k', a) :: rest)) (h : compare k k' = .lt) :
    lookup k ((k', a) :: rest) = none := by
  refine lookup_eq_none fun e he => ?_
  rcases List.mem_cons.1 he with rfl | he
  · simp [h]
  · simp [Std.TransCmp.lt_trans h ((List.pairwise_cons.1 hs).1 e he)]

section Laws

variable [Std.TransOrd κ] [Std.LawfulEqOrd κ]

@[simp] theorem get?_insert_self (t : Table κ α) (k : κ) (a : α) :
    (t.insert k a).get? k = some a :=
  lookup_insertEntry_self k a t.entries

theorem get?_insert_of_ne (t : Table κ α) {k k' : κ} (h : k' ≠ k) (a : α) :
    (t.insert k a).get? k' = t.get? k' :=
  lookup_insertEntry_of_ne h a t.entries

/-- Sorted entries are determined by what can be looked up in them. -/
theorem eq_of_lookup_eq {entries others : List (κ × α)} (hs : Sorted entries)
    (ho : Sorted others) (h : ∀ k, lookup k entries = lookup k others) : entries = others := by
  induction entries generalizing others with
  | nil =>
    cases others with
    | nil => rfl
    | cons e rest => simpa [lookup] using h e.1
  | cons e rest ih =>
    obtain ⟨k, a⟩ := e
    cases others with
    | nil => simpa [lookup] using h k
    | cons e' rest' =>
      obtain ⟨k', a'⟩ := e'
      have hk := h k
      have hk' := h k'
      cases hc : compare k k' with
      | lt =>
        rw [lookup_head_none ho hc] at hk
        simp [lookup] at hk
      | gt =>
        rw [lookup_head_none hs (Std.OrientedCmp.gt_iff_lt.1 hc)] at hk'
        simp [lookup] at hk'
      | eq =>
        obtain rfl := Std.LawfulEqCmp.compare_eq_iff_eq.1 hc
        obtain rfl : a = a' := by simpa [lookup] using hk
        have hrest : rest = rest' := by
          refine ih (List.pairwise_cons.1 hs).2 (List.pairwise_cons.1 ho).2 fun j => ?_
          have hj := h j
          by_cases e : compare j k = .eq
          · obtain rfl := Std.LawfulEqCmp.compare_eq_iff_eq.1 e
            rw [lookup_eq_none, lookup_eq_none]
            · intro e he
              simp [(List.pairwise_cons.1 ho).1 e he]
            · intro e he
              simp [(List.pairwise_cons.1 hs).1 e he]
          · simpa [lookup, e] using hj
        rw [hrest]

/-- Tables that hold the same values under the same keys are equal. -/
theorem ext_get? {t u : Table κ α} (h : ∀ k, t.get? k = u.get? k) : t = u := by
  obtain ⟨entries, hs⟩ := t
  obtain ⟨others, ho⟩ := u
  obtain rfl := eq_of_lookup_eq hs ho h
  rfl

end Laws

end Table

end Restaking
