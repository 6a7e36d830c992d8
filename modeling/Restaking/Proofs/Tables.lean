import Restaking.Table
import Mathlib.Tactic.SplitIfs

/-!
# Looking up in tables

Insertion and overlay as equations on what can be looked up. Tables with the same lookups are
equal, so an identity of tables is proved key by key. What lies above an entry is what comes behind
it (`filter_above`). A table grows by one whenever a value is put under a new key (`size_insert`).
-/

namespace Restaking.Table

variable {κ α : Type} [Ord κ] [Std.LawfulEqOrd κ]

/-! ## Entries -/

omit [Std.LawfulEqOrd κ] in
/-- The first key does not come again. -/
theorem lookup_tail_none {k : κ} {a : α} {rest : List (κ × α)} (hs : Sorted ((k, a) :: rest)) :
    lookup k rest = none := by
  apply lookup_eq_none
  intro e he
  simp [(List.pairwise_cons.1 hs).1 e he]

theorem lookup_eq_some_iff {entries : List (κ × α)} (hs : Sorted entries) {k : κ} {a : α} :
    lookup k entries = some a ↔ (k, a) ∈ entries := by
  induction entries with
  | nil => simp [lookup]
  | cons e rest ih =>
    obtain ⟨k', a'⟩ := e
    rw [lookup, List.mem_cons, Prod.mk.injEq, ← ih (List.pairwise_cons.1 hs).2]
    split_ifs with hk
    · obtain rfl := Std.LawfulEqCmp.compare_eq_iff_eq.1 hk
      simp [lookup_tail_none hs, eq_comm]
    · have hne : k ≠ k' := fun e => hk (Std.LawfulEqCmp.compare_eq_iff_eq.2 e)
      simp [hne]

omit [Std.LawfulEqOrd κ] in
/-- The entries above one of them are those behind it. -/
theorem filter_above [Std.TransOrd κ] {before rest : List (κ × α)} {e : κ × α}
    (hs : Sorted (before ++ e :: rest)) :
    (before ++ e :: rest).filter (fun e' => compare e.1 e'.1 = .lt) = rest := by
  obtain ⟨_, htail, hbefore⟩ := List.pairwise_append.1 hs
  obtain ⟨hrest, _⟩ := List.pairwise_cons.1 htail
  have hnone : before.filter (fun e' => compare e.1 e'.1 = .lt) = [] := by
    rw [List.filter_eq_nil_iff]
    intro e' he'
    simp [Std.OrientedCmp.gt_iff_lt.2 (hbefore e' he' e List.mem_cons_self)]
  have hall : rest.filter (fun e' => compare e.1 e'.1 = .lt) = rest :=
    List.filter_eq_self.2 fun e' he' => decide_eq_true (hrest e' he')
  rw [List.filter_append, hnone, List.nil_append, List.filter_cons_of_neg (by simp), hall]

/-- Looking up finds exactly the entries. -/
theorem get?_eq_some_iff {t : Table κ α} {k : κ} {a : α} :
    t.get? k = some a ↔ (k, a) ∈ t.entries := lookup_eq_some_iff t.sorted

/-- No key lies above the last one. -/
theorem le_last {t : Table κ α} {k j : κ} {a b : α} (hl : t.last? = some (k, a))
    (hj : t.get? j = some b) : compare j k = .lt ∨ j = k := by
  obtain ⟨init, hinit⟩ := List.getLast?_eq_some_iff.1 hl
  have hs := t.sorted
  have hmem := get?_eq_some_iff.1 hj
  rw [hinit] at hs hmem
  rcases List.mem_append.1 hmem with h | h
  · exact .inl ((List.pairwise_append.1 hs).2.2 _ h _ List.mem_cons_self)
  · exact .inr (Prod.mk.inj (List.mem_singleton.1 h)).1

/-- The last entry is the one whose key no other lies above. -/
theorem last?_eq_some_iff [Std.OrientedOrd κ] {t : Table κ α} {k : κ} {a : α} :
    t.last? = some (k, a) ↔
      t.get? k = some a ∧ ∀ j b, t.get? j = some b → compare j k = .lt ∨ j = k := by
  have hstored : ∀ {j b}, t.last? = some (j, b) → t.get? j = some b :=
    fun h => get?_eq_some_iff.2 (List.mem_of_getLast? h)
  constructor
  · intro hl
    exact ⟨hstored hl, fun j b => le_last hl⟩
  · rintro ⟨hk, hmax⟩
    cases hl : t.last? with
    | none =>
      have hnil : t.entries = [] := List.getLast?_eq_none_iff.1 hl
      rw [get?_eq_some_iff, hnil] at hk
      cases hk
    | some e =>
      obtain ⟨j, b⟩ := e
      obtain rfl : j = k := by
        rcases le_last hl hk with hkj | rfl
        · rcases hmax j b (hstored hl) with hjk | rfl
          · rw [Std.OrientedCmp.gt_iff_lt.2 hkj] at hjk
            cases hjk
          · rfl
        · rfl
      obtain rfl : b = a := Option.some.inj ((hstored hl).symm.trans hk)
      rfl

/-! ## Tables of other values -/

variable {β : Type}

/-- The table with other values under the same keys. -/
def mapValues (f : α → β) (t : Table κ α) : Table κ β where
  entries := t.entries.map fun e => (e.1, f e.2)
  sorted := by
    unfold Sorted
    exact List.pairwise_map.2 t.sorted

omit [Std.LawfulEqOrd κ] in
theorem lookup_map (f : α → β) (k : κ) (entries : List (κ × α)) :
    lookup k (entries.map fun e => (e.1, f e.2)) = (lookup k entries).map f := by
  induction entries with
  | nil => rfl
  | cons e rest ih =>
    rw [List.map_cons, lookup, lookup, ih]
    split_ifs <;> rfl

omit [Std.LawfulEqOrd κ] in
theorem get?_mapValues (f : α → β) (t : Table κ α) (k : κ) :
    (t.mapValues f).get? k = (t.get? k).map f :=
  lookup_map f k t.entries

/-! ## Insertion and overlay -/

variable [Std.TransOrd κ] [DecidableEq κ]

theorem get?_insert (t : Table κ α) (k j : κ) (a : α) :
    (t.insert k a).get? j = if j = k then some a else t.get? j := by
  by_cases h : j = k
  · rw [if_pos h, h, get?_insert_self]
  · rw [if_neg h, get?_insert_of_ne t h]

omit [Std.LawfulEqOrd κ] [DecidableEq κ] in
theorem length_insertEntry {entries : List (κ × α)} (hs : Sorted entries) (k : κ) (a : α) :
    (insertEntry k a entries).length =
      if (lookup k entries).isSome then entries.length else entries.length + 1 := by
  fun_induction insertEntry k a entries with
  | case1 => rfl
  | case2 k' a' rest hlt =>
    rw [lookup_head_none hs hlt]
    rfl
  | case3 k' a' rest heq =>
    rw [lookup, if_pos heq]
    rfl
  | case4 k' a' rest hgt ih =>
    have hne : compare k k' ≠ .eq := by rw [hgt]; decide
    rw [List.length_cons, ih (List.pairwise_cons.1 hs).2, lookup, if_neg hne, List.length_cons]
    split_ifs <;> rfl

omit [DecidableEq κ] in
/-- A table grows by the entries under new keys. -/
theorem size_insert (t : Table κ α) (k : κ) (a : α) :
    (t.insert k a).size = if (t.get? k).isSome then t.size else t.size + 1 :=
  length_insertEntry t.sorted k a

/-- Putting back what is there changes nothing. -/
theorem insert_eq_self {t : Table κ α} {k : κ} {a : α} (h : t.get? k = some a) :
    t.insert k a = t := by
  apply ext_get?
  intro j
  rw [get?_insert]
  split_ifs with e
  · rw [e, h]
  · rfl

theorem get?_foldl_insert {entries : List (κ × α)} (hs : Sorted entries) (t : Table κ α) (j : κ) :
    (entries.foldl (fun t e => t.insert e.1 e.2) t).get? j = (lookup j entries).or (t.get? j) := by
  induction entries generalizing t with
  | nil => rfl
  | cons e rest ih =>
    rw [List.foldl_cons, ih (List.pairwise_cons.1 hs).2, get?_insert, lookup]
    by_cases h : j = e.1
    · subst h
      simp [lookup_tail_none hs]
    · have hne : compare j e.1 ≠ .eq := fun e => h (Std.LawfulEqCmp.compare_eq_iff_eq.1 e)
      simp [h, hne]

/-- The upper table shadows the lower one. -/
theorem get?_overlay (t upper : Table κ α) (j : κ) :
    (t.overlay upper).get? j = (upper.get? j).or (t.get? j) := get?_foldl_insert upper.sorted t j

theorem overlay_insert (t upper : Table κ α) (k : κ) (a : α) :
    t.overlay (upper.insert k a) = (t.overlay upper).insert k a := by
  apply ext_get?
  intro j
  simp only [get?_overlay, get?_insert]
  split_ifs <;> rfl

theorem mapValues_overlay (f : α → β) (t upper : Table κ α) :
    (t.overlay upper).mapValues f = (t.mapValues f).overlay (upper.mapValues f) := by
  apply ext_get?
  intro j
  rw [get?_mapValues, get?_overlay, get?_overlay, get?_mapValues, get?_mapValues, Option.map_or]

end Restaking.Table
