import Restaking.Registry.Query
import Restaking.Proofs.Results
import Restaking.Proofs.Tables

/-!
# Reading a list page by page

A reader asks for a page, goes on after the last entry of it, and stops at an empty page (`walk`).
What the reader has in hand is never a position, but an entry. If the page after an entry starts
right behind it (`Serves`), the pages together are the list (`Serves.walk`), whatever sizes were
asked for, as long as none of them is zero.

1. A page and the pages of what is behind it are the pages of the list (`Covers.cons`).
2. So the pages are those of the list by induction on the limits, where the reader is at any entry
   of the list (`Serves.walk_after`).
3. A list that is kept in the order of its keys serves, if a page consists of the first entries
   whose keys are greater than that of the entry (`Table.filter_above`).
-/

namespace Restaking

open Registry (pageSize)

variable {α ε : Type}

/-! ## Pages -/

theorem pageSize_pos {limit : Option UInt32} (h : limit ≠ some 0) : 0 < pageSize limit := by
  have hne : limit.getD Registry.defaultPageSize ≠ 0 := by
    cases limit with
    | none => decide
    | some n => exact fun hn => h (congrArg some hn)
  have hpos : (limit.getD Registry.defaultPageSize).toNat ≠ 0 := fun hn =>
    hne (UInt32.toNat_inj.1 hn)
  exact Nat.lt_min.2 ⟨Nat.pos_of_ne_zero hpos, by decide⟩

/-- The pages of a list, as they come for limits. Absent a limit a page has up to ten entries, and
none has more than thirty. -/
structure Covers (all : List α) (limits : List (Option UInt32)) (pages : List (List α)) : Prop where
  /-- Entries come in order, and none is left out or comes again. -/
  inOrder : pages.flatten <+: all
  /-- Up to an empty page all entries have come. -/
  complete : [] ∈ pages → pages.flatten = all
  /-- There is a page for every limit, if no page is empty before. -/
  stops : pages.length ≤ limits.length ∧
    (pages.length = limits.length ∨ pages.getLast? = some [])
  /-- There is an empty page, if there are more limits than entries. -/
  ends : all.length < limits.length → pages.getLast? = some []
  /-- A page is as long as its limit allows, unless there is nothing left. -/
  sizes : ∀ i page limit, pages[i]? = some page → limits[i]? = some limit →
    page.length ≤ min (limit.getD 10).toNat 30 ∧
      (page.length < min (limit.getD 10).toNat 30 → (pages.take (i + 1)).flatten = all)

namespace Covers

theorem nil (all : List α) : Covers all [] [] where
  inOrder := List.nil_prefix
  complete h := absurd h List.not_mem_nil
  stops := ⟨Nat.le_refl 0, .inl rfl⟩
  ends h := absurd h (Nat.not_lt_zero _)
  sizes i page limit hpage := by
    rw [List.getElem?_nil] at hpage
    cases hpage

/-- Of an empty list there is one page, and it is empty. -/
theorem last (limit : Option UInt32) (limits : List (Option UInt32)) :
    Covers ([] : List α) (limit :: limits) [[]] where
  inOrder := List.prefix_refl []
  complete _ := rfl
  stops := ⟨Nat.le_add_left 1 _, .inr rfl⟩
  ends _ := rfl
  sizes i page limit' hpage _ := by
    obtain rfl := List.mem_singleton.1 (List.mem_of_getElem? hpage)
    refine ⟨Nat.zero_le _, fun _ => ?_⟩
    rw [List.take_succ_cons, List.take_nil]
    rfl

/-- The first page, and the pages of what is behind it. -/
theorem cons {all : List α} (hall : all ≠ []) {limit : Option UInt32} (hlimit : limit ≠ some 0)
    {limits : List (Option UInt32)} {pages : List (List α)}
    (h : Covers (all.drop (pageSize limit)) limits pages) :
    Covers all (limit :: limits) (all.take (pageSize limit) :: pages) := by
  have hsize : 0 < pageSize limit := pageSize_pos hlimit
  have hsplit : all.take (pageSize limit) ++ all.drop (pageSize limit) = all :=
    List.take_append_drop _ all
  have hfirst : all.take (pageSize limit) ≠ [] := by
    rw [Ne, List.take_eq_nil_iff]
    exact fun hnil => hnil.elim (Nat.ne_of_gt hsize) hall
  have hlast : pages.getLast? = some [] →
      (all.take (pageSize limit) :: pages).getLast? = some [] := by
    intro hempty
    rw [List.getLast?_cons, hempty, Option.getD_some]
  refine ⟨?_, ?_, ⟨Nat.succ_le_succ h.stops.1, ?_⟩, ?_, ?_⟩
  · obtain ⟨rest, hrest⟩ := h.inOrder
    exact ⟨rest, by rw [List.flatten_cons, List.append_assoc, hrest, hsplit]⟩
  · intro hempty
    rcases List.mem_cons.1 hempty with hnil | hmem
    · exact absurd hnil.symm hfirst
    · rw [List.flatten_cons, h.complete hmem, hsplit]
  · exact h.stops.2.imp (congrArg Nat.succ) hlast
  · intro hlt
    have hpos : 0 < all.length := List.length_pos_iff.2 hall
    refine hlast (h.ends ?_)
    rw [List.length_drop]
    rw [List.length_cons] at hlt
    omega
  · intro i page limit' hpage hlimit'
    cases i with
    | zero =>
      obtain rfl := Option.some.inj hpage
      obtain rfl := Option.some.inj hlimit'
      refine ⟨List.length_take_le _ _, fun hlt => ?_⟩
      have hlt : (all.take (pageSize limit)).length < pageSize limit := hlt
      rw [List.length_take] at hlt
      show (all.take (pageSize limit) ++ []) = all
      rw [List.append_nil, List.take_of_length_le (by omega)]
    | succ i =>
      obtain ⟨hle, hfull⟩ := h.sizes i page limit' hpage hlimit'
      refine ⟨hle, fun hlt => ?_⟩
      rw [List.take_succ_cons, List.flatten_cons, hfull hlt, hsplit]

end Covers

/-! ## Walks -/

/-- The pages that a reader gets who asks for one page per limit, each after the last entry of the
page before, and stops at an empty page. Of an entry the reader keeps a text. -/
def walk (fetch : Option String → Option UInt32 → Except ε (List α)) (cursor : α → String)
    (after : Option String) : List (Option UInt32) → Except ε (List (List α))
  | [] => return []
  | limit :: limits => do
    let page ← fetch after limit
    match page.getLast? with
    | none => return [[]]
    | some last => return page :: (← walk fetch cursor (cursor last) limits)

/-- The first page starts at the beginning of a list, and the page after an entry right behind it.
-/
structure Serves (fetch : Option String → Option UInt32 → Except ε (List α)) (cursor : α → String)
    (all : List α) : Prop where
  first : ∀ limit, fetch none limit = .ok (all.take (pageSize limit))
  next : ∀ {before e rest}, all = before ++ e :: rest →
    ∀ limit, fetch (some (cursor e)) limit = .ok (rest.take (pageSize limit))

namespace Serves

variable {fetch : Option String → Option UInt32 → Except ε (List α)} {cursor : α → String}
  {all : List α}

/-- A walk that goes on from anywhere in the list gets what is left of it. -/
theorem walk_after (h : Serves fetch cursor all) {limits : List (Option UInt32)}
    (hlimits : ∀ limit ∈ limits, limit ≠ some 0) {before rest : List α}
    (hrest : all = before ++ rest) {after : Option String}
    (hafter : ∀ limit, fetch after limit = .ok (rest.take (pageSize limit))) :
    ∃ pages, walk fetch cursor after limits = .ok pages ∧ Covers rest limits pages := by
  -- where the reader is makes no difference, as long as the next page begins with what is left
  induction limits generalizing before rest after with
  | nil => exact ⟨[], rfl, .nil rest⟩
  | cons limit limits ih =>
    obtain ⟨hlimit, hlimits⟩ := List.forall_mem_cons.1 hlimits
    rw [walk, hafter limit, ok_bind]
    cases hlast : (rest.take (pageSize limit)).getLast? with
    | none =>
      have hnil : rest = [] := by
        rw [List.getLast?_eq_none_iff, List.take_eq_nil_iff] at hlast
        exact hlast.resolve_left (Nat.ne_of_gt (pageSize_pos hlimit))
      rw [hnil]
      exact ⟨[[]], rfl, .last limit limits⟩
    | some last =>
      -- behind the last entry of the page begins what is behind the page
      obtain ⟨init, hinit⟩ := List.getLast?_eq_some_iff.1 hlast
      have hbehind : all = (before ++ init ++ [last]) ++ rest.drop (pageSize limit) := by
        rw [List.append_assoc before, ← hinit, List.append_assoc, List.take_append_drop, hrest]
      have hsplit : all = (before ++ init) ++ last :: rest.drop (pageSize limit) := by
        rw [hbehind, List.append_assoc _ [last], List.singleton_append]
      obtain ⟨pages, hwalk, hcovers⟩ := ih hlimits hbehind (h.next hsplit)
      have hne : rest ≠ [] := by
        rintro rfl
        rw [List.take_nil] at hlast
        cases hlast
      refine ⟨rest.take (pageSize limit) :: pages, ?_, .cons hne hlimit hcovers⟩
      dsimp only
      rw [hwalk]
      rfl

/-- A list is served in the order of its keys, if a page after an entry has those whose keys are
greater. -/
theorem of_sorted {κ : Type} [Ord κ] [Std.TransOrd κ] {entries : List (κ × α)}
    (hs : Table.Sorted entries)
    (hfirst : ∀ limit, fetch none limit = .ok ((entries.map (·.2)).take (pageSize limit)))
    (hnext : ∀ e ∈ entries, ∀ limit, fetch (some (cursor e.2)) limit =
      .ok (((entries.filter fun e' => compare e.1 e'.1 = .lt).map (·.2)).take (pageSize limit))) :
    Serves fetch cursor (entries.map (·.2)) where
  first := hfirst
  next {before a rest} h limit := by
    obtain ⟨init, tail, rfl, rfl, htail⟩ := List.map_eq_append_iff.1 h
    obtain ⟨e, tail, rfl, rfl, rfl⟩ := List.map_eq_cons_iff.1 htail
    rw [hnext e (List.mem_append_right init List.mem_cons_self), Table.filter_above hs]

/-- A walk from the beginning gets the whole list. -/
theorem walk (h : Serves fetch cursor all) {limits : List (Option UInt32)}
    (hlimits : ∀ limit ∈ limits, limit ≠ some 0) :
    ∃ pages, walk fetch cursor none limits = .ok pages ∧ Covers all limits pages :=
  h.walk_after hlimits (List.nil_append all).symm h.first

end Serves

end Restaking
