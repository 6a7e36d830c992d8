import Restaking.Proofs.Histories
import Restaking.Proofs.Notices

/-!
# A height is told at most once

The heights that a notifier records ascend strictly along every run, however the contract is
switched, unset and set again in between, and whatever the executor does (`heights_ascend`).

1. A call records a height if the last height changes at the beginning of a block (`recorded?`).
   That is to say that the executor is called, and succeeds (`recorded?_beginBlock_eq_some`).
2. A recorded height lies above the last one and takes its place, and no other call moves the last
   height (`recorded?_cases`).
3. So the heights recorded in a run ascend, and the last of them is stored (`ascends_run`).
-/

namespace Restaking.Notifier

variable {σ : Type} (n : Notifier) (exec : Executor σ)

/-! ## Recorded heights -/

/-- The height that a call records: that of a block at whose beginning the last height changes. -/
def recorded? (st : Store × σ) : Event → Option Int64
  | .beginBlock h =>
    if (n.after exec st (.beginBlock h)).1.lastHeight = st.1.lastHeight then none else some h.height
  | _ => none

/-- The heights that the calls of a run record, in order. -/
def recorded (st : Store × σ) (events : List Event) : List Int64 :=
  notes (n.after exec) (n.recorded? exec) st events

variable {n} {s : Store} {host : σ} {h : Header}

theorem recorded?_beginBlock :
    n.recorded? exec (s, host) (.beginBlock h) =
      if (n.outcome exec (s, host) (.beginBlock h)).2.1.lastHeight = s.lastHeight then none
      else some h.height := rfl

/-- A height that has not been told is not the last one. -/
theorem Store.ne_of_not_told {height : Int64} (h : ¬ s.Told height) :
    some height ≠ s.lastHeight :=
  fun e => h ⟨height, e.symm, Int64.le_refl height⟩

/-- A call that records a height has told the contract, and one that records none leaves the last
height as it is. -/
theorem recorded?_cases (n : Notifier) (s : Store) (host : σ) (e : Event) :
    (n.recorded? exec (s, host) e = none ∧
      (n.after exec (s, host) e).1.lastHeight = s.lastHeight) ∨
    ∃ height, ¬ s.Told height ∧ n.recorded? exec (s, host) e = some height ∧
      (n.after exec (s, host) e).1.lastHeight = some height := by
  unfold after
  cases e with
  | endBlock h => exact .inl ⟨rfl, rfl⟩
  | sendNotice h contract gasLimit =>
    rw [outcome_sendNotice]
    exact .inl ⟨rfl, rfl⟩
  | updateParams sender p =>
    refine .inl ⟨rfl, ?_⟩
    show (perform s (n.updateParams sender p)).2.lastHeight = _
    rw [perform_updateParams]
    by_cases hsender : sender = n.authority
    · rw [if_pos hsender]
      exact lastHeight_perform_setParams n s p
    · rw [if_neg hsender]
  | initGenesis g =>
    refine .inl ⟨rfl, ?_⟩
    show (perform s (n.initGenesis g)).2.lastHeight = _
    rw [perform_initGenesis]
    exact lastHeight_perform_setParams n s g.params
  | beginBlock h =>
    rw [recorded?_beginBlock]
    rcases beginBlock_cases exec n s host h with
      ⟨_, _, houtcome⟩ | ⟨_, _, _, houtcome⟩ | ⟨_, hnew, _, host', houtcome | ⟨e, houtcome⟩⟩ <;>
      rw [houtcome]
    · exact .inl ⟨if_pos rfl, rfl⟩
    · exact .inl ⟨if_pos rfl, rfl⟩
    · exact .inr ⟨h.height, hnew, if_neg (Store.ne_of_not_told hnew), rfl⟩
    · exact .inl ⟨if_pos rfl, rfl⟩

/-- A height is recorded if and only if the executor is called and the call succeeds. -/
theorem recorded?_beginBlock_eq_some :
    n.recorded? exec (s, host) (.beginBlock h) = some h.height ↔
      (n.outcome exec (s, host) (.beginBlock h)).1 = .ok () ∧
        n.calls exec (s, host) (.beginBlock h) ≠ [] := by
  rw [recorded?_beginBlock]
  rcases beginBlock_cases exec n s host h with
    ⟨_, hcalls, houtcome⟩ | ⟨_, _, hcalls, houtcome⟩ |
      ⟨_, hnew, hcalls, host', houtcome | ⟨e, houtcome⟩⟩ <;>
    rw [houtcome]
  · simp [hcalls]
  · simp
  · have hne : n.calls exec (s, host) (.beginBlock h) ≠ [] :=
      List.ne_nil_of_length_eq_add_one hcalls
    simp [Store.ne_of_not_told hnew, hne]
  · simp

theorem length_calls_beginBlock_le :
    (n.calls exec (s, host) (.beginBlock h)).length ≤ 1 := by
  rcases beginBlock_cases exec n s host h with
    ⟨_, hcalls, _⟩ | ⟨_, _, hcalls, _⟩ | ⟨_, _, hcalls, _⟩
  · rw [hcalls]
    exact Nat.zero_le 1
  · rw [hcalls]
    exact Nat.zero_le 1
  · exact Nat.le_of_eq hcalls

theorem lastHeight_after (e : Event) :
    (n.after exec (s, host) e).1.lastHeight = (n.recorded? exec (s, host) e).or s.lastHeight := by
  rcases recorded?_cases exec n s host e with ⟨hnone, hsame⟩ | ⟨height, _, hsome, hlast⟩
  · rw [hnone, hsame, Option.none_or]
  · rw [hsome, hlast, Option.some_or]

theorem lt_of_recorded? {e : Event} {height last : Int64}
    (hrecorded : n.recorded? exec (s, host) e = some height) (hlast : s.lastHeight = some last) :
    last < height := by
  rcases recorded?_cases exec n s host e with ⟨hnone, _⟩ | ⟨height', hnew, hsome, _⟩
  · rw [hnone] at hrecorded
    cases hrecorded
  · obtain rfl := Option.some.inj (hsome.symm.trans hrecorded)
    exact Int64.not_le.1 fun hle => hnew ⟨last, hlast, hle⟩

/-- The heights recorded so far ascend, and the store holds the last of them. -/
def Ascends (st : Store × σ) (heights : List Int64) : Prop :=
  heights.Pairwise (· < ·) ∧ st.1.lastHeight = heights.getLast?

theorem ascends_after {heights : List Int64} (e : Event) (hs : Ascends (s, host) heights) :
    Ascends (n.after exec (s, host) e) (heights ++ (n.recorded? exec (s, host) e).toList) := by
  obtain ⟨hsorted, hlast⟩ := hs
  unfold Ascends
  rw [lastHeight_after]
  cases hr : n.recorded? exec (s, host) e with
  | none =>
    rw [Option.toList_none, List.append_nil, Option.none_or]
    exact ⟨hsorted, hlast⟩
  | some height =>
    rw [Option.toList_some, Option.some_or, List.getLast?_concat]
    refine ⟨List.pairwise_append.2 ⟨hsorted, List.pairwise_singleton _ _, ?_⟩, rfl⟩
    intro a ha b hb
    obtain rfl := List.mem_singleton.1 hb
    -- every height so far is the last one or lies below it
    cases hheights : heights.getLast? with
    | none =>
      rw [List.getLast?_eq_none_iff.1 hheights] at ha
      cases ha
    | some last =>
      have hlt : last < b := lt_of_recorded? exec hr (hlast.trans hheights)
      obtain ⟨init, rfl⟩ := List.getLast?_eq_some_iff.1 hheights
      rcases List.mem_append.1 ha with ha | ha
      · exact Int64.lt_trans ((List.pairwise_append.1 hsorted).2.2 a ha last List.mem_cons_self) hlt
      · obtain rfl := List.mem_singleton.1 ha
        exact hlt

theorem ascends_run (events : List Event) :
    Ascends (n.run exec (.empty, host) events) (n.recorded exec (.empty, host) events) := by
  have hempty : Ascends (Store.empty, host) [] := ⟨List.Pairwise.nil, rfl⟩
  exact notes_rel Ascends (ascends_after exec) hempty events

/-! ## At most once -/

/-- Along every run the recorded heights ascend strictly, and the last height is always the last of
them. Whatever is stored and whatever the host is like, only a recording call moves the last height.
When a block begins, the executor is called at most once; if no contract is set, or the height is
not above the last one, it is not called and nothing is stored. The height of the block is recorded
if and only if the executor is called and the call succeeds. The calls are those that a watched
executor logs, which makes no other difference. -/
theorem heights_ascend (n : Notifier) (exec : Executor σ) (host : σ) (events : List Event) :
    (n.recorded exec (.empty, host) events).Pairwise (· < ·) ∧
      (n.run exec (.empty, host) events).1.lastHeight =
        (n.recorded exec (.empty, host) events).getLast? ∧
      ∀ (s : Store) (host : σ),
        (∀ e, (n.after exec (s, host) e).1.lastHeight =
          (n.recorded? exec (s, host) e).or s.lastHeight) ∧
        (∀ e log, n.outcome exec.watched (s, host, log) e =
          ((n.outcome exec (s, host) e).1, (n.outcome exec (s, host) e).2.1,
            (n.outcome exec (s, host) e).2.2, log ++ n.calls exec (s, host) e)) ∧
        ∀ h, (n.calls exec (s, host) (.beginBlock h)).length ≤ 1 ∧
          (n.IsUnset s →
            n.outcome exec (s, host) (.beginBlock h) = (.ok (), s, host) ∧
              n.calls exec (s, host) (.beginBlock h) = []) ∧
          (¬ n.IsUnset s → s.Told h.height →
            n.outcome exec (s, host) (.beginBlock h) =
                (.error (.alreadyNotified h.height), s, host) ∧
              n.calls exec (s, host) (.beginBlock h) = []) ∧
          (n.recorded? exec (s, host) (.beginBlock h) = some h.height ↔
            (n.outcome exec (s, host) (.beginBlock h)).1 = .ok () ∧
              n.calls exec (s, host) (.beginBlock h) ≠ []) := by
  have hascends :
      Ascends (n.run exec (.empty, host) events) (n.recorded exec (.empty, host) events) :=
    ascends_run exec events
  refine ⟨hascends.1, hascends.2, fun s host => ⟨lastHeight_after exec,
    fun e log => outcome_watched exec log e, fun h => ⟨length_calls_beginBlock_le exec,
      fun hunset => ?_, fun hset htold => ?_, recorded?_beginBlock_eq_some exec⟩⟩⟩
  · exact ⟨outcome_beginBlock_of_unset exec hunset, calls_beginBlock_of_unset exec hunset⟩
  · exact ⟨outcome_beginBlock_of_told exec hset htold, calls_beginBlock_of_told exec hset htold⟩

end Restaking.Notifier

/-! ## A run that switches the contract -/

namespace Restaking

open Notifier (Event Params)

namespace Sample

/-- A notifier whose parameters were never set. -/
def notifier : Notifier where
  authority := "gov"
  hrp := "bbn"
  unset := "bbn1qqqqqqqqqqqqqqqqqqqqqqqqqqqqqqqqya3wcy"

/-- An executor that counts its runs. -/
def counting : Executor Nat := fun _ _ => modify fun (meter, count) => (meter, count + 1)

def header (height : Int64) : Header where
  height := height
  hash := [0xab]
  time := .ofSeconds 1714564800
  chainId := "osmosis-1"
  appHash := [0xcd]

/-- The parameters that name a contract. -/
def naming (contract : String) : Params := ⟨contract, notifier.unset, 100⟩

/-- A contract is set, unset, and replaced by another, and blocks begin in between. -/
def switching : List Event :=
  [.beginBlock (header 4),
    .updateParams "gov" (naming "bbn1qyqszqgpqyqszqgpqyqszqgpqyqszqgp9ds0j9"),
    .beginBlock (header 5), .beginBlock (header 5), .updateParams "gov" (naming notifier.unset),
    .beginBlock (header 9),
    .updateParams "gov"
      (naming "bbn1qgpqyqszqgpqyqszqgpqyqszqgpqyqszqgpqyqszqgpqyqszqgpquyurg5"),
    .beginBlock (header (-3)), .beginBlock (header 7)]

/-- A store with a contract that has been told about the seventh block. -/
def told : Notifier.Store where
  params := some (naming "bbn1qyqszqgpqyqszqgpqyqszqgpqyqszqgp9ds0j9")
  lastHeight := some 7

end Sample

namespace Notifier

/-- The fifth and the seventh block are recorded. As long as no contract is set no block is told,
and a block that has been told is not told again. -/
theorem heights_ascend_switching :
    Sample.notifier.recorded Sample.counting (.empty, 0) Sample.switching = [5, 7] ∧
      (Sample.notifier.run Sample.counting (.empty, 0) Sample.switching).1.lastHeight = some 7 ∧
      Sample.notifier.calls Sample.counting (.empty, 0) (.beginBlock (Sample.header 4)) = [] ∧
      Sample.notifier.calls Sample.counting (Sample.told, 0) (.beginBlock (Sample.header 7)) =
        [] := by
  have hrecorded :
      Sample.notifier.recorded Sample.counting (.empty, 0) Sample.switching = [5, 7] := by
    decide +kernel
  have hunset : Sample.notifier.IsUnset .empty := by
    unfold IsUnset
    decide +kernel
  have hset : ¬ Sample.notifier.IsUnset Sample.told := by
    unfold IsUnset
    decide +kernel
  have htold : Sample.told.Told (Sample.header 7).height := ⟨7, rfl, Int64.le_refl 7⟩
  obtain ⟨_, hlast, hcalls⟩ := heights_ascend Sample.notifier Sample.counting 0 Sample.switching
  obtain ⟨_, _, hempty⟩ := hcalls .empty 0
  obtain ⟨_, _, hagain⟩ := hcalls Sample.told 0
  obtain ⟨_, hskipped, _⟩ := hempty (Sample.header 4)
  obtain ⟨_, _, hrefused, _⟩ := hagain (Sample.header 7)
  rw [hrecorded] at hlast
  exact ⟨hrecorded, hlast, (hskipped hunset).2, (hrefused hset htold).2⟩

end Notifier

end Restaking
