import Restaking.Chain
import Restaking.Proofs.Heights
import Restaking.Proofs.WireForms

/-!
# The last block, as the notifier and the registry know it

The notifier remembers a height, the registry the notice of a block, and neither sees the other. On
a host that runs the registry for a price, whatever it asks for each call, the two agree along every
run: the registry holds the notice of the last block of which it was told, and the notifier the
height of that block (`last_block_agrees`). So the heights that the registry sees ascend, although
it takes every notice that it gets.

1. The message of a notice is read back as the notice (`Header.ofMessage?_message`), so the registry
   takes in the header as the notifier has it (`runFrom_deliver`).
2. The registry is run if and only if the price is within the limit, and then the meter has no
   objection when it is read again at the end (`executed_priced`).
3. So the registry changes with the calls that dispatch a block, and with no others
   (`registry_after`). These are the calls that record a height (`recorded?_eq_map`).
4. Along a run the registry therefore holds the notice of the last block that was dispatched
   (`reports_run`), and the blocks that were dispatched ascend (`ascends_dispatched`).
-/

namespace Restaking

/-! ## A host that asks a price -/

namespace Host

/-- The executor that charges a price for every call, and hands the message to the registry if the
price is within the limit. The price may depend on all that has happened on the host. -/
def priced (price : Host → String → String → UInt64) : Executor Host := fun contract message => do
  modify fun (meter, host) => (meter, { host with calls := host.calls ++ [(contract, message)] })
  charge (price (← get).2 contract message)
  deliver message

theorem runFrom_charge (amount : UInt64) (meter : GasMeter) (host : Host) :
    runFrom (meter, host) (charge amount) =
      ((meter.charge amount).check, meter.charge amount, host) := rfl

/-- The registry takes in the message of a block as it was sent. -/
theorem runFrom_deliver (h : Header) (meter : GasMeter) (host : Host) :
    runFrom (meter, host) (deliver (jsonText h.message)) =
      (.ok (), meter,
        { host with registry := { host.registry with lastBlock := some h.notice } }) := by
  unfold deliver
  rw [h.ofMessage?_message]
  rfl

/-- A priced call either has charges within the limit, and the message is delivered, or it fails. -/
theorem runFrom_priced (price : Host → String → String → UInt64) (contract message : String)
    (meter : GasMeter) (host : Host) :
    ∃ (charged : GasMeter) (called : Host), called.registry = host.registry ∧
      runFrom (meter, host) (priced price contract message) =
        match charged.check with
        | .ok _ => runFrom (charged, called) (deliver message)
        | .error e => (.error e, charged, called) := by
  let called : Host := { host with calls := host.calls ++ [(contract, message)] }
  refine ⟨meter.charge (price called contract message), called, rfl, ?_⟩
  unfold priced
  rw [runFrom_bind, runFrom_modify]
  dsimp only
  rw [runFrom_bind, runFrom_get]
  dsimp only
  rw [runFrom_bind, runFrom_charge]
  cases (meter.charge (price called contract message)).check <;> rfl

end Host

namespace Notifier

variable (n : Notifier) (price : Host → String → String → UInt64)

/-- An execution starts with a new meter, which is read again at the end. -/
theorem executed_eq {σ : Type} (exec : Executor σ) (contract message : String) (gasLimit : UInt32)
    (host : σ) :
    executed exec contract message gasLimit host =
      match runFrom (.new gasLimit.toUInt64, host) (exec contract message) with
      | (.error e, _, host) => (.error e, host)
      | (.ok (), meter, host) => ((fun _ => meter.consumed) <$> meter.check, host) := by
  unfold executed runFrom
  rfl

/-- A priced call tells the registry of the block, or it fails and leaves the registry alone. -/
theorem executed_priced (contract : String) (h : Header) (gasLimit : UInt32) (host : Host) :
    (∃ gas host', executed (Host.priced price) contract (jsonText h.message) gasLimit host =
        (.ok gas, host') ∧
          host'.registry = { host.registry with lastBlock := some h.notice }) ∨
      ∃ e host', executed (Host.priced price) contract (jsonText h.message) gasLimit host =
        (.error e, host') ∧ host'.registry = host.registry := by
  obtain ⟨charged, called, hcalled, hrun⟩ := Host.runFrom_priced price contract
    (jsonText h.message) (.new gasLimit.toUInt64) host
  rw [executed_eq, hrun]
  cases hcheck : charged.check with
  | error e => exact .inr ⟨e, called, rfl, hcalled⟩
  | ok _ =>
    dsimp only
    rw [Host.runFrom_deliver]
    dsimp only
    -- the delivery leaves the meter alone, so the second reading is the first
    rw [hcheck, hcalled]
    exact .inl ⟨charged.consumed, _, rfl, rfl⟩

/-! ## Dispatched blocks -/

section Dispatched

variable {σ : Type} (exec : Executor σ)

/-- The header that a call dispatches: that of a block at whose beginning the contract is called,
and the call succeeds. -/
def dispatched? (st : Store × σ) : Event → Option Header
  | .beginBlock h =>
    if (n.outcome exec st (.beginBlock h)).1.toOption = some () ∧
        n.calls exec st (.beginBlock h) ≠ [] then some h else none
  | _ => none

/-- The headers that the calls of a run dispatch, in order. -/
def dispatched (st : Store × σ) (events : List Event) : List Header :=
  notes (n.after exec) (n.dispatched? exec) st events

variable {n} {s : Store} {host : σ} {h : Header}

theorem dispatched?_beginBlock :
    n.dispatched? exec (s, host) (.beginBlock h) =
      if (n.outcome exec (s, host) (.beginBlock h)).1.toOption = some () ∧
        n.calls exec (s, host) (.beginBlock h) ≠ [] then some h else none := rfl

theorem dispatched?_beginBlock_of_unset (hunset : n.IsUnset s) :
    n.dispatched? exec (s, host) (.beginBlock h) = none := by
  rw [dispatched?_beginBlock, calls_beginBlock_of_unset exec hunset]
  exact if_neg fun hnew => hnew.2 rfl

theorem dispatched?_beginBlock_of_told (hset : ¬ n.IsUnset s) (htold : s.Told h.height) :
    n.dispatched? exec (s, host) (.beginBlock h) = none := by
  rw [dispatched?_beginBlock, calls_beginBlock_of_told exec hset htold]
  exact if_neg fun hnew => hnew.2 rfl

theorem dispatched?_beginBlock_of_new (hset : ¬ n.IsUnset s) (hnew : ¬ s.Told h.height) :
    n.dispatched? exec (s, host) (.beginBlock h) =
      match executed exec (n.params s).contract (jsonText h.message) (n.params s).gasLimit host with
      | (.ok _, _) => some h
      | (.error _, _) => none := by
  rw [dispatched?_beginBlock, calls_beginBlock_of_new exec hset hnew,
    outcome_beginBlock_of_new exec hset hnew]
  rcases executed exec (n.params s).contract (jsonText h.message) (n.params s).gasLimit host
    with ⟨_ | _, _⟩
  · exact if_neg fun hok => nomatch hok.1
  · exact if_pos ⟨rfl, List.cons_ne_nil _ _⟩

/-- The calls that record a height are those that dispatch a block. -/
theorem recorded?_eq_map (st : Store × σ) (e : Event) :
    n.recorded? exec st e = (n.dispatched? exec st e).map Header.height := by
  obtain ⟨s, host⟩ := st
  cases e with
  | endBlock | sendNotice | updateParams | initGenesis => rfl
  | beginBlock h =>
    rw [recorded?_beginBlock]
    by_cases hunset : n.IsUnset s
    · rw [outcome_beginBlock_of_unset exec hunset, dispatched?_beginBlock_of_unset exec hunset]
      exact if_pos rfl
    by_cases htold : s.Told h.height
    · rw [outcome_beginBlock_of_told exec hunset htold,
        dispatched?_beginBlock_of_told exec hunset htold]
      exact if_pos rfl
    -- the executor is called, and its success decides in both cases
    rw [outcome_beginBlock_of_new exec hunset htold,
      dispatched?_beginBlock_of_new exec hunset htold]
    rcases executed exec (n.params s).contract (jsonText h.message) (n.params s).gasLimit host
      with ⟨_ | _, _⟩
    · exact if_pos rfl
    · exact if_neg (Store.ne_of_not_told htold)

theorem recorded_eq_map (st : Store × σ) (events : List Event) :
    n.recorded exec st events = (n.dispatched exec st events).map Header.height :=
  notes_map Header.height (recorded?_eq_map exec) st events

end Dispatched

/-- A notice that is sent by itself, and not because a block begins. -/
def Event.IsDirect : Event → Prop
  | .sendNotice _ _ _ => True
  | _ => False

/-- The registry takes in the blocks that are dispatched to it, and nothing else. -/
theorem registry_after {e : Event} (he : ¬ e.IsDirect) (s : Store) (host : Host) :
    (n.after (Host.priced price) (s, host) e).2.registry =
      match n.dispatched? (Host.priced price) (s, host) e with
      | some h => { host.registry with lastBlock := some h.notice }
      | none => host.registry := by
  cases e with
  | endBlock | updateParams | initGenesis => rfl
  | sendNotice => exact absurd trivial he
  | beginBlock h =>
    unfold after
    by_cases hunset : n.IsUnset s
    · rw [outcome_beginBlock_of_unset _ hunset, dispatched?_beginBlock_of_unset _ hunset]
    by_cases htold : s.Told h.height
    · rw [outcome_beginBlock_of_told _ hunset htold, dispatched?_beginBlock_of_told _ hunset htold]
    rw [outcome_beginBlock_of_new _ hunset htold, dispatched?_beginBlock_of_new _ hunset htold]
    rcases executed_priced price (n.params s).contract h (n.params s).gasLimit host with
      ⟨gas, host', hexecuted, hregistry⟩ | ⟨e, host', hexecuted, hregistry⟩
    · rw [hexecuted]
      exact hregistry
    · rw [hexecuted]
      exact hregistry

/-! ## Runs -/

section Runs

variable {σ : Type} (exec : Executor σ) (host : σ)

theorem lastHeight_run (events : List Event) :
    (n.run exec (.empty, host) events).1.lastHeight =
      (n.dispatched exec (.empty, host) events).getLast?.map Header.height := by
  rw [(ascends_run exec events).2, recorded_eq_map, List.getLast?_map]

/-- The blocks that are dispatched in a run ascend. -/
theorem ascends_dispatched (events : List Event) :
    (n.dispatched exec (.empty, host) events).Pairwise fun h h' => h.height < h'.height := by
  have hrecorded : (n.recorded exec (.empty, host) events).Pairwise (· < ·) :=
    (ascends_run exec events).1
  rw [recorded_eq_map, List.pairwise_map] at hrecorded
  exact hrecorded

/-- The last block stays the last one until there is one with a greater height. -/
theorem getLast?_dispatched_append {before : List Event} (later : List Event) {h : Header}
    (hlast : (n.dispatched exec (.empty, host) before).getLast? = some h) :
    ∃ h', (n.dispatched exec (.empty, host) (before ++ later)).getLast? = some h' ∧
      (h' = h ∨ h.height < h'.height) := by
  have hascends := ascends_dispatched n exec host (before ++ later)
  unfold dispatched at hascends hlast ⊢
  rw [notes_append] at hascends ⊢
  rw [List.getLast?_append, hlast]
  cases hlater : (notes (n.after exec) (n.dispatched? exec)
      (before.foldl (n.after exec) (.empty, host)) later).getLast? with
  | none => exact ⟨h, rfl, .inl rfl⟩
  | some h' =>
    refine ⟨h', rfl, .inr ?_⟩
    exact (List.pairwise_append.1 hascends).2.2 h (List.mem_of_getLast? hlast) h'
      (List.mem_of_getLast? hlater)

end Runs

/-- The registry differs from that of a host by the notice of the last of some blocks. -/
def Reports (host : Host) (st : Store × Host) (headers : List Header) : Prop :=
  st.2.registry =
    { host.registry with
      lastBlock := (headers.getLast?.map Header.notice).or host.registry.lastBlock }

theorem reports_after {e : Event} (he : ¬ e.IsDirect) {host : Host} {st : Store × Host}
    {headers : List Header} (h : Reports host st headers) :
    Reports host (n.after (Host.priced price) st e)
      (headers ++ (n.dispatched? (Host.priced price) st e).toList) := by
  obtain ⟨s, host'⟩ := st
  unfold Reports
  rw [registry_after n price he]
  cases n.dispatched? (Host.priced price) (s, host') e with
  | none =>
    rw [Option.toList_none, List.append_nil]
    exact h
  | some header =>
    rw [Option.toList_some, List.getLast?_concat, h]
    rfl

theorem reports_run (host : Host) {events : List Event} (hevents : ∀ e ∈ events, ¬ e.IsDirect) :
    Reports host (n.run (Host.priced price) (.empty, host) events)
      (n.dispatched (Host.priced price) (.empty, host) events) := by
  have hstart : Reports host (.empty, host) [] := rfl
  exact notes_rel_of_mem (Reports host) (fun e he => reports_after n price (hevents e he)) hstart

/-- On a host that runs the registry for a price, the notifier and the registry agree on the last
block. In every run of blocks and updates, what the registry holds afterwards is the notice of the
last block that was dispatched, and the notifier remembers the height of that block. So the registry
knows of no block exactly as long as the notifier remembers no height. And whatever of a run is made
later, the last block stays or makes room for one with a greater height. -/
theorem last_block_agrees (n : Notifier) (price : Host → String → String → UInt64) {host : Host}
    (hhost : host.registry.lastBlock = none) {events : List Event}
    (hevents : ∀ e ∈ events, ¬ e.IsDirect) :
    (n.run (Host.priced price) (.empty, host) events).2.registry =
        { host.registry with
          lastBlock := (n.dispatched (Host.priced price) (.empty, host) events).getLast?.map
            Header.notice } ∧
      (n.run (Host.priced price) (.empty, host) events).1.lastHeight =
        (n.dispatched (Host.priced price) (.empty, host) events).getLast?.map Header.height ∧
      ((n.run (Host.priced price) (.empty, host) events).2.registry.lastBlock = none ↔
        (n.run (Host.priced price) (.empty, host) events).1.lastHeight = none) ∧
      ∀ before later b, events = before ++ later →
        (n.run (Host.priced price) (.empty, host) before).2.registry.lastBlock = some b →
        ∃ b', (n.run (Host.priced price) (.empty, host) events).2.registry.lastBlock = some b' ∧
          (b' = b ∨ b.height < b'.height) := by
  have hlast : ∀ {events : List Event}, (∀ e ∈ events, ¬ e.IsDirect) →
      (n.run (Host.priced price) (.empty, host) events).2.registry =
        { host.registry with
          lastBlock := (n.dispatched (Host.priced price) (.empty, host) events).getLast?.map
            Header.notice } := by
    intro events hevents
    rw [reports_run n price host hevents, hhost, Option.or_none]
  have hheight := lastHeight_run n (Host.priced price) host events
  refine ⟨hlast hevents, hheight, ?_, ?_⟩
  · rw [hlast hevents, hheight, Option.map_eq_none_iff, Option.map_eq_none_iff]
  · rintro before later b rfl hb
    have hbefore : ∀ e ∈ before, ¬ e.IsDirect := fun e he =>
      hevents e (List.mem_append_left later he)
    rw [hlast hbefore] at hb
    obtain ⟨h, hh, rfl⟩ := Option.map_eq_some_iff.1 hb
    obtain ⟨h', hh', hle⟩ := getLast?_dispatched_append n (Host.priced price) host later hh
    rw [hlast hevents, hh']
    exact ⟨h'.notice, rfl, hle.imp_left (congrArg Header.notice)⟩

end Notifier

/-! ## A run in which calls fail -/

open Notifier (Event)

namespace Sample

/-- A host whose registry stores nothing. -/
def freshHost : Host := ⟨.empty, .empty, []⟩

/-- Every call costs 60, but the first one costs more than there is. -/
def unevenPrice (host : Host) (_ _ : String) : UInt64 :=
  if host.calls.length = 1 then 1000 else 60

/-- Blocks begin before a contract is set, at a price that is too high, at one that is not, and
again at the same height. In the end no contract is set any more. -/
def dispatching : List Event :=
  [.beginBlock (header 4),
    .updateParams "gov" (naming "bbn1qyqszqgpqyqszqgpqyqszqgpqyqszqgp9ds0j9"),
    .beginBlock (header 6), .beginBlock (header 5), .beginBlock (header 5),
    .initGenesis ⟨naming notifier.unset⟩, .beginBlock (header 9)]

end Sample

namespace Notifier

/-- Only the fifth block is dispatched, and the registry and the notifier both know of it. -/
theorem last_block_agrees_dispatching :
    Sample.freshHost.registry.lastBlock = none ∧ (∀ e ∈ Sample.dispatching, ¬ e.IsDirect) ∧
      Sample.notifier.dispatched (Host.priced Sample.unevenPrice) (.empty, Sample.freshHost)
        Sample.dispatching = [Sample.header 5] ∧
      (Sample.notifier.run (Host.priced Sample.unevenPrice) (.empty, Sample.freshHost)
        Sample.dispatching).2.registry =
          { Sample.freshHost.registry with lastBlock := some (Sample.header 5).notice } ∧
      (Sample.notifier.run (Host.priced Sample.unevenPrice) (.empty, Sample.freshHost)
        Sample.dispatching).1.lastHeight = some 5 := by
  have hhost : Sample.freshHost.registry.lastBlock = none := rfl
  have hevents : ∀ e ∈ Sample.dispatching, ¬ e.IsDirect := by
    simp [Sample.dispatching, Event.IsDirect]
  have hdispatched : Sample.notifier.dispatched (Host.priced Sample.unevenPrice)
      (.empty, Sample.freshHost) Sample.dispatching = [Sample.header 5] := by
    decide +kernel
  obtain ⟨hregistry, hheight, _⟩ :=
    last_block_agrees Sample.notifier Sample.unevenPrice hhost hevents
  rw [hdispatched] at hregistry hheight
  exact ⟨hhost, hevents, hdispatched, hregistry, hheight⟩

end Notifier

end Restaking
