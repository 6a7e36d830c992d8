import Restaking.Notifier.Dispatch
import Restaking.Proofs.Results

/-!
# What calls to the notifier do

A call to the notifier is given by an event, and comes to an outcome: a result, what is stored
afterwards, and the host afterwards (`outcome`).

1. An execution sees nothing of what is stored, so a notice leaves it as it is
   (`outcome_sendNotice`). Updates leave the height alone (`lastHeight_perform_setParams`).
2. When a block begins, no contract is set, or the contract has been told about the height already,
   or it is told now (`outcome_beginBlock_of_unset`, `outcome_beginBlock_of_told`,
   `outcome_beginBlock_of_new`).
3. The calls that an executor gets are those that a log in the host shows if the executor keeps one
   (`calls`). Keeping a log makes no other difference (`outcome_watched`).
-/

namespace Restaking

variable {σ α : Type}

/-- The executor that also keeps a log of the contracts that it runs, with the messages. -/
def Executor.watched (exec : Executor σ) : Executor (σ × List (String × String)) :=
  fun contract message (meter, host, log) =>
    let (result, meter, host) := (exec contract message).run (meter, host)
    (result, meter, host, log ++ [(contract, message)])

namespace Notifier

variable (n : Notifier) (exec : Executor σ)

/-! ## Events -/

/-- What a notifier can be called for. -/
inductive Event where
  | beginBlock (h : Header)
  | endBlock (h : Header)
  | sendNotice (h : Header) (contract : String) (gasLimit : UInt32)
  | updateParams (sender : String) (p : Params)
  | initGenesis (g : Genesis)

/-- An update, as a call that leaves the host alone. -/
def onHost (update : Update α) : Dispatch σ α := fun (s, host) =>
  let (result, s) := perform s update
  (result, s, host)

/-- The call that an event makes. The gas that a notice used is not kept. -/
def Event.call : Event → Dispatch σ Unit
  | .beginBlock h => n.beginBlock exec h
  | .endBlock h => Notifier.endBlock h
  | .sendNotice h contract gasLimit => discard (Notifier.sendNotice exec h contract gasLimit)
  | .updateParams sender p => onHost (n.updateParams sender p)
  | .initGenesis g => onHost (n.initGenesis g)

/-- What comes of a call: its result, what is stored afterwards, and the host afterwards. -/
def outcome (st : Store × σ) (e : Event) : Except NotifierError Unit × Store × σ :=
  dispatch st.1 st.2 (e.call n exec)

/-- What is stored after a call, whether it succeeds or fails, and the host. -/
def after (st : Store × σ) (e : Event) : Store × σ := (n.outcome exec st e).2

/-- What is stored after calls that are made one after the other, and the host. -/
def run (st : Store × σ) (events : List Event) : Store × σ := events.foldl (n.after exec) st

/-- The contracts that the executor runs in a call, with the messages. -/
def calls (st : Store × σ) (e : Event) : List (String × String) :=
  (n.outcome exec.watched (st.1, st.2, []) e).2.2.2

/-! ## Updates -/

section Updates

variable (s : Store)

theorem perform_eq (update : Update α) : perform s update = runFrom s update := rfl

theorem perform_setParams (p : Params) :
    perform s (n.setParams p) =
      match p.check n.hrp with
      | .ok _ => (.ok (), { s with params := some p })
      | .error e => (.error e, s) := by
  unfold setParams
  rw [perform_eq, runFrom_bind, runFrom_attempt]
  cases p.check n.hrp <;> rfl

/-- A genesis is checked twice, and the second time there is nothing new. -/
theorem perform_initGenesis (g : Genesis) :
    perform s (n.initGenesis g) = perform s (n.setParams g.params) := by
  unfold initGenesis
  rw [perform_eq, runFrom_bind, runFrom_attempt, perform_setParams, Genesis.check]
  cases h : g.params.check n.hrp with
  | error e => rfl
  | ok _ =>
    dsimp only
    rw [← perform_eq, perform_setParams, h]

theorem perform_updateParams (sender : String) (p : Params) :
    perform s (n.updateParams sender p) =
      if sender = n.authority then perform s (n.setParams p)
      else (.error (.unauthorized n.authority sender), s) := by
  unfold updateParams
  rw [perform_eq, runFrom_bind, runFrom_attempt]
  by_cases h : sender = n.authority
  · rw [if_pos h, demand_eq_ok.2 h]
    rfl
  · rw [if_neg h, demand_neg h]

theorem lastHeight_perform_setParams (p : Params) :
    (perform s (n.setParams p)).2.lastHeight = s.lastHeight := by
  rw [perform_setParams]
  cases p.check n.hrp <;> rfl

end Updates

/-! ## Executions -/

/-- The gas that the execution of a contract used, or why it failed, and the host afterwards. -/
def executed (contract message : String) (gasLimit : UInt32) (host : σ) :
    Except ExecutionError UInt64 × σ :=
  match (exec contract message).run (GasMeter.new gasLimit.toUInt64, host) with
  | (.error e, _, host) => (.error e, host)
  | (.ok (), meter, host) => ((fun _ => meter.consumed) <$> meter.check, host)

theorem run_watched (contract message : String) (meter : GasMeter) (host : σ)
    (log : List (String × String)) :
    (exec.watched contract message).run (meter, host, log) =
      match (exec contract message).run (meter, host) with
      | (result, meter, host) => (result, meter, host, log ++ [(contract, message)]) := rfl

theorem executed_watched (contract message : String) (gasLimit : UInt32) (host : σ)
    (log : List (String × String)) :
    executed exec.watched contract message gasLimit (host, log) =
      ((executed exec contract message gasLimit host).1,
        (executed exec contract message gasLimit host).2, log ++ [(contract, message)]) := by
  unfold executed
  rw [run_watched]
  generalize (exec contract message).run (GasMeter.new gasLimit.toUInt64, host) = x
  obtain ⟨_ | _, meter, host'⟩ := x <;> rfl

section Steps

variable (s : Store) (host : σ)

theorem dispatch_eq (call : Dispatch σ α) : dispatch s host call = runFrom (s, host) call := rfl

/-- A notice leaves what is stored as it is. -/
theorem dispatch_sendNotice (h : Header) (contract : String) (gasLimit : UInt32) :
    dispatch s host (sendNotice exec h contract gasLimit) =
      ((executed exec contract (jsonText h.message) gasLimit host).1.mapError .execution, s,
        (executed exec contract (jsonText h.message) gasLimit host).2) := by
  show execute exec contract (jsonText h.message) gasLimit (s, host) = _
  unfold execute executed
  dsimp only
  generalize (exec contract (jsonText h.message)).run (GasMeter.new gasLimit.toUInt64, host) = x
  obtain ⟨_ | _, meter, host'⟩ := x
  · rfl
  · dsimp only
    cases meter.check <;> rfl

theorem outcome_sendNotice (h : Header) (contract : String) (gasLimit : UInt32) :
    n.outcome exec (s, host) (.sendNotice h contract gasLimit) =
      ((fun _ => ()) <$> (executed exec contract (jsonText h.message) gasLimit host).1.mapError
        .execution, s, (executed exec contract (jsonText h.message) gasLimit host).2) := by
  have hsend := dispatch_sendNotice exec s host h contract gasLimit
  show dispatch s host (do let _ ← sendNotice exec h contract gasLimit; pure ()) = _
  rw [dispatch_eq, runFrom_bind, ← dispatch_eq, hsend]
  cases (executed exec contract (jsonText h.message) gasLimit host).1 <;> rfl

end Steps

/-! ## The beginning of a block -/

/-- No contract is set. -/
def IsUnset (s : Store) : Prop := Address.isUnset (n.params s).contract n.hrp = true

/-- The contract has been told about a height, or about a greater one. -/
def Store.Told (s : Store) (height : Int64) : Prop :=
  ∃ last, s.lastHeight = some last ∧ height ≤ last

variable {n} {s : Store} {host : σ} {h : Header}

theorem outcome_beginBlock_of_unset (hunset : n.IsUnset s) :
    n.outcome exec (s, host) (.beginBlock h) = (.ok (), s, host) := by
  unfold IsUnset at hunset
  show dispatch s host (n.beginBlock exec h) = _
  unfold beginBlock
  rw [dispatch_eq, runFrom_bind, runFrom_get]
  dsimp only
  rw [if_pos hunset, runFrom_pure]

theorem outcome_beginBlock_of_told (hset : ¬ n.IsUnset s) (htold : s.Told h.height) :
    n.outcome exec (s, host) (.beginBlock h) = (.error (.alreadyNotified h.height), s, host) := by
  obtain ⟨last, hlast, hle⟩ := htold
  unfold IsUnset at hset
  have hdemand : ¬ s.lastHeight.all (· < h.height) = true := by
    simp [hlast, Int64.not_lt.2 hle]
  show dispatch s host (n.beginBlock exec h) = _
  unfold beginBlock
  rw [dispatch_eq, runFrom_bind, runFrom_get]
  dsimp only
  rw [if_neg hset, runFrom_bind, runFrom_attempt, demand_neg hdemand]

theorem outcome_beginBlock_of_new (hset : ¬ n.IsUnset s) (hnew : ¬ s.Told h.height) :
    n.outcome exec (s, host) (.beginBlock h) =
      match executed exec (n.params s).contract (jsonText h.message) (n.params s).gasLimit host with
      | (.ok _, host) => (.ok (), { s with lastHeight := some h.height }, host)
      | (.error e, host) => (.error (.execution e), s, host) := by
  unfold IsUnset at hset
  have hdemand : s.lastHeight.all (· < h.height) = true := by
    rw [Option.all_eq_true]
    intro last hlast
    exact decide_eq_true (Int64.not_le.1 fun hle => hnew ⟨last, hlast, hle⟩)
  show dispatch s host (n.beginBlock exec h) = _
  unfold beginBlock
  rw [dispatch_eq, runFrom_bind, runFrom_get]
  dsimp only
  rw [if_neg hset, runFrom_bind, runFrom_attempt, demand_eq_ok.2 hdemand]
  dsimp only
  rw [runFrom_bind, ← dispatch_eq, dispatch_sendNotice]
  rcases executed exec (n.params s).contract (jsonText h.message) (n.params s).gasLimit host
    with ⟨_ | _, host'⟩
  · rfl
  · rfl

/-! ## The calls that an executor gets -/

theorem calls_beginBlock_of_unset (hunset : n.IsUnset s) :
    n.calls exec (s, host) (.beginBlock h) = [] := by
  unfold calls
  rw [outcome_beginBlock_of_unset exec.watched hunset]

theorem calls_beginBlock_of_told (hset : ¬ n.IsUnset s) (htold : s.Told h.height) :
    n.calls exec (s, host) (.beginBlock h) = [] := by
  unfold calls
  rw [outcome_beginBlock_of_told exec.watched hset htold]

theorem calls_beginBlock_of_new (hset : ¬ n.IsUnset s) (hnew : ¬ s.Told h.height) :
    n.calls exec (s, host) (.beginBlock h) = [((n.params s).contract, jsonText h.message)] := by
  unfold calls
  rw [outcome_beginBlock_of_new exec.watched hset hnew, executed_watched]
  cases (executed exec (n.params s).contract (jsonText h.message) (n.params s).gasLimit host).1 <;>
    rfl

theorem calls_sendNotice (contract : String) (gasLimit : UInt32) :
    n.calls exec (s, host) (.sendNotice h contract gasLimit) =
      [(contract, jsonText h.message)] := by
  unfold calls
  rw [outcome_sendNotice, executed_watched]
  rfl

/-- When a block begins, either no contract is set and nothing happens, or the contract has been
told already and nothing changes, or it is called once and the height is stored if it succeeds. -/
theorem beginBlock_cases (n : Notifier) (s : Store) (host : σ) (h : Header) :
    (n.IsUnset s ∧ n.calls exec (s, host) (.beginBlock h) = [] ∧
      n.outcome exec (s, host) (.beginBlock h) = (.ok (), s, host)) ∨
    (¬ n.IsUnset s ∧ s.Told h.height ∧ n.calls exec (s, host) (.beginBlock h) = [] ∧
      n.outcome exec (s, host) (.beginBlock h) =
        (.error (.alreadyNotified h.height), s, host)) ∨
    (¬ n.IsUnset s ∧ ¬ s.Told h.height ∧ (n.calls exec (s, host) (.beginBlock h)).length = 1 ∧
      ∃ host', n.outcome exec (s, host) (.beginBlock h) =
          (.ok (), { s with lastHeight := some h.height }, host') ∨
        ∃ e, n.outcome exec (s, host) (.beginBlock h) = (.error e, s, host')) := by
  by_cases hunset : n.IsUnset s
  · exact .inl ⟨hunset, calls_beginBlock_of_unset exec hunset,
      outcome_beginBlock_of_unset exec hunset⟩
  by_cases htold : s.Told h.height
  · exact .inr (.inl ⟨hunset, htold, calls_beginBlock_of_told exec hunset htold,
      outcome_beginBlock_of_told exec hunset htold⟩)
  · rw [calls_beginBlock_of_new exec hunset htold, outcome_beginBlock_of_new exec hunset htold]
    refine .inr (.inr ⟨hunset, htold, rfl, ?_⟩)
    rcases executed exec (n.params s).contract (jsonText h.message) (n.params s).gasLimit host
      with ⟨e | gas, host'⟩
    · exact ⟨host', .inr ⟨.execution e, rfl⟩⟩
    · exact ⟨host', .inl rfl⟩

/-- An executor that is watched does what it would do otherwise, and the log grows by its calls. -/
theorem outcome_watched (log : List (String × String)) (e : Event) :
    n.outcome exec.watched (s, host, log) e =
      ((n.outcome exec (s, host) e).1, (n.outcome exec (s, host) e).2.1,
        (n.outcome exec (s, host) e).2.2, log ++ n.calls exec (s, host) e) := by
  cases e with
  | beginBlock h =>
    by_cases hunset : n.IsUnset s
    · rw [calls_beginBlock_of_unset exec hunset, outcome_beginBlock_of_unset exec hunset,
        outcome_beginBlock_of_unset exec.watched hunset, List.append_nil]
    · by_cases htold : s.Told h.height
      · rw [calls_beginBlock_of_told exec hunset htold,
          outcome_beginBlock_of_told exec hunset htold,
          outcome_beginBlock_of_told exec.watched hunset htold, List.append_nil]
      · rw [calls_beginBlock_of_new exec hunset htold, outcome_beginBlock_of_new exec hunset htold,
          outcome_beginBlock_of_new exec.watched hunset htold, executed_watched]
        rcases executed exec (n.params s).contract (jsonText h.message) (n.params s).gasLimit host
          with ⟨_ | _, host'⟩ <;> rfl
  | sendNotice h contract gasLimit =>
    rw [calls_sendNotice, outcome_sendNotice, outcome_sendNotice, executed_watched]
  | endBlock h | updateParams sender p | initGenesis g =>
    rw [show n.calls exec (s, host) _ = [] from rfl, List.append_nil]
    rfl

end Notifier

end Restaking
