import Restaking.Proofs.Defaults

/-!
# Parameters over whole runs

The parameters that a notifier goes by are those that were written last with success, and before
the first such write they are its own (`params_last_written`). There are three ways to write them,
and blocks begin in between.

1. All three ways come down to `setParams`, after checks of their own. So a write either stores its
   parameters and nothing else, or changes nothing (`write_cases`). Which of the two it is does not
   depend on what is stored.
2. A block leaves the parameters as they are, whatever the executor does (`params_after_block`).
3. So the store holds the last of the parameters written so far, and all of these have passed their
   checks (`holds_run`). The notifier's own parameters pass them too, if the human-readable part is
   spelt without uppercase letters (`check_params_run`).
-/

namespace Restaking.Notifier

/-! ## Writes -/

/-- A write of parameters, in one of three ways. -/
inductive Write where
  | set (p : Params)
  | update (sender : String) (p : Params)
  | genesis (g : Genesis)

namespace Write

/-- The parameters that a write is about. -/
def params : Write → Params
  | .set p => p
  | .update _ p => p
  | .genesis g => g.params

/-- The call that a write makes. -/
def call (n : Notifier) : Write → Update Unit
  | .set p => n.setParams p
  | .update sender p => n.updateParams sender p
  | .genesis g => n.initGenesis g

/-- An update has to come from the authority. -/
def IsAllowed (n : Notifier) : Write → Prop
  | .update sender _ => sender = n.authority
  | _ => True

end Write

section Writes

variable (n : Notifier) (s : Store)

/-- A write that is allowed sets its parameters. -/
theorem perform_call {w : Write} (hw : w.IsAllowed n) :
    perform s (w.call n) = perform s (n.setParams w.params) := by
  cases w with
  | set p => rfl
  | update sender p => exact (perform_updateParams n s sender p).trans (if_pos hw)
  | genesis g => exact perform_initGenesis n s g

/-- A write that is not allowed fails. -/
theorem perform_call_of_not_allowed {w : Write} (hw : ¬ w.IsAllowed n) :
    ∃ e, perform s (w.call n) = (.error e, s) := by
  cases w with
  | set | genesis => exact absurd trivial hw
  | update sender p => exact ⟨_, (perform_updateParams n s sender p).trans (if_neg hw)⟩

/-- A write stores its parameters if it is allowed and they pass their checks. Otherwise it fails
and changes nothing. -/
theorem write_cases (w : Write) :
    ((w.IsAllowed n ∧ w.params.check n.hrp = .ok ()) ∧
      perform s (w.call n) = (.ok (), { s with params := some w.params })) ∨
    (¬ (w.IsAllowed n ∧ w.params.check n.hrp = .ok ()) ∧
      ∃ e, perform s (w.call n) = (.error e, s)) := by
  by_cases hw : w.IsAllowed n
  · rw [perform_call n s hw, perform_setParams]
    cases hcheck : w.params.check n.hrp with
    | ok => exact .inl ⟨⟨hw, rfl⟩, rfl⟩
    | error e => exact .inr ⟨fun h => (nomatch h.2), e, rfl⟩
  · exact .inr ⟨fun h => hw h.1, perform_call_of_not_allowed n s hw⟩

end Writes

/-! ## Runs of writes and blocks -/

/-- A turn of a run: a write, or a block that begins. -/
inductive Turn where
  | write (w : Write)
  | block (h : Header)

variable {σ : Type} (n : Notifier) (exec : Executor σ)

/-- What comes of a turn: its result, what is stored afterwards, and the host afterwards. -/
def Turn.outcome (st : Store × σ) : Turn → Except NotifierError Unit × Store × σ
  | .write w => dispatch st.1 st.2 (onHost (w.call n))
  | .block h => n.outcome exec st (.beginBlock h)

/-- What is stored after a turn, and the host. -/
def afterTurn (st : Store × σ) (t : Turn) : Store × σ := (t.outcome n exec st).2

/-- What is stored after turns that are taken one after the other, and the host. -/
def runTurns (st : Store × σ) (turns : List Turn) : Store × σ := turns.foldl (n.afterTurn exec) st

/-- The parameters that a turn writes, if it is a write and succeeds. -/
def written? (st : Store × σ) (t : Turn) : Option Params :=
  match t, (t.outcome n exec st).1 with
  | .write w, .ok _ => some w.params
  | _, _ => none

/-- The parameters that the turns of a run write, in order. -/
def written (st : Store × σ) (turns : List Turn) : List Params :=
  notes (n.afterTurn exec) (n.written? exec) st turns

section Turns

variable (s : Store) (host : σ)

theorem outcome_write (w : Write) :
    (Turn.write w).outcome n exec (s, host) =
      ((perform s (w.call n)).1, (perform s (w.call n)).2, host) := rfl

theorem params_after_block (h : Header) :
    (n.afterTurn exec (s, host) (.block h)).1.params = s.params := by
  show (n.outcome exec (s, host) (.beginBlock h)).2.1.params = s.params
  rcases beginBlock_cases exec n s host h with
    ⟨_, _, houtcome⟩ | ⟨_, _, _, houtcome⟩ | ⟨_, _, _, _, houtcome | ⟨_, houtcome⟩⟩ <;>
    rw [houtcome]

/-- A turn that writes parameters stores them, and they have passed their checks. Any other turn
leaves the parameters as they are. -/
theorem turn_cases (t : Turn) :
    (∃ p, n.written? exec (s, host) t = some p ∧ p.check n.hrp = .ok () ∧
      (n.afterTurn exec (s, host) t).1.params = some p) ∨
    (n.written? exec (s, host) t = none ∧
      (n.afterTurn exec (s, host) t).1.params = s.params) := by
  cases t with
  | block h => exact .inr ⟨rfl, params_after_block n exec s host h⟩
  | write w =>
    unfold written? afterTurn
    rw [outcome_write]
    rcases write_cases n s w with ⟨⟨_, hcheck⟩, hperform⟩ | ⟨_, e, hperform⟩ <;> rw [hperform]
    · exact .inl ⟨w.params, rfl, hcheck, rfl⟩
    · exact .inr ⟨rfl, rfl⟩

end Turns

/-- The store holds the last of some parameters, and all of them pass their checks. -/
def Holds (st : Store × σ) (taken : List Params) : Prop :=
  st.1.params = taken.getLast? ∧ ∀ p ∈ taken, p.check n.hrp = .ok ()

theorem holds_after {st : Store × σ} {taken : List Params} (t : Turn) (h : n.Holds st taken) :
    n.Holds (n.afterTurn exec st t) (taken ++ (n.written? exec st t).toList) := by
  obtain ⟨hlast, hchecks⟩ := h
  unfold Holds
  rcases turn_cases n exec st.1 st.2 t with ⟨p, hp, hcheck, hparams⟩ | ⟨hnone, hparams⟩
  · rw [hp, hparams, Option.toList_some, List.getLast?_concat]
    exact ⟨rfl, List.forall_mem_append.2 ⟨hchecks, List.forall_mem_singleton.2 hcheck⟩⟩
  · rw [hnone, hparams, Option.toList_none, List.append_nil]
    exact ⟨hlast, hchecks⟩

theorem holds_run (host : σ) (turns : List Turn) :
    n.Holds (n.runTurns exec (.empty, host) turns) (n.written exec (.empty, host) turns) := by
  have hempty : n.Holds (Store.empty, host) [] := ⟨rfl, List.forall_mem_nil _⟩
  exact notes_rel n.Holds (holds_after n exec) hempty turns

theorem params_run (host : σ) (turns : List Turn) :
    n.params (n.runTurns exec (.empty, host) turns).1 =
      (n.written exec (.empty, host) turns).getLast?.getD n.defaultParams :=
  congrArg (·.getD n.defaultParams) (holds_run n exec host turns).1

/-! ## What a run comes to -/

variable {n} {authority hrp : String}

/-- Whatever is in effect passes the checks. -/
theorem check_params_run (hnew : Notifier.new authority hrp = .ok n)
    (hlower : ∀ c ∈ hrp.toList, c.isUpper = false) (host : σ) (turns : List Turn) :
    (n.params (n.runTurns exec (.empty, host) turns).1).check n.hrp = .ok () := by
  rw [params_run]
  cases hlast : (n.written exec (.empty, host) turns).getLast? with
  | none =>
    -- nobody has ever checked these, but the address in them can be read back
    exact (check_defaultParams_iff hnew).2 hlower
  | some p => exact (holds_run n exec host turns).2 p (List.mem_of_getLast? hlast)

/-- A genesis with valid parameters leads to a store that exports it again. -/
theorem initGenesis_exports {g : Genesis} (hg : g.params.check n.hrp = .ok ()) :
    ∃ s, perform .empty (n.initGenesis g) = (.ok (), s) ∧ n.exportGenesis s = g := by
  refine ⟨⟨some g.params, none⟩, ?_, rfl⟩
  rw [perform_initGenesis, perform_setParams, hg]
  rfl

/-- Take any run of writes and blocks that starts from nothing, by a notifier for a human-readable
part without uppercase letters. The parameters in effect at its end are those that were written
last, or the notifier's own if there are none, and they pass their checks. The genesis that is
exported then can be read in from nothing, and is exported again as it was. Whatever is stored, a
write succeeds if and only if it is allowed, both addresses are addresses of the chain, and there is
gas; if it fails it changes nothing, and it leaves the last height alone in any case. No block
changes the parameters. -/
theorem params_last_written (hnew : Notifier.new authority hrp = .ok n)
    (hlower : ∀ c ∈ hrp.toList, c.isUpper = false) (exec : Executor σ) (host : σ)
    (turns : List Turn) :
    n.params (n.runTurns exec (.empty, host) turns).1 =
        (n.written exec (.empty, host) turns).getLast?.getD n.defaultParams ∧
      (n.params (n.runTurns exec (.empty, host) turns).1).check hrp = .ok () ∧
      (∃ s, perform .empty
            (n.initGenesis (n.exportGenesis (n.runTurns exec (.empty, host) turns).1)) =
          (.ok (), s) ∧
        n.exportGenesis s = n.exportGenesis (n.runTurns exec (.empty, host) turns).1) ∧
      ∀ (s : Store) (host : σ),
        (∀ w : Write,
          (((Turn.write w).outcome n exec (s, host)).1 = .ok () ↔
            w.IsAllowed n ∧ (∃ bytes, Address.decode w.params.contract hrp = .ok bytes) ∧
              (∃ bytes, Address.decode w.params.stakingContract hrp = .ok bytes) ∧
              0 < w.params.gasLimit) ∧
          (((Turn.write w).outcome n exec (s, host)).1 ≠ .ok () →
            n.afterTurn exec (s, host) (.write w) = (s, host)) ∧
          (n.afterTurn exec (s, host) (.write w)).1.lastHeight = s.lastHeight) ∧
        ∀ h, n.params (n.afterTurn exec (s, host) (.block h)).1 = n.params s := by
  have hhrp := hrp_of_new hnew
  have hvalid := check_params_run exec hnew hlower host turns
  refine ⟨params_run n exec host turns, hhrp ▸ hvalid, initGenesis_exports hvalid,
    fun s host => ⟨fun w => ?_, fun h => ?_⟩⟩
  · rw [UInt32.pos_iff_ne_zero, ← hhrp, ← Params.check_eq_ok]
    unfold afterTurn
    rw [outcome_write]
    rcases write_cases n s w with ⟨hgood, hperform⟩ | ⟨hbad, e, hperform⟩ <;> rw [hperform]
    · exact ⟨iff_of_true rfl hgood, fun hfail => absurd rfl hfail, rfl⟩
    · exact ⟨iff_of_false nofun hbad, fun _ => rfl, rfl⟩
  · unfold params
    rw [params_after_block]

end Restaking.Notifier

/-! ## A run with refused writes -/

namespace Restaking

open Notifier (Turn)

namespace Sample

/-- Parameters that leave no gas. -/
def gasless : Notifier.Params := { naming notifier.unset with gasLimit := 0 }

/-- A genesis, a block, and three writes that are refused: one for its sender, one for an address of
another chain, one for its gas. -/
def settings : List Turn :=
  [.write (.genesis ⟨naming "bbn1qyqszqgpqyqszqgpqyqszqgpqyqszqgp9ds0j9"⟩),
    .block (header 4), .write (.update "mallory" (naming notifier.unset)),
    .write (.set (naming "cosmos1qyqszqgpqyqszqgpqyqszqgpqyqszqgpjnp7du")),
    .write (.set gasless)]

end Sample

namespace Notifier

/-- The parameters of the genesis stay in effect, and are exported. -/
theorem params_last_written_settings :
    Notifier.new "gov" "bbn" = .ok Sample.notifier ∧
      (∀ c ∈ "bbn".toList, c.isUpper = false) ∧
      Sample.notifier.params
          (Sample.notifier.runTurns Sample.counting (.empty, 0) Sample.settings).1 =
        Sample.naming "bbn1qyqszqgpqyqszqgpqyqszqgpqyqszqgp9ds0j9" ∧
      ((Turn.write (.set Sample.gasless)).outcome Sample.notifier Sample.counting
        (Sample.told, 0)).1 ≠ .ok () := by
  have hnew : Notifier.new "gov" "bbn" = .ok Sample.notifier := by decide +kernel
  have hlower : ∀ c ∈ "bbn".toList, c.isUpper = false :=
    Address.lowercase_eq_self_iff.1 (by decide +kernel)
  have hwritten : Sample.notifier.written Sample.counting (.empty, 0) Sample.settings =
      [Sample.naming "bbn1qyqszqgpqyqszqgpqyqszqgpqyqszqgp9ds0j9"] := by
    decide +kernel
  obtain ⟨hparams, _, _, hstates⟩ :=
    params_last_written hnew hlower Sample.counting 0 Sample.settings
  rw [hwritten] at hparams
  obtain ⟨hwrite, _⟩ := hstates Sample.told 0
  obtain ⟨hsucceeds, _⟩ := hwrite (.set Sample.gasless)
  have hgas : ¬ 0 < Sample.gasless.gasLimit := by decide
  exact ⟨hnew, hlower, hparams, fun hok => hgas (hsucceeds.1 hok).2.2.2⟩

end Notifier

end Restaking
