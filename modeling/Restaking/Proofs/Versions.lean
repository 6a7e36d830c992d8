import Restaking.Proofs.Backing
import Restaking.Proofs.Histories
import Restaking.Registry.Query

/-!
# Versions of the parameters

The parameters of a registry are a log. The first are those that it was set up with, every call that
adds parameters appends to them, and the version is the position (`params_append_only`).

1. A call adds parameters, and then puts them under the next version, or leaves all parameters as
   they are (`added?_cases`).
2. If the versions are the positions of a list (`Lists`), the last entry of the table is the last
   member (`Lists.last?`). So the next version is the length of the list, as long as versions have
   not run out (`Lists.nextVersion_eq_ok`), and putting parameters there appends them
   (`Lists.append`).
3. Hence every call keeps the versions listed, and every run (`Lists.after`, `Lists.run`).
-/

namespace Restaking

/-! ## Checked parameters -/

theorem StakingParams.check_eq_ok {p : StakingParams} :
    p.check = .ok () ↔ (∀ key ∈ p.committee, Key.check key = .ok ()) ∧ p.committee.Nodup ∧
      p.quorum.toNat ≤ p.committee.length := by
  unfold StakingParams.check
  rw [check_bind_eq_ok, mapError_eq_ok, Key.checkDistinct_eq_ok, demand_eq_ok, and_assoc, and_assoc]
  simp

namespace Registry

variable {r r' : Registry} {log : List StakingParams}

/-! ## Added parameters -/

section Added

variable [AddressHost]

/-- The parameters that a call adds, if it adds any. -/
def added? (r : Registry) : Event → Option StakingParams
  | .execute sender (.addParams params) =>
    match (r.perform (execute sender (.addParams params))).1 with
    | .ok _ => some params
    | .error _ => none
  | _ => none

/-- The parameters that the calls of a run add, in order. -/
def added (r : Registry) (events : List Event) : List StakingParams := notes after added? r events

/-- Only parameters that are added change the parameters. -/
theorem Transition.params_eq {sender : String} {command : Command}
    (h : r.Transition (.execute sender command) r') (hother : ∀ p, command ≠ .addParams p) :
    r'.params = r.params := by
  cases h with
  | none | admin => rfl
  | packet _ _ happly => exact (apply_sameSettings happly).params_eq
  | params => exact absurd rfl (hother _)

theorem added?_cases (r : Registry) (e : Event) :
    (r.added? e = none ∧ (r.after e).params = r.params) ∨
      ∃ params version, r.added? e = some params ∧ params.check = .ok () ∧
        r.nextVersion = .ok version ∧ (r.after e).params = r.params.insert version params := by
  cases e with
  | notify m | migrate m => exact .inl ⟨rfl, rfl⟩
  | execute sender command =>
    cases command with
    | updateAdmin admin => exact .inl ⟨rfl, (transition_after r _).params_eq nofun⟩
    | relay w => exact .inl ⟨rfl, (transition_after r _).params_eq nofun⟩
    | addParams params =>
      unfold added? after Event.call
      dsimp only
      cases heffect : r.effect sender (.addParams params) with
      | error e =>
        have hfails : r.perform (execute sender (.addParams params)) = (.error e, r) := by
          rw [perform_execute, heffect]
          rfl
        rw [hfails]
        exact .inl ⟨rfl, rfl⟩
      | ok x =>
        have hok : r.perform (execute sender (.addParams params)) = (.ok x.1, x.2) := by
          rw [perform_execute, heffect]
          rfl
        obtain ⟨_, hparams, version, hversion, _, hstored⟩ := (perform_addParams_eq_ok r).1 hok
        rw [hok]
        exact .inr ⟨params, version, rfl, hparams, hversion, hstored ▸ rfl⟩

end Added

/-! ## Versions and positions -/

/-- The parameters of a registry are the members of a list, each under its position, and they all
pass their checks. -/
structure Lists (r : Registry) (log : List StakingParams) : Prop where
  length_le : log.length ≤ UInt32.size
  get? : ∀ version : UInt32, r.params.get? version = log[version.toNat]?
  checked : ∀ p ∈ log, p.check = .ok ()

namespace Lists

theorem of_params_eq (h : r.Lists log) (hparams : r'.params = r.params) : r'.Lists log where
  length_le := h.length_le
  get? version := by rw [hparams, h.get?]
  checked := h.checked

theorem last? {init : List StakingParams} {p : StakingParams} (h : r.Lists (init ++ [p])) :
    r.params.last? = some (UInt32.ofNat init.length, p) := by
  have hlength := h.length_le
  rw [List.length_append, List.length_singleton] at hlength
  have htoNat : (UInt32.ofNat init.length).toNat = init.length :=
    UInt32.toNat_ofNat_of_lt' hlength
  rw [Table.last?_eq_some_iff, h.get?, htoNat, List.getElem?_concat_length]
  refine ⟨rfl, fun version q hq => ?_⟩
  -- a version that is in use is a position, so it is at most the last one
  rw [h.get?] at hq
  obtain ⟨hversion, _⟩ := List.getElem?_eq_some_iff.1 hq
  rw [List.length_append, List.length_singleton] at hversion
  rcases Nat.lt_succ_iff_lt_or_eq.1 hversion with hlt | heq
  · refine .inl (compareOfLessAndEq_eq_lt.2 (UInt32.lt_iff_toNat_lt.2 ?_))
    rw [htoNat]
    exact hlt
  · exact .inr (UInt32.toNat_inj.1 (heq.trans htoNat.symm))

theorem last?_nil (h : r.Lists []) : r.params.last? = none := by
  rw [Option.eq_none_iff_forall_ne_some]
  rintro ⟨version, p⟩ hlast
  have hp := (Table.last?_eq_some_iff.1 hlast).1
  rw [h.get?, List.getElem?_nil] at hp
  cases hp

/-- The next version is the length of the list. -/
theorem nextVersion_eq_ok (h : r.Lists log) {version : UInt32} :
    r.nextVersion = .ok version ↔
      log.length < UInt32.size ∧ version = UInt32.ofNat log.length := by
  unfold nextVersion
  rcases List.eq_nil_or_concat log with rfl | ⟨init, p, rfl⟩
  · rw [h.last?_nil, List.length_nil]
    exact ⟨fun e => ⟨by decide, (Except.ok.inj e).symm⟩, fun e => congrArg Except.ok e.2.symm⟩
  · rw [List.concat_eq_append] at h ⊢
    have hlength := h.length_le
    rw [List.length_append, List.length_singleton] at hlength ⊢
    rw [h.last?]
    dsimp only
    rw [UInt32.toNat_ofNat_of_lt' hlength, UInt32.ofNat_add]
    split_ifs with hlt
    · rw [Except.ok.injEq, and_iff_right hlt, eq_comm]
      rfl
    · exact ⟨nofun, fun e => absurd e.1 hlt⟩

/-- Parameters under the next version are appended. -/
theorem append (h : r.Lists log) (hlength : log.length < UInt32.size) {p : StakingParams}
    (hp : p.check = .ok ())
    (hparams : r'.params = r.params.insert (UInt32.ofNat log.length) p) :
    r'.Lists (log ++ [p]) where
  length_le := by
    rw [List.length_append, List.length_singleton]
    exact hlength
  get? version := by
    have htoNat : (UInt32.ofNat log.length).toNat = log.length :=
      UInt32.toNat_ofNat_of_lt' hlength
    rw [hparams, Table.get?_insert]
    split_ifs with hversion
    · rw [hversion, htoNat, List.getElem?_concat_length]
    · have hne : version.toNat ≠ log.length := fun e =>
        hversion (UInt32.toNat_inj.1 (e.trans htoNat.symm))
      -- the versions before the new one are old positions, and those after it are in neither list
      rw [h.get?]
      rcases Nat.lt_or_gt_of_ne hne with hlt | hgt
      · rw [List.getElem?_append_left hlt]
      · rw [List.getElem?_eq_none (Nat.le_of_lt hgt), List.getElem?_eq_none]
        rw [List.length_append, List.length_singleton]
        exact hgt
  checked := List.forall_mem_append.2 ⟨h.checked, List.forall_mem_singleton.2 hp⟩

/-! ## Calls and runs -/

/-- Calls keep the versions listed, whether they succeed or fail. -/
theorem after [AddressHost] (h : r.Lists log) (e : Event) :
    (r.after e).Lists (log ++ (r.added? e).toList) := by
  rcases added?_cases r e with ⟨hnone, hsame⟩ | ⟨params, version, hsome, hchecked, hversion, hafter⟩
  · rw [hnone, Option.toList_none, List.append_nil]
    exact h.of_params_eq hsame
  · obtain ⟨hlength, rfl⟩ := h.nextVersion_eq_ok.1 hversion
    rw [hsome, Option.toList_some]
    exact h.append hlength hchecked hafter

theorem run [AddressHost] (h : r.Lists log) (events : List Event) :
    (r.run events).Lists (log ++ r.added events) :=
  notes_rel Lists (fun e h => h.after e) h events

end Lists

theorem lists_empty : empty.Lists [] where
  length_le := Nat.zero_le _
  get? _ := rfl
  checked _ := nofun

/-- What a registry is set up with becomes version zero. -/
theorem lists_of_setUp [AddressHost] {sender : String} {hasFunds : Bool} {s : Setup} {reply : Reply}
    (h : empty.perform (setUp sender hasFunds s) = (.ok reply, r)) :
    r.Lists [s.params.getD .empty] := by
  obtain ⟨_, _, hparams, _, rfl⟩ := (perform_setUp_eq_ok _).1 h
  exact lists_empty.append (by decide) hparams rfl

/-! ## What the positions say -/

theorem query_params (r : Registry) (version : UInt32) :
    r.query (.params (some version)) =
      match r.params.get? version with
      | some p => .ok (.params p)
      | none => .error (.paramsNotFound version) := by
  unfold query paramsAnswer paramsOf
  dsimp only
  cases r.params.get? version <;> rfl

namespace Lists

theorem contains_iff (h : r.Lists log) {version : UInt32} :
    r.params.contains version = true ↔ version.toNat < log.length := by
  unfold Table.contains
  rw [h.get?, Option.isSome_iff_ne_none, Ne, List.getElem?_eq_none_iff, Nat.not_le]

theorem query_latest {p : StakingParams} (h : r.Lists log) (hp : log.getLast? = some p) :
    r.query (.params none) = .ok (.params p) := by
  obtain ⟨init, rfl⟩ := List.getLast?_eq_some_iff.1 hp
  unfold query paramsAnswer
  dsimp only
  rw [h.last?]
  rfl

theorem query_eq_ok (h : r.Lists log) {version : UInt32} {p : StakingParams} :
    r.query (.params (some version)) = .ok (.params p) ↔ log[version.toNat]? = some p := by
  rw [query_params, h.get?]
  cases log[version.toNat]? <;> simp

theorem query_eq_notFound (h : r.Lists log) {version : UInt32} :
    r.query (.params (some version)) = .error (.paramsNotFound version) ↔
      log.length ≤ version.toNat := by
  rw [query_params, h.get?, ← List.getElem?_eq_none_iff]
  cases log[version.toNat]? <;> simp

/-- Parameters that are added get the next version, and the others keep theirs. -/
theorem perform_addParams [AddressHost] (h : r.Lists log) {sender : String} {params : StakingParams}
    {reply : Reply} (hadd : r.perform (execute sender (.addParams params)) = (.ok reply, r')) :
    log.length < UInt32.size ∧
      reply = .ofAttributes [("action", "add_staking_params"),
        ("version", Numeral.text log.length)] ∧
      r'.params.get? (.ofNat log.length) = some params ∧
      ∀ v : UInt32, v.toNat < log.length → r'.params.get? v = r.params.get? v := by
  obtain ⟨_, _, version, hversion, rfl, rfl⟩ := (perform_addParams_eq_ok r).1 hadd
  obtain ⟨hlength, rfl⟩ := h.nextVersion_eq_ok.1 hversion
  have htoNat : (UInt32.ofNat log.length).toNat = log.length := UInt32.toNat_ofNat_of_lt' hlength
  rw [htoNat]
  refine ⟨hlength, rfl, Table.get?_insert_self _ _ _, fun v hv => ?_⟩
  refine Table.get?_insert_of_ne _ (fun e => ?_) _
  rw [e, htoNat] at hv
  exact Nat.lt_irrefl _ hv

/-- Stored parameters pass their checks, and say what the checks say. -/
theorem checked_of_get? (h : r.Lists log) {version : UInt32} {p : StakingParams}
    (hp : r.params.get? version = some p) :
    p.check = .ok () ∧ (∀ key ∈ p.committee, Key.IsCanonical key) ∧ p.committee.Nodup ∧
      p.quorum.toNat ≤ p.committee.length := by
  rw [h.get?] at hp
  have hchecked := h.checked p (List.mem_of_getElem? hp)
  obtain ⟨hkeys, hnodup, hquorum⟩ := StakingParams.check_eq_ok.1 hchecked
  exact ⟨hchecked, fun key hkey => Key.isCanonical_of_check (hkeys key hkey), hnodup, hquorum⟩

end Lists

/-- What the parameters of a registry are after any run since it was set up. Those that it was set
up with come first, followed by those that successful calls have added.

* There is a version for each of them, and the version is the position.
* A call that adds parameters gets the version that comes next, says so, and leaves the versions
  before it as they are.
* The latest parameters are the last ones, those of a version are what was put there, and other
  versions are not found.
* All of them pass their checks: the keys are canonical, no two are the same, and the committee is
  at least as large as the quorum. -/
theorem params_append_only [AddressHost] {sender : String} {hasFunds : Bool} {s : Setup}
    {reply : Reply}
    (h : empty.perform (setUp sender hasFunds s) = (.ok reply, r)) (events : List Event) :
    (r.added events).length < UInt32.size ∧
      (∀ v : UInt32, (r.run events).params.contains v = true ↔
        v.toNat ≤ (r.added events).length) ∧
      (∀ v : UInt32, (r.run events).params.get? v =
        (s.params.getD .empty :: r.added events)[v.toNat]?) ∧
      (∀ sender params reply r',
        (r.run events).perform (execute sender (.addParams params)) = (.ok reply, r') →
          (r.added events).length + 1 < UInt32.size ∧
            reply = .ofAttributes [("action", "add_staking_params"),
              ("version", Numeral.text ((r.added events).length + 1))] ∧
            r'.params.get? (.ofNat ((r.added events).length + 1)) = some params ∧
            ∀ v : UInt32, v.toNat ≤ (r.added events).length →
              r'.params.get? v = (r.run events).params.get? v) ∧
      (r.run events).query (.params none) =
        .ok (.params ((r.added events).getLastD (s.params.getD .empty))) ∧
      (∀ v p, (r.run events).query (.params (some v)) = .ok (.params p) ↔
        (s.params.getD .empty :: r.added events)[v.toNat]? = some p) ∧
      (∀ v, (r.run events).query (.params (some v)) = .error (.paramsNotFound v) ↔
        (r.added events).length < v.toNat) ∧
      ∀ v p, (r.run events).params.get? v = some p →
        p.check = .ok () ∧ (∀ key ∈ p.committee, Key.IsCanonical key) ∧ p.committee.Nodup ∧
          p.quorum.toNat ≤ p.committee.length := by
  have hlists : (r.run events).Lists (s.params.getD .empty :: r.added events) :=
    (lists_of_setUp h).run events
  have hlast : (s.params.getD .empty :: r.added events).getLast? =
      some ((r.added events).getLastD (s.params.getD .empty)) := by
    rw [List.getLast?_cons, List.getLastD_eq_getLast?]
  refine ⟨hlists.length_le, fun v => ?_, hlists.get?, fun _ _ _ _ hadd => ?_,
    hlists.query_latest hlast, fun v p => hlists.query_eq_ok, fun v => hlists.query_eq_notFound,
    fun v p => hlists.checked_of_get?⟩
  · rw [hlists.contains_iff, List.length_cons, Nat.lt_succ_iff]
  · obtain ⟨hlength, hreply, hstored, hothers⟩ := hlists.perform_addParams hadd
    exact ⟨hlength, hreply, hstored, fun v hv => hothers v (Nat.lt_succ_of_le hv)⟩

attribute [local instance] Address.Host.rules

/-- The committee of the sample registry is replaced once, and then can be replaced again. -/
theorem params_append_only_later :
    (Sample.registry.added Sample.later).length = 1 ∧
      (Sample.registry.run Sample.later).query (.params none) =
        .ok (.params ⟨[Sample.key 5], 1⟩) ∧
      (Sample.registry.run Sample.later).query (.params (some 0)) =
        .ok (.params ⟨[Sample.key 1, Sample.key 2], 1⟩) ∧
      (Sample.registry.run Sample.later).query (.params (some 2)) =
        .error (.paramsNotFound 2) ∧
      ∃ r', (Sample.registry.run Sample.later).perform
          (execute Sample.owner (.addParams .empty)) =
        (.ok (.ofAttributes [("action", "add_staking_params"), ("version", "2")]), r') ∧
          r'.params.get? 2 = some .empty := by
  have hadded : Sample.registry.added Sample.later = [⟨[Sample.key 5], 1⟩] := by decide +kernel
  have hsucceeds : ((Sample.registry.run Sample.later).perform
      (execute Sample.owner (.addParams .empty))).1.toOption.isSome = true := by decide +kernel
  obtain ⟨reply, hreply⟩ := Option.isSome_iff_exists.1 hsucceeds
  obtain ⟨_, _, _, hadd, hlatest, hversion, hnotFound, _⟩ :=
    params_append_only Sample.perform_setUp Sample.later
  obtain ⟨_, rfl, hstored, _⟩ := hadd _ _ _ _ (perform_eq_of_toOption hreply)
  rw [hadded] at hlatest hversion hnotFound hstored hreply ⊢
  refine ⟨rfl, hlatest, (hversion 0 _).2 rfl, (hnotFound 2).2 (by decide), _,
    perform_eq_of_toOption hreply, hstored⟩

end Registry

end Restaking
