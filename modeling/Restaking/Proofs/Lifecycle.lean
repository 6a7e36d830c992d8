import Restaking.Proofs.Outcome
import Mathlib.Data.List.Induction

/-!
# The life of a stored delegation

What happens to the stake under one hash between any two moments of a run. It is never removed and
keeps its identity. It is left as it is, or it is active and comes to its end; so it is not seen
unbonding in between (`Settled`), although an unbonding notice takes it through that stage.

An active stake has an origin (`AdmittedAs`): the call that found nothing under the hash, in a
packet whose first delegation with this hash is the one that is stored. Delegations with the same
hash that come later do not replace it. Going back from the end of a run, call by call, the stake is
either stored before the last call already, or the last call admits it (`active_admittedAs`).
-/

namespace Restaking.Registry

variable {r r' : Registry}

/-! ## No stake is left unbonding -/

/-- No stored stake is unbonding. -/
def Settled (r : Registry) : Prop :=
  ∀ hash s, r.stakes.get? hash = some s → s.stage ≠ .unbonding

theorem settled_of_empty (h : r.stakes = .empty) : r.Settled := by
  intro hash s hs
  rw [h, Table.get?_empty] at hs
  cases hs

theorem settled_outcome {s : Stake} (p : Packet) (hash : TxHash) (h : s.stage ≠ .unbonding) :
    (p.outcome hash s).stage ≠ .unbonding := by
  unfold Packet.outcome
  split_ifs
  · exact h
  · exact Stage.noConfusion
  · exact Stage.noConfusion
  · exact h

theorem apply_settled {p : Packet} {count : Nat} (h : r.apply p = .ok (count, r'))
    (hr : r.Settled) : r'.Settled := by
  intro hash t ht
  rw [get?_stakes_apply h, Option.map_eq_some_iff] at ht
  obtain ⟨s, hs, rfl⟩ := ht
  apply settled_outcome
  rcases Option.or_eq_some_iff.1 hs with hs | ⟨_, hs⟩
  · exact hr hash s hs
  · -- what a packet admits is active
    obtain ⟨d, _, rfl⟩ := Option.map_eq_some_iff.1 hs
    exact Stage.noConfusion

theorem Transition.settled [AddressHost] {e : Event} (h : r.Transition e r') (hr : r.Settled) :
    r'.Settled := by
  cases h with
  | packet _ _ happly => exact apply_settled happly hr
  | none | admin | params | block => exact hr

theorem run_settled [AddressHost] (h : r.Settled) (events : List Event) : (r.run events).Settled :=
  run_keeps Settled (fun e hr => (transition_after _ e).settled hr) h events

/-- What becomes of a stake that is not unbonding. -/
theorem becomes_cases {s t : Stake} (h : s.Becomes t) (hs : s.stage ≠ .unbonding) :
    t = s ∨ ∃ d, s = .active d ∧
      (t = .slashed (Delegation.id d) ∨ t = .unbonded (Delegation.id d)) := by
  cases s with
  | active d =>
    cases h with
    | same => exact .inl rfl
    | slashed live => exact .inr ⟨d, rfl, .inl rfl⟩
    | unbonded live => exact .inr ⟨d, rfl, .inr rfl⟩
  | unbonding u => exact absurd rfl hs
  | slashed id => exact .inl (h.eq_of_isTerminal rfl)
  | unbonded id => exact .inl (h.eq_of_isTerminal rfl)

/-! ## Where active stakes come from -/

section AnyHost

variable [AddressHost]

theorem run_append (r : Registry) (before later : List Event) :
    r.run (before ++ later) = (r.run before).run later := List.foldl_append

theorem run_concat (r : Registry) (events : List Event) (e : Event) :
    r.run (events ++ [e]) = (r.run events).after e := run_append r events [e]

/-- One of the calls has brought the delegation in: nothing was stored under the hash before it, the
delegation is the first with this hash in the packet, and it is active after the call. -/
def AdmittedAs (r : Registry) (events : List Event) (hash : TxHash) (d : Delegation) : Prop :=
  ∃ earlier sender w later p, events = earlier ++ .execute sender (.relay w) :: later ∧
    (r.run earlier).stakes.get? hash = none ∧ Packet.ofWire w = .ok p ∧
    p.delegations.find? (Delegation.hash · = hash) = some d ∧
    (r.run (earlier ++ [.execute sender (.relay w)])).stakes.get? hash = some (.active d)

theorem AdmittedAs.concat {events : List Event} {hash : TxHash} {d : Delegation}
    (h : r.AdmittedAs events hash d) (e : Event) : r.AdmittedAs (events ++ [e]) hash d := by
  obtain ⟨earlier, sender, w, later, p, rfl, hrest⟩ := h
  exact ⟨earlier, sender, w, later ++ [e], p, by simp, hrest⟩

/-- Only a packet makes an active stake where there was none. -/
theorem admits_of_transition {e : Event} {hash : TxHash} {d : Delegation}
    (h : r.Transition e r') (hnone : r.stakes.get? hash = none)
    (hd : r'.stakes.get? hash = some (.active d)) :
    ∃ sender w p, e = .execute sender (.relay w) ∧ Packet.ofWire w = .ok p ∧
      p.delegations.find? (Delegation.hash · = hash) = some d := by
  cases h with
  | none | admin | params | block =>
    have hsame := hnone.symm.trans hd
    cases hsame
  | @packet sender w p count _ _ hp happly =>
    refine ⟨sender, w, p, rfl, hp, ?_⟩
    rw [get?_stakes_apply happly, Packet.base, hnone, Option.none_or, Option.map_map,
      Option.map_eq_some_iff] at hd
    obtain ⟨d', hfind, houtcome⟩ := hd
    -- the outcome is active only if it is the stake itself
    rw [Function.comp_apply, Packet.outcome] at houtcome
    split_ifs at houtcome with hend
    · cases hend
    · obtain rfl := Stake.active.inj houtcome
      exact hfind

theorem active_admittedAs (hr : r.stakes = .empty) (events : List Event) {hash : TxHash}
    {d : Delegation} (h : (r.run events).stakes.get? hash = some (.active d)) :
    r.AdmittedAs events hash d := by
  induction events using List.reverseRecOn with
  | nil =>
    rw [show r.run [] = r from rfl, hr, Table.get?_empty] at h
    cases h
  | append_singleton events e ih =>
    cases hs : (r.run events).stakes.get? hash with
    | some s =>
      obtain ⟨t, ht, hb⟩ := (after_extends (r.run events) e).stakes hs
      rw [← run_concat, h] at ht
      obtain rfl := Option.some.inj ht
      cases hb with
      | same => exact (ih hs).concat e
    | none =>
      have htransition := transition_after (r.run events) e
      rw [← run_concat] at htransition
      obtain ⟨sender, w, p, rfl, hp, hfind⟩ := admits_of_transition htransition hs h
      exact ⟨events, sender, w, [], p, rfl, hs, hp, hfind, h⟩

/-! ## The whole life -/

/-- The life of a stake that is stored at some moment of a run after the setting up. At every later
moment it is still stored under its hash with the same identity; it is the same stake, or it was
active and has been slashed or unbonded since. It is never seen unbonding, and while it is active it
is the delegation that was admitted when there was nothing under the hash. -/
theorem stake_life {sender : String} {hasFunds : Bool} {setup : Setup} {reply : Reply}
    (h : empty.perform (setUp sender hasFunds setup) = (.ok reply, r)) (before later : List Event)
    {hash : TxHash} {s : Stake} (hs : (r.run before).stakes.get? hash = some s) :
    (∃ t, (r.run (before ++ later)).stakes.get? hash = some t ∧ t.id = s.id ∧
      (t = s ∨ ∃ d, s = .active d ∧
        (t = .slashed (Delegation.id d) ∨ t = .unbonded (Delegation.id d)))) ∧
      s.stage ≠ .unbonding ∧ ∀ d, s = .active d → r.AdmittedAs before hash d := by
  have hempty : r.stakes = .empty := by
    obtain ⟨_, _, _, _, rfl⟩ := (perform_setUp_eq_ok _).1 h
    rfl
  have hlive : s.stage ≠ .unbonding := run_settled (settled_of_empty hempty) before hash s hs
  refine ⟨?_, hlive, ?_⟩
  · obtain ⟨t, ht, hb⟩ := (run_extends (r.run before) later).stakes hs
    rw [run_append]
    exact ⟨t, ht, hb.id_eq, becomes_cases hb hlive⟩
  · rintro d rfl
    exact active_admittedAs hempty before hs

end AnyHost

attribute [local instance] Address.Host.rules

/-- A delegation that one packet admits and the next one slashes. -/
theorem stake_life_admitted :
    (Sample.registry.run Sample.admitting).stakes.get? (Delegation.hash Sample.admitted) =
        some (.active Sample.admitted) ∧
      (∃ t, (Sample.registry.run (Sample.admitting ++ Sample.slashing)).stakes.get?
          (Delegation.hash Sample.admitted) = some t ∧ t.id = Delegation.id Sample.admitted) ∧
      Sample.registry.AdmittedAs Sample.admitting (Delegation.hash Sample.admitted)
        Sample.admitted := by
  have hs : (Sample.registry.run Sample.admitting).stakes.get? (Delegation.hash Sample.admitted) =
      some (.active Sample.admitted) := by decide +kernel
  obtain ⟨⟨t, ht, hid, _⟩, _, horigin⟩ := stake_life Sample.perform_setUp _ Sample.slashing hs
  exact ⟨hs, ⟨t, ht, hid⟩, horigin _ rfl⟩

end Restaking.Registry
