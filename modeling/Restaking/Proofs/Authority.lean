import Restaking.Proofs.Growth

/-!
# Who can change what

Commands ask for one of two roles. The relayer is whoever has set the registry up, for good. The
admin can hand the role on, or give it up, and then nobody has it ever again
(`changes_authorized`).

1. A command succeeds only for a sender with the role that it asks for (`mayIssue_of_effect`). Other
   senders change nothing (`perform_execute_of_not_mayIssue`), and a packet from them is turned away
   before anything else is looked at (`perform_relay_of_unauthorized`).
2. Only the admin changes anything but providers and stakes (`Transition.sameSettings`). So without
   an admin the parameters stay as they are, and there is no admin later on (`Transition.noAdmin`,
   `run_noAdmin`).
3. Both roles are stored from the beginning (`Reachable.stored`).
-/

namespace Restaking.Registry

variable [AddressHost] {r r' : Registry} {sender : String} {e : Event}

/-! ## The role that a command asks for -/

/-- The sender has the role that a command asks for. -/
def MayIssue (r : Registry) (sender : String) : Command → Prop
  | .relay _ => r.MayRelay sender
  | .updateAdmin _ | .addParams _ => r.IsAdmin sender

theorem mayIssue_of_effect {command : Command} {x : Reply × Registry}
    (h : r.effect sender command = .ok x) : r.MayIssue sender command := by
  cases command with
  | updateAdmin admin =>
    -- the new address is checked before the sender is
    obtain ⟨_, h⟩ := check_bind_eq_ok.1 h
    exact (checkAdmin_eq_ok r).1 (check_bind_eq_ok.1 h).1
  | relay w => exact (checkRelayer_eq_ok r).1 (check_bind_eq_ok.1 h).1
  | addParams params => exact (checkAdmin_eq_ok r).1 (check_bind_eq_ok.1 h).1

theorem perform_execute_of_not_mayIssue {command : Command} (h : ¬ r.MayIssue sender command) :
    ∃ e, r.perform (execute sender command) = (.error e, r) := by
  rw [perform_execute]
  cases hx : r.effect sender command with
  | error e => exact ⟨e, rfl⟩
  | ok x => exact absurd (mayIssue_of_effect hx) h

/-- A packet is refused without being looked at, unless the relayer or the admin sends it. -/
theorem perform_relay_of_unauthorized {c : Config} {admin : Option String}
    (hconfig : r.config = some c) (hadmin : r.admin = some admin) (hrelayer : sender ≠ c.relayer)
    (hsender : admin ≠ some sender) (w : Wire.Packet) :
    r.perform (execute sender (.relay w)) = (.error .unauthorized, r) := by
  have hcheck : r.checkRelayer sender = .error .unauthorized := by
    unfold checkRelayer
    rw [hconfig, hadmin]
    dsimp only
    rw [if_neg hrelayer, demand_neg hsender]
  rw [perform_execute, effect, hcheck, error_bind]
  rfl

/-! ## Transitions -/

/-- Whoever is not the admin can change providers and stakes at most. -/
theorem Transition.sameSettings {command : Command} (h : r.Transition (.execute sender command) r')
    (hsender : ¬ r.IsAdmin sender) : r.SameSettings r' := by
  cases h with
  | none => rfl
  | packet _ _ happly => exact apply_sameSettings happly
  | admin hadmin | params hadmin => exact absurd hadmin hsender

/-- An admin, or that there is none, stays stored. -/
theorem Transition.stored {admin : Option String} (h : r.Transition e r')
    (hadmin : r.admin = some admin) : ∃ admin', r'.admin = some admin' := by
  cases h with
  | none | params | block => exact ⟨admin, hadmin⟩
  | admin => exact ⟨_, rfl⟩
  | packet _ _ happly => exact ⟨admin, (apply_sameSettings happly).admin_eq.trans hadmin⟩

theorem Transition.noAdmin (h : r.Transition e r') (hadmin : r.admin = some Option.none) :
    r'.admin = some Option.none ∧ r'.params = r.params := by
  cases h with
  | none | block => exact ⟨hadmin, rfl⟩
  | packet _ _ happly =>
    have hsame := apply_sameSettings happly
    exact ⟨hsame.admin_eq.trans hadmin, hsame.params_eq⟩
  | admin hsender | params hsender =>
    unfold IsAdmin at hsender
    rw [hadmin] at hsender
    cases hsender

/-! ## Runs -/

/-- Once there is no admin there is none for good, and the parameters stay as they are. -/
theorem run_noAdmin (hadmin : r.admin = some none) (events : List Event) :
    (r.run events).admin = some none ∧ (r.run events).params = r.params := by
  refine run_keeps (fun r' => r'.admin = some none ∧ r'.params = r.params) ?_ ⟨hadmin, rfl⟩ events
  intro r' e ⟨hnone, hsame⟩
  obtain ⟨hafter, hparams⟩ := (transition_after r' e).noAdmin hnone
  exact ⟨hafter, hparams.trans hsame⟩

theorem Reachable.stored (h : r.Reachable) :
    ∃ c admin, r.config = some c ∧ r.admin = some admin := by
  induction h with
  | setUp h =>
    obtain ⟨_, _, _, _, rfl⟩ := (perform_setUp_eq_ok _).1 h
    exact ⟨_, _, rfl, rfl⟩
  | @call r _ e ih =>
    obtain ⟨c, admin, hconfig, hadmin⟩ := ih
    have htransition := transition_after r e
    obtain ⟨admin', hadmin'⟩ := htransition.stored hadmin
    exact ⟨c, admin', htransition.config_eq.trans hconfig, hadmin'⟩

/-- In every reachable registry it is settled who is the relayer, and who the admin is, if anybody.

* Every command from anybody else fails and changes nothing. If it brings a packet the sender is
  unauthorized, whatever the packet says and whatever else is stored.
* A relayer who is not the admin changes providers and stakes at most.
* The relayer stays the same along every run.
* Once there is no admin there is none for good, and the parameters stay as they are.
* A message from the host changes the last block only. -/
theorem changes_authorized (h : r.Reachable) :
    ∃ c admin, r.config = some c ∧ r.admin = some admin ∧
      (∀ sender, sender ≠ c.relayer → admin ≠ some sender →
        (∀ command, ∃ e, r.perform (execute sender command) = (.error e, r)) ∧
          ∀ w (r' : Registry), r'.config = some c → r'.admin = some admin →
            r'.perform (execute sender (.relay w)) = (.error .unauthorized, r')) ∧
      (admin ≠ some c.relayer →
        ∀ command, r.SameSettings (r.perform (execute c.relayer command)).2) ∧
      (∀ events, (r.run events).config = some c) ∧
      (admin = none → ∀ events,
        (r.run events).admin = some none ∧ (r.run events).params = r.params) ∧
      ∀ m, ∃ block, (r.perform (notify m)).2 = { r with lastBlock := some block } := by
  obtain ⟨c, admin, hconfig, hadmin⟩ := h.stored
  have hrole : ∀ {sender}, admin ≠ some sender → ¬ r.IsAdmin sender := by
    intro sender hsender hrole
    unfold IsAdmin at hrole
    exact hsender (Option.some.inj (hadmin.symm.trans hrole))
  refine ⟨c, admin, hconfig, hadmin, ?_, ?_, ?_, ?_, ?_⟩
  · intro sender hrelayer hsender
    refine ⟨fun command => ?_, fun w r' hconfig hadmin =>
      perform_relay_of_unauthorized hconfig hadmin hrelayer hsender w⟩
    cases command with
    | relay w => exact ⟨_, perform_relay_of_unauthorized hconfig hadmin hrelayer hsender w⟩
    | updateAdmin _ | addParams _ => exact perform_execute_of_not_mayIssue (hrole hsender)
  · intro hsender command
    exact (transition_after r (.execute c.relayer command)).sameSettings (hrole hsender)
  · intro events
    exact (run_config r events).trans hconfig
  · intro hnone events
    exact run_noAdmin (hadmin.trans (congrArg some hnone)) events
  · rintro ⟨block⟩
    exact ⟨block, rfl⟩

end Restaking.Registry

/-! ## A registry without an admin -/

namespace Restaking

attribute [local instance] Address.Host.rules

namespace Sample

/-- The registry after its admin has given up the role. -/
def abandoned : Registry := registry.after (.execute owner (.updateAdmin none))

end Sample

namespace Registry

/-- The relayer may still relay, a stranger may not, and there are no new parameters. -/
theorem changes_authorized_abandoned :
    Sample.abandoned.perform (execute "stranger" (.relay Sample.packet)) =
        (.error .unauthorized, Sample.abandoned) ∧
      Sample.abandoned.SameSettings
        (Sample.abandoned.perform (execute Sample.owner (.relay Sample.packet))).2 ∧
      (Sample.abandoned.run Sample.later).config = some ⟨Sample.owner⟩ ∧
      (Sample.abandoned.run Sample.later).params = Sample.abandoned.params := by
  have hconfig : Sample.abandoned.config = some ⟨Sample.owner⟩ := by decide +kernel
  have hadmin : Sample.abandoned.admin = some none := by decide +kernel
  have hreachable : Sample.abandoned.Reachable := Sample.reachable.call _
  obtain ⟨c, admin, hc, ha, hothers, hrelayer, hkept, hsettled, _⟩ := changes_authorized hreachable
  obtain rfl := Option.some.inj (hc.symm.trans hconfig)
  obtain rfl := Option.some.inj (ha.symm.trans hadmin)
  obtain ⟨_, hrefused⟩ := hothers "stranger" (by decide) nofun
  exact ⟨hrefused Sample.packet _ hconfig hadmin, hrelayer nofun _, hkept Sample.later,
    (hsettled rfl Sample.later).2⟩

end Registry

end Restaking
