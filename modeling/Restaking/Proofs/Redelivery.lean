import Restaking.Proofs.Growth
import Restaking.Proofs.Reading

/-!
# Packets that arrive again

A packet that was relayed with success can be relayed again at any later time, and does no harm.

1. What a packet leaves behind is a record that every later call keeps (`Recorded`): its providers
   are registered, its delegations are stored for the same delegators, and what it slashed or
   unbonded has come to its end.
2. Where a packet is recorded its delegations are known, and its notices change nothing. So without
   registrations it is applied without effect (`apply_of_recorded`), and otherwise the first of them
   is refused (`apply_of_recorded_cons`).
-/

namespace Restaking.Registry

variable {r r' : Registry}

/-! ## Records -/

/-- The registry stores a delegation under the hash of `d`, by the same delegator. -/
def Knows (r : Registry) (d : Delegation) : Prop :=
  ∃ s, r.stakes.get? (Delegation.hash d) = some s ∧ s.id.delegator = d.delegator

/-- The stake that a text names has come to its end. -/
def Ended (r : Registry) (text : String) : Prop :=
  ∃ hash s, Names text hash ∧ r.stakes.get? hash = some s ∧ s.isTerminal = true

theorem Knows.mono {d : Delegation} (h : r.Knows d) (hr : r.Extends r') : r'.Knows d := by
  obtain ⟨s, hs, hd⟩ := h
  obtain ⟨s', hs', hb⟩ := hr.stakes hs
  exact ⟨s', hs', by rw [hb.id_eq, hd]⟩

theorem Ended.mono {text : String} (h : r.Ended text) (hr : r.Extends r') : r'.Ended text := by
  obtain ⟨hash, s, hn, hs, hend⟩ := h
  obtain ⟨s', hs', hb⟩ := hr.stakes hs
  exact ⟨hash, s', hn, hs', by rw [hb.eq_of_isTerminal hend, hend]⟩

theorem knows_of_enroll {d : Delegation} (h : r.enroll d = .ok r') : r'.Knows d := by
  rcases enroll_eq_ok.1 h with ⟨s, hs, hd, rfl⟩ | ⟨_, s, hs, rfl⟩
  · exact ⟨s, hs, hd⟩
  · obtain ⟨rfl, _⟩ := examine_eq_ok.1 hs
    exact ⟨.active d, by rw [get?_putStake, if_pos rfl], rfl⟩

theorem ended_of_slash {n : SlashNotice} (h : r.slash n = .ok r') : r'.Ended n.stakingTx := by
  obtain ⟨hash, s, hn, _, rfl⟩ := slash_eq_ok.1 h
  exact ⟨hash, s.slash, hn, by rw [get?_putStake, if_pos rfl], s.isTerminal_slash⟩

theorem ended_of_unbond {n : UnbondNotice} (h : r.unbond n = .ok r') : r'.Ended n.stakingTx := by
  obtain ⟨hash, s, hn, _, _, rfl⟩ := unbond_eq_ok.1 h
  exact ⟨hash, s.unbond, hn, by rw [get?_putStake, if_pos rfl], s.isTerminal_unbond⟩

/-- What a packet leaves in a registry for good. -/
structure Recorded (r : Registry) (p : Packet) : Prop where
  checked : ∀ q ∈ p.providers, q.check = .ok ()
  providers : ∀ q ∈ p.providers, r.providers.get? q.id = some q
  delegations : ∀ d ∈ p.delegations, r.Knows d
  slashings : ∀ n ∈ p.slashings, r.Ended n.stakingTx
  unbondings : ∀ n ∈ p.unbondings, r.Ended n.stakingTx

theorem Recorded.mono {p : Packet} (h : r.Recorded p) (hr : r.Extends r') : r'.Recorded p where
  checked := h.checked
  providers q hq := hr.providers (h.providers q hq)
  delegations d hd := (h.delegations d hd).mono hr
  slashings n hn := (h.slashings n hn).mono hr
  unbondings n hn := (h.unbondings n hn).mono hr

theorem recorded_of_apply {p : Packet} {count : Nat} (h : r.apply p = .ok (count, r')) :
    r'.Recorded p := by
  obtain ⟨r₁, r₂, r₃, h₁, h₂, h₃, h₄⟩ := apply_eq_ok.1 h
  have hunbond : r₃.Extends r' := foldlM_extends unbond_extends h₄
  have hslash : r₂.Extends r' := (foldlM_extends slash_extends h₃).trans hunbond
  refine ⟨?_, fun q hq => get?_of_apply h hq, ?_, ?_, ?_⟩
  · exact foldlM_leaves register_extends (fun (q : Provider) _ => q.check = .ok ())
      (fun h => (register_eq_ok.1 h).1) (fun _ => id) h₁
  · intro d hd
    have hknows := foldlM_leaves enroll_extends (fun d r => Knows r d) knows_of_enroll
      (fun hr hd => Knows.mono hd hr) (foldlM_enroll_of_acceptAll h₂)
    exact (hknows d hd).mono hslash
  · intro n hn
    have hended := foldlM_leaves slash_extends (fun (n : SlashNotice) r => Ended r n.stakingTx)
      ended_of_slash (fun hr hn => Ended.mono hn hr) h₃
    exact (hended n hn).mono hunbond
  · exact foldlM_leaves unbond_extends (fun (n : UnbondNotice) r => Ended r n.stakingTx)
      ended_of_unbond (fun hr hn => Ended.mono hn hr) h₄

/-! ## Applying again -/

theorem accept_of_knows {d : Delegation} (h : r.Knows d) : r.accept d = .ok (false, r) := by
  obtain ⟨s, hs, hd⟩ := h
  exact accept_eq_ok.2 (.inl ⟨s, hs, hd, rfl, rfl⟩)

theorem acceptAll_of_knows {ds : List Delegation} (h : ∀ d ∈ ds, r.Knows d) :
    r.acceptAll ds = .ok (0, r) := by
  induction ds with
  | nil => rfl
  | cons d rest ih =>
    rw [List.forall_mem_cons] at h
    rw [acceptAll, accept_of_knows h.1, ok_bind]
    dsimp only
    rw [ih h.2]
    rfl

theorem slash_of_ended {n : SlashNotice} (h : r.Ended n.stakingTx) : r.slash n = .ok r := by
  obtain ⟨hash, s, hn, hs, hend⟩ := h
  refine slash_eq_ok.2 ⟨hash, s, hn, hs, ?_⟩
  rw [Stake.slash_of_isTerminal hend, putStake_eq_self hs]

theorem unbond_of_ended {n : UnbondNotice} (h : r.Ended n.stakingTx) : r.unbond n = .ok r := by
  obtain ⟨hash, s, hn, hs, hend⟩ := h
  refine unbond_eq_ok.2 ⟨hash, s, hn, hs, fun hactive => ?_, ?_⟩
  · cases s <;> simp [Stake.isActive, Stake.isTerminal, Stake.stage] at hactive hend
  · rw [Stake.unbond_of_isTerminal hend, putStake_eq_self hs]

/-- A packet that registers nobody and is recorded has no effect. -/
theorem apply_of_recorded {p : Packet} (h : r.Recorded p) (hp : p.providers = []) :
    r.apply p = .ok (0, r) := by
  refine apply_eq_ok.2 ⟨r, r, r, ?_, acceptAll_of_knows h.delegations, ?_, ?_⟩
  · rw [hp]
    rfl
  · exact foldlM_fixed fun n hn => slash_of_ended (h.slashings n hn)
  · exact foldlM_fixed fun n hn => unbond_of_ended (h.unbondings n hn)

/-- The first provider of a recorded packet is refused. -/
theorem apply_of_recorded_cons {p : Packet} (h : r.Recorded p) {q : Provider}
    {rest : List Provider} (hp : p.providers = q :: rest) :
    r.apply p = .error (.staking (.repeatedProvider q.consumer q.key)) := by
  have hq : q ∈ p.providers := hp ▸ List.mem_cons_self
  have hknown : ¬ r.providers.contains q.id = false := by
    unfold Table.contains
    rw [h.providers q hq, Option.isSome_some]
    exact Bool.noConfusion
  have hregister : r.register q = .error (.staking (.repeatedProvider q.consumer q.key)) := by
    unfold register
    rw [h.checked q hq, mapError_ok, ok_bind, demand_neg hknown, error_bind]
  unfold apply
  rw [hp, List.foldlM_cons, hregister, error_bind, error_bind]

/-- A packet that was once relayed with success can be relayed again at any later time, whatever was
called in between and by any sender who may relay by then, and nothing stored changes. The call
succeeds without a new delegation if the packet registers nobody. Otherwise its first registration
is refused. -/
theorem relay_again [AddressHost] {sender sender' : String} {w : Wire.Packet} {reply : Reply}
    (h : r.perform (execute sender (.relay w)) = (.ok reply, r')) (events : List Event)
    (hsender : (r'.run events).MayRelay sender') :
    ((r'.run events).perform (execute sender' (.relay w))).2 = r'.run events ∧
      (w.registrations = [] →
        ∃ reply', ((r'.run events).perform (execute sender' (.relay w))).1 = .ok reply' ∧
          ("active_dels", "0") ∈ reply'.attributes) ∧
      ∀ reg rest, w.registrations = reg :: rest →
        ((r'.run events).perform (execute sender' (.relay w))).1 =
          .error (.staking (.repeatedProvider reg.consumer reg.key)) := by
  obtain ⟨_, p, count, hp, happly, _⟩ := (perform_relay_eq_ok r).1 h
  have hrecorded : (r'.run events).Recorded p :=
    (recorded_of_apply happly).mono (run_extends r' events)
  obtain ⟨⟨hregs, _⟩, _⟩ := Packet.ofWire_eq_ok.1 hp
  -- from here on only the record counts, not how the registry has come about
  generalize r'.run events = s at hsender hrecorded
  rw [perform_relay s hsender hp]
  cases hw : w.registrations with
  | nil =>
    rw [hw, traverse, Except.ok.injEq] at hregs
    rw [apply_of_recorded hrecorded hregs.symm]
    have hzero : Numeral.text 0 = "0" := rfl
    refine ⟨rfl, fun _ => ⟨_, rfl, ?_⟩, fun _ _ e => by cases e⟩
    simp [relayReply, hzero]
  | cons reg rest =>
    rw [hw] at hregs
    obtain ⟨q, qs, hq, _, hqs⟩ := traverse_cons_eq_ok.1 hregs
    rw [apply_of_recorded_cons hrecorded hqs]
    refine ⟨rfl, fun e => by (cases e), ?_⟩
    rintro reg' rest' e
    obtain ⟨rfl, rfl⟩ := List.cons.inj e
    obtain ⟨hconsumer, hkey⟩ := ProviderId.mk.inj (Provider.id_of_ofRegistration hq)
    rw [hconsumer, hkey]
    rfl

attribute [local instance] Address.Host.rules

/-- The packet arrives again after the committee has been replaced. -/
theorem relay_again_endingPacket :
    (Sample.ended.run Sample.later).MayRelay Sample.owner ∧
      ((Sample.ended.run Sample.later).perform
        (execute Sample.owner (.relay Sample.endingPacket))).2 = Sample.ended.run Sample.later ∧
      ((Sample.ended.run Sample.later).perform
        (execute Sample.owner (.relay Sample.endingPacket))).1 =
          .error (.staking (.repeatedProvider "osmosis-1" (Sample.key 3))) := by
  have hconfig : Sample.ended.config = some ⟨Sample.owner⟩ :=
    (transition_after Sample.registry _).config_eq
  have hsender := mayRelay_run hconfig Sample.later
  obtain ⟨hsame, _, hrefused⟩ := relay_again Sample.perform_endingPacket Sample.later hsender
  exact ⟨hsender, hsame, hrefused Sample.registration [] rfl⟩

end Restaking.Registry
