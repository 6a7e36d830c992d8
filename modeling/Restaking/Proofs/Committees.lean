import Restaking.Proofs.Delegations
import Restaking.Proofs.Lifecycle
import Restaking.Proofs.Versions

/-!
# Who signs a delegation

A delegation carries three lists of signatures by covenant members: those on its slashing, and two
on its undelegation. When it is admitted only the first list is held against the committee of its
version. Who signs the undelegation makes no difference, as long as the keys are spelt as keys
(`outsider_signs_undelegation`).

So whether all that is signed in the stored delegations is signed by members rests with the packets.
It is so all along a run if and only if every call that brings in a delegation brings in one whose
undelegation is signed by members (`membersOnly_iff_vetted`). One direction goes back from a stored
delegation to the call that has brought it in (`active_admittedAs`); a version means the same
committee then and now.
-/

namespace Restaking

/-! ## Signers of the undelegation -/

namespace Delegation

/-- The keys under which covenant members sign the undelegation: the unbonding transaction, and the
transaction that slashes its output. -/
def undelegationSigners (d : Delegation) : List String :=
  d.undelegation.memberSignatures.map (·.signer) ++
    d.undelegation.memberSlashingSignatures.map (·.signer)

theorem isCanonical_undelegationSigners {d : Delegation} (h : d.check = .ok ()) :
    ∀ key ∈ d.undelegationSigners, Key.IsCanonical key := by
  have hu := (check_eq_ok.1 h).undelegation
  intro key hkey
  rw [Key.isCanonical_iff]
  rcases List.mem_append.1 hkey with hkey | hkey
  · obtain ⟨sig, hsig, rfl⟩ := List.mem_map.1 hkey
    exact (hu.memberSignatures sig hsig).signer
  · obtain ⟨sig, hsig, rfl⟩ := List.mem_map.1 hkey
    exact (hu.memberSlashingSignatures sig hsig).signer

end Delegation

namespace Registry

variable {r r' : Registry}

/-! ## Members -/

/-- The key is on the committee that is stored under a version. -/
def HasMember (r : Registry) (version : UInt32) (key : String) : Prop :=
  ∃ params, r.params.get? version = some params ∧ key ∈ params.committee

theorem HasMember.mono {version : UInt32} {key : String} (h : r.HasMember version key)
    (hr : r.Extends r') : r'.HasMember version key := by
  obtain ⟨params, hparams, hkey⟩ := h
  exact ⟨params, hr.params hparams, hkey⟩

/-- Whatever is signed in an active delegation is signed by members of its committee. -/
def MembersOnly (r : Registry) : Prop :=
  ∀ hash d, r.stakes.get? hash = some (.active d) →
    (∀ sig ∈ d.memberSignatures, r.HasMember d.paramsVersion sig.signer) ∧
      ∀ key ∈ Delegation.undelegationSigners d, r.HasMember d.paramsVersion key

/-- If a call brings in a delegation, its undelegation is signed by members of its committee. -/
def Vetted [AddressHost] (r : Registry) (e : Event) : Prop :=
  ∀ hash d, r.stakes.get? hash = none → (r.after e).stakes.get? hash = some (.active d) →
    ∀ key ∈ Delegation.undelegationSigners d, r.HasMember d.paramsVersion key

/-- What is checked of an active delegation. -/
theorem Sound.signers (h : r.Sound) {hash : TxHash} {d : Delegation}
    (hd : r.stakes.get? hash = some (.active d)) :
    (∀ sig ∈ d.memberSignatures, r.HasMember d.paramsVersion sig.signer) ∧
      ∀ key ∈ Delegation.undelegationSigners d, Key.IsCanonical key := by
  obtain ⟨hcheck, params, hparams, hmembers, _⟩ := (h hash _ hd).backs d rfl
  exact ⟨fun sig hsig => ⟨params, hparams, hmembers sig hsig⟩,
    Delegation.isCanonical_undelegationSigners hcheck⟩

/-- The call that brings in a delegation leaves the committees as they are. -/
theorem params_after_of_admits [AddressHost] {e : Event} {hash : TxHash} {d : Delegation}
    (hnone : r.stakes.get? hash = none)
    (hd : (r.after e).stakes.get? hash = some (.active d)) : (r.after e).params = r.params := by
  obtain ⟨sender, w, p, rfl, _⟩ := admits_of_transition (transition_after r e) hnone hd
  exact (transition_after r _).params_eq nofun

/-- A packet is vetted if all that it carries is signed by members. -/
theorem vetted_of_ofWire [AddressHost] {sender : String} {w : Wire.Packet} {p : Packet}
    (hp : Packet.ofWire w = .ok p)
    (h : ∀ d ∈ p.delegations, ∀ key ∈ Delegation.undelegationSigners d,
      r.HasMember d.paramsVersion key) : r.Vetted (.execute sender (.relay w)) := by
  intro hash d hnone hd
  obtain ⟨_, _, p', he, hp', hfind⟩ := admits_of_transition (transition_after r _) hnone hd
  cases he
  obtain rfl := Except.ok.inj (hp.symm.trans hp')
  exact h d (List.mem_of_find?_eq_some hfind)

theorem MembersOnly.vetted [AddressHost] {e : Event} (h : (r.after e).MembersOnly) :
    r.Vetted e := by
  intro hash d hnone hd key hkey
  obtain ⟨params, hparams, hmember⟩ := (h hash d hd).2 key hkey
  rw [params_after_of_admits hnone hd] at hparams
  exact ⟨params, hparams, hmember⟩

end Registry

/-! ## Delegations to try out -/

namespace Sample

/-- The delegation with an undelegation that a key signs on behalf of the committee. -/
def countersigned (signer : String) : Delegation :=
  delegation.withUndelegation ⟨[5], [⟨signer, [8]⟩], [6], [7], [⟨signer, [[8]]⟩]⟩

/-- A packet that brings it in. -/
def countersigning (signer : String) : Wire.Packet where
  registrations := []
  delegations := [{ delegation with undelegation := some {
    unbondingTx := [5]
    memberSignatures := [⟨signer, [8]⟩]
    slashingTx := [6]
    slashingSignature := [7]
    memberSlashingSignatures := [⟨signer, [[8]]⟩]
    delegatorSignature := none } }]
  slashings := []
  unbondings := []

attribute [local instance] Address.Host.rules

/-- The registry after that packet. -/
def countersignedBy (signer : String) : Registry :=
  registry.after (.execute owner (.relay (countersigning signer)))

end Sample

/-! ## Runs -/

namespace Registry

variable {r r' : Registry}

/-- A stored delegation whose call was vetted is signed by members throughout. -/
theorem membersOnly_of_vetted [AddressHost] (hr : r.Reachable) (hempty : r.stakes = .empty)
    {events : List Event}
    (h : ∀ earlier e later, events = earlier ++ e :: later → (r.run earlier).Vetted e) :
    (r.run events).MembersOnly := by
  intro hash d hd
  refine ⟨((hr.run events).sound.signers hd).1, fun key hkey => ?_⟩
  obtain ⟨earlier, sender, w, later, p, rfl, hnone, _, _, hactive⟩ :=
    active_admittedAs hempty events hd
  rw [run_concat] at hactive
  have hmember := h earlier _ later rfl hash d hnone hactive key hkey
  rw [run_append]
  exact hmember.mono (run_extends _ _)

/-- In the active delegations that are stored after a run, the slashing is signed by members of the
committee of the delegation's version, and the undelegation under keys. The undelegation is signed
by members as well, at every moment of the run, exactly if this is so for the delegations that the
calls of the run bring in, when they bring them in. -/
theorem membersOnly_iff_vetted [AddressHost] {sender : String} {hasFunds : Bool} {setup : Setup}
    {reply : Reply}
    (h : empty.perform (setUp sender hasFunds setup) = (.ok reply, r)) (events : List Event) :
    (∀ hash d, (r.run events).stakes.get? hash = some (.active d) →
      (∀ sig ∈ d.memberSignatures, (r.run events).HasMember d.paramsVersion sig.signer) ∧
        ∀ key ∈ Delegation.undelegationSigners d, Key.IsCanonical key) ∧
      ((∀ before later, events = before ++ later → (r.run before).MembersOnly) ↔
        ∀ earlier e later, events = earlier ++ e :: later → (r.run earlier).Vetted e) := by
  have hreachable : r.Reachable := .setUp h
  obtain ⟨_, hempty⟩ := empty_of_setUp h
  refine ⟨fun hash d hd => (hreachable.run events).sound.signers hd, ?_, ?_⟩
  · rintro hall earlier e later rfl
    have hafter := hall (earlier ++ [e]) later (List.append_cons earlier e later)
    rw [run_concat] at hafter
    exact hafter.vetted
  · rintro hvetted before later rfl
    refine membersOnly_of_vetted hreachable hempty fun earlier e rest he => ?_
    subst he
    exact hvetted earlier e (rest ++ later) (by simp)

attribute [local instance] Address.Host.rules

/-- A run of one call, with an undelegation that is signed by a member. -/
theorem membersOnly_iff_vetted_member :
    (Sample.countersignedBy (Sample.key 2)).stakes.get? (Delegation.hash Sample.admitted) =
        some (.active (Sample.countersigned (Sample.key 2))) ∧
      (Sample.countersignedBy (Sample.key 2)).MembersOnly := by
  have hstored : (Sample.countersignedBy (Sample.key 2)).stakes.get?
      (Delegation.hash Sample.admitted) =
        some (.active (Sample.countersigned (Sample.key 2))) := by decide +kernel
  have hread : Packet.ofWire (Sample.countersigning (Sample.key 2)) =
      .ok ⟨[], [Sample.countersigned (Sample.key 2)], [], []⟩ :=
    toOption_eq_some.1 (by decide +kernel)
  have hmembers : ∀ key ∈ Delegation.undelegationSigners (Sample.countersigned (Sample.key 2)),
      key ∈ [Sample.key 1, Sample.key 2] := by decide +kernel
  obtain ⟨_, hiff⟩ := membersOnly_iff_vetted Sample.perform_setUp
    [.execute Sample.owner (.relay (Sample.countersigning (Sample.key 2)))]
  refine ⟨hstored, hiff.2 ?_ [.execute Sample.owner (.relay _)] [] rfl⟩
  intro earlier e later he
  rcases List.append_eq_singleton_iff.1 he.symm with ⟨rfl, he⟩ | ⟨_, he⟩
  · obtain ⟨rfl, rfl⟩ := List.cons.inj he
    refine vetted_of_ofWire hread fun d hd key hkey => ?_
    obtain rfl := List.mem_singleton.1 hd
    exact ⟨⟨[Sample.key 1, Sample.key 2], 1⟩, rfl, hmembers key hkey⟩
  · cases he

/-- An undelegation that is signed by an outsider only: the delegation is stored as active, with a
version whose committee consists of two others. -/
theorem outsider_signs_undelegation :
    (Sample.countersignedBy (Sample.key 9)).Reachable ∧
      (Sample.countersignedBy (Sample.key 9)).stakes.get? (Delegation.hash Sample.admitted) =
        some (.active (Sample.countersigned (Sample.key 9))) ∧
      (Sample.countersignedBy (Sample.key 9)).params.get? 0 =
        some ⟨[Sample.key 1, Sample.key 2], 1⟩ ∧
      (∀ key ∈ Delegation.undelegationSigners (Sample.countersigned (Sample.key 9)),
        key = Sample.key 9) ∧
      ¬ (Sample.countersignedBy (Sample.key 9)).MembersOnly := by
  have hstored : (Sample.countersignedBy (Sample.key 9)).stakes.get?
      (Delegation.hash Sample.admitted) =
        some (.active (Sample.countersigned (Sample.key 9))) := by decide +kernel
  have hsame : (Sample.countersignedBy (Sample.key 9)).params = Sample.registry.params :=
    (transition_after Sample.registry (.execute Sample.owner (.relay _))).params_eq nofun
  have hparams : (Sample.countersignedBy (Sample.key 9)).params.get? 0 =
      some ⟨[Sample.key 1, Sample.key 2], 1⟩ := by
    rw [hsame]
    rfl
  have hsigners : Delegation.undelegationSigners (Sample.countersigned (Sample.key 9)) =
      [Sample.key 9, Sample.key 9] := rfl
  have houtside : Sample.key 9 ∉ [Sample.key 1, Sample.key 2] := by decide +kernel
  refine ⟨Sample.reachable.call _, hstored, hparams, ?_, fun hmembers => houtside ?_⟩
  · rw [hsigners]
    simp
  · obtain ⟨params, hget, hmember⟩ := (hmembers _ _ hstored).2 (Sample.key 9) (by simp [hsigners])
    have hversion : params = ⟨[Sample.key 1, Sample.key 2], 1⟩ :=
      Option.some.inj (hget.symm.trans hparams)
    rw [hversion] at hmember
    exact hmember

end Registry

end Restaking
