import Restaking.Proofs.Conflicts
import Restaking.Proofs.Counts
import Restaking.Proofs.Independence

/-!
# Packets in another order

Putting the entries of a packet in another order, within each of its lists, makes no difference to
what relaying it does (`relay_rearranged`), as long as delegations with the same staking transaction
are the same.

1. A fold comes to the same end in every order if any two of its steps can be exchanged
   (`foldlM_perm`).
2. Entries of one list that name different things are local to these, so they can be exchanged
   (`Local.swaps`). Of two registrations of one provider the second is refused in either order. Two
   notices that name the same stake do the same to it (`swaps_of_names`). Delegations with the same
   hash are the same delegation.
3. The counts in the reply are lengths of lists and the growth of what is stored, so they do not
   depend on the order either.
-/

namespace Restaking

/-! ## Folds in another order -/

section Folds

variable {ε α σ : Type} {step : σ → α → Except ε σ} {l l' : List α} {s t : σ}

/-- If one step succeeds and then the other, so do they in the other order, with the same end. -/
def Swaps (step : σ → α → Except ε σ) (a b : α) : Prop :=
  ∀ s t u, step s a = .ok t → step t b = .ok u → ∃ v, step s b = .ok v ∧ step v a = .ok u

theorem Swaps.refl (step : σ → α → Except ε σ) (a : α) : Swaps step a a :=
  fun _ t _ ht hu => ⟨t, ht, hu⟩

theorem foldlM_of_perm (h : l.Perm l') (hswaps : ∀ a ∈ l, ∀ b ∈ l, Swaps step a b)
    (ht : l.foldlM step s = .ok t) : l'.foldlM step s = .ok t := by
  induction h generalizing s with
  | nil => exact ht
  | cons a _ ih =>
    obtain ⟨u, hu, ht⟩ := foldlM_cons_eq_ok.1 ht
    have hrest := ih (fun b hb c hc => hswaps b (.tail a hb) c (.tail a hc)) ht
    exact foldlM_cons_eq_ok.2 ⟨u, hu, hrest⟩
  | swap a b rest =>
    obtain ⟨u, hu, ht⟩ := foldlM_cons_eq_ok.1 ht
    obtain ⟨v, hv, ht⟩ := foldlM_cons_eq_ok.1 ht
    obtain ⟨u', hu', hv'⟩ := hswaps b (.head _) a (.tail b (.head _)) s u v hu hv
    exact foldlM_cons_eq_ok.2 ⟨u', hu', foldlM_cons_eq_ok.2 ⟨v, hv', ht⟩⟩
  | trans hfirst _ ih ih' =>
    refine ih' (fun a ha b hb => ?_) (ih hswaps ht)
    exact hswaps a (hfirst.mem_iff.2 ha) b (hfirst.mem_iff.2 hb)

/-- A fold whose steps can be exchanged comes to the same end in every order. -/
theorem foldlM_perm (h : l.Perm l') (hswaps : ∀ a ∈ l, ∀ b ∈ l, Swaps step a b) :
    l.foldlM step s = .ok t ↔ l'.foldlM step s = .ok t := by
  refine ⟨foldlM_of_perm h hswaps, foldlM_of_perm h.symm fun a ha b hb => ?_⟩
  exact hswaps a (h.mem_iff.2 ha) b (h.mem_iff.2 hb)

end Folds

/-! ## Rearranged packets -/

namespace Wire.Packet

/-- The lists of the second packet are those of the first, each in another order. -/
structure Rearranges (w w' : Packet) : Prop where
  registrations : w.registrations.Perm w'.registrations
  delegations : w.delegations.Perm w'.delegations
  slashings : w.slashings.Perm w'.slashings
  unbondings : w.unbondings.Perm w'.unbondings

theorem Rearranges.symm {w w' : Packet} (h : w.Rearranges w') : w'.Rearranges w where
  registrations := h.registrations.symm
  delegations := h.delegations.symm
  slashings := h.slashings.symm
  unbondings := h.unbondings.symm

/-- Two different staking transactions in the packet have one hash. -/
def HasCollision (w : Packet) : Prop :=
  ∃ d ∈ w.delegations, ∃ d' ∈ w.delegations,
    d.stakingTx ≠ d'.stakingTx ∧ TxHash.ofTx d.stakingTx = TxHash.ofTx d'.stakingTx

instance (w : Packet) : Decidable w.HasCollision :=
  inferInstanceAs (Decidable (∃ d ∈ w.delegations, ∃ d' ∈ w.delegations, _ ∧ _))

/-- The delegations of the packet are told apart by the hashes of their staking transactions. -/
def ToldByHash (w : Packet) : Prop :=
  ∀ d ∈ w.delegations, ∀ d' ∈ w.delegations,
    TxHash.ofTx d.stakingTx = TxHash.ofTx d'.stakingTx → d = d'

theorem toldByHash_of_not_hasCollision {w : Packet} (h : ¬ w.HasCollision)
    (hsame : ∀ d ∈ w.delegations, ∀ d' ∈ w.delegations, d.stakingTx = d'.stakingTx → d = d') :
    w.ToldByHash := by
  intro d hd d' hd' hhash
  by_contra hne
  have htx : d.stakingTx ≠ d'.stakingTx := fun e => hne (hsame d hd d' hd' e)
  exact h ⟨d, hd, d', hd', htx, hhash⟩

theorem Rearranges.toldByHash {w w' : Packet} (h : w.Rearranges w') (hw : w.ToldByHash) :
    w'.ToldByHash :=
  fun d hd d' hd' => hw d (h.delegations.mem_iff.2 hd) d' (h.delegations.mem_iff.2 hd')

end Wire.Packet

namespace Registry

variable {r r' : Registry}

/-! ## Entries that are exchanged -/

/-- Steps that are local to different things can be exchanged. -/
theorem Local.swaps {α : Type} {step : Registry → α → Except RegistryError Registry}
    {ids ids' : Set ProviderId} {hashes hashes' : Set TxHash} {a b : α}
    (ha : Local ids hashes fun r => step r a) (hb : Local ids' hashes' fun r => step r b)
    (hids : Disjoint ids ids') (hhashes : Disjoint hashes hashes') : Swaps step a b :=
  fun _ _ _ ht hu => ha.comm hb hids hhashes ht hu

theorem enterRegistration_swaps (reg reg' : Registration) :
    Swaps enterRegistration reg reg' := by
  by_cases hid : reg.id = reg'.id
  · -- the second of the two finds the provider registered
    intro r s t hs ht
    obtain ⟨q, hq, hregister⟩ := enterRegistration_eq_ok.1 hs
    obtain ⟨q', hq', hregister'⟩ := enterRegistration_eq_ok.1 ht
    have hsame : q'.id = q.id := by
      rw [Provider.id_of_ofRegistration hq, Provider.id_of_ofRegistration hq', hid]
    have hnew := (register_eq_ok.1 hregister').2.1
    rw [hsame, get?_of_register hregister] at hnew
    cases hnew
  · refine (enterRegistration_local reg).swaps (enterRegistration_local reg') ?_ ?_
    · exact Set.disjoint_singleton.2 hid
    · exact Set.disjoint_empty ∅

theorem enterDelegation_swaps {w w' : Wire.Delegation}
    (h : TxHash.ofTx w.stakingTx = TxHash.ofTx w'.stakingTx → w = w') :
    Swaps enterDelegation w w' := by
  by_cases hhash : TxHash.ofTx w.stakingTx = TxHash.ofTx w'.stakingTx
  · obtain rfl := h hhash
    exact Swaps.refl enterDelegation w
  · refine (enterDelegation_local w).swaps (enterDelegation_local w') ?_ ?_
    · exact Set.disjoint_empty ∅
    · exact Set.disjoint_singleton.2 hhash

/-- Steps that change the stake that their entries name, all in the same way, can be exchanged, if
no entry is refused for what is stored. -/
theorem swaps_of_names {α : Type} {step : Registry → α → Except RegistryError Registry}
    (text : α → String) (holds : α → Stake → Prop) (mark : Stake → Stake)
    (hopen : ∀ r a r', step r a = .ok r' ↔ ∃ hash stake, Names (text a) hash ∧
      r.stakes.get? hash = some stake ∧ holds a stake ∧ r' = r.putStake hash (mark stake))
    (hholds : ∀ a stake stake', holds a stake → holds a stake') (a b : α) : Swaps step a b := by
  by_cases hnamed : ∃ hash, Names (text a) hash ∧ Names (text b) hash
  · obtain ⟨hash, ha, hb⟩ := hnamed
    intro r s t hs ht
    obtain ⟨hash₁, stake, hnames₁, hstake, hpass, rfl⟩ := (hopen r a s).1 hs
    obtain ⟨hash₂, stake', hnames₂, hstake', hpass', rfl⟩ := (hopen _ b t).1 ht
    obtain rfl := hnames₁.unique ha
    obtain rfl := hnames₂.unique hb
    -- the first step has the same result for either entry, and so has the second
    refine ⟨_, (hopen _ _ _).2 ⟨hash₂, stake, hb, hstake, ?_, rfl⟩,
      (hopen _ _ _).2 ⟨hash₂, stake', ha, hstake', ?_, rfl⟩⟩
    · exact hholds b stake' stake hpass'
    · exact hholds a stake stake' hpass
  · have hlocal (a : α) : Local ∅ {hash | Names (text a) hash} fun r => step r a :=
      local_of_putStake (holds a) mark fun r r' => hopen r a r'
    refine (hlocal a).swaps (hlocal b) (Set.disjoint_empty ∅) ?_
    rw [Set.disjoint_left]
    exact fun hash ha hb => hnamed ⟨hash, ha, hb⟩

theorem enterSlashing_swaps (n n' : SlashNotice) : Swaps enterSlashing n n' :=
  swaps_of_names SlashNotice.stakingTx (fun n _ => n.check = .ok ()) Stake.slash
    (fun _ _ _ => enterSlashing_eq_ok) (fun _ _ _ => id) n n'

theorem enterUnbonding_swaps (n n' : UnbondNotice) : Swaps enterUnbonding n n' := by
  refine swaps_of_names UnbondNotice.stakingTx
    (fun n stake => n.check = .ok () ∧ (stake.isActive = true → n.signature ≠ [])) Stake.unbond
    (fun _ _ _ => enterUnbonding_eq_ok) (fun n _ _ h => ⟨h.1, fun _ => ?_⟩) n n'
  -- a notice that passes its check has a signature, whatever stake it is about
  exact (UnbondNotice.check_eq_ok.1 h.1).2

/-! ## Rearranged packets -/

theorem enter_rearranged {w w' : Wire.Packet} (h : w.Rearranges w') (hw : w.ToldByHash) :
    r.enter w = .ok r' ↔ r.enter w' = .ok r' := by
  have hregistrations : ∀ {s t}, w.registrations.foldlM enterRegistration s = .ok t ↔
      w'.registrations.foldlM enterRegistration s = .ok t :=
    foldlM_perm h.registrations fun reg _ reg' _ => enterRegistration_swaps reg reg'
  have hdelegations : ∀ {s t}, w.delegations.foldlM enterDelegation s = .ok t ↔
      w'.delegations.foldlM enterDelegation s = .ok t :=
    foldlM_perm h.delegations fun d hd d' hd' => enterDelegation_swaps (hw d hd d' hd')
  have hslashings : ∀ {s t}, w.slashings.foldlM enterSlashing s = .ok t ↔
      w'.slashings.foldlM enterSlashing s = .ok t :=
    foldlM_perm h.slashings fun n _ n' _ => enterSlashing_swaps n n'
  have hunbondings : ∀ {s t}, w.unbondings.foldlM enterUnbonding s = .ok t ↔
      w'.unbondings.foldlM enterUnbonding s = .ok t :=
    foldlM_perm h.unbondings fun n _ n' _ => enterUnbonding_swaps n n'
  simp only [enter_eq_ok, hregistrations, hdelegations, hslashings, hunbondings]

/-- Packets in different orders have the same reply if they have the same effect. -/
theorem relayReply_eq {w w' : Wire.Packet} {p p' : Packet} {count count' : Nat}
    (h : w.Rearranges w') (hp : Packet.ofWire w = .ok p) (hp' : Packet.ofWire w' = .ok p')
    (happly : r.apply p = .ok (count, r')) (happly' : r.apply p' = .ok (count', r')) :
    relayReply p count = relayReply p' count' := by
  have hcount : count = count' := by
    have hsize := size_stakes_apply happly
    rw [size_stakes_apply happly'] at hsize
    exact (Nat.add_left_cancel hsize).symm
  obtain ⟨⟨hregs, _⟩, _, ⟨_, hs⟩, _, hu⟩ := Packet.ofWire_eq_ok.1 hp
  obtain ⟨⟨hregs', _⟩, _, ⟨_, hs'⟩, _, hu'⟩ := Packet.ofWire_eq_ok.1 hp'
  have hproviders : p.providers.length = p'.providers.length := by
    rw [length_traverse hregs, length_traverse hregs', h.registrations.length_eq]
  unfold relayReply
  rw [hproviders, hcount, hs, hs', hu, hu', h.slashings.length_eq, h.unbondings.length_eq]

theorem relay_of_rearranged [AddressHost] {w w' : Wire.Packet} (h : w.Rearranges w')
    (hw : w.ToldByHash) {sender : String} {reply : Reply}
    (hrelay : r.perform (execute sender (.relay w)) = (.ok reply, r')) :
    r.perform (execute sender (.relay w')) = (.ok reply, r') := by
  obtain ⟨hsender, p, count, hp, happly, rfl⟩ := (perform_relay_eq_ok r).1 hrelay
  have henter : r.enter w' = .ok r' :=
    (enter_rearranged h hw).1 (enter_eq_ok_iff_apply.2 ⟨p, count, hp, happly⟩)
  obtain ⟨p', count', hp', happly'⟩ := enter_eq_ok_iff_apply.1 henter
  exact (perform_relay_eq_ok r).2
    ⟨hsender, p', count', hp', happly', (relayReply_eq h hp hp' happly happly').symm⟩

/-- Let two packets have the same entries, but in different orders within their lists, and let
delegations with the same staking transaction be the same. Whatever is stored and whoever relays
them, one of the packets is relayed with success if and only if the other is, and then the same is
stored and the same is replied, all counts included. A staking transaction is known by its hash, so
this stands under the reservation that the packet does not exhibit two staking transactions with one
hash. -/
theorem relay_rearranged [AddressHost] {w w' : Wire.Packet} (h : w.Rearranges w')
    (hsame : ∀ d ∈ w.delegations, ∀ d' ∈ w.delegations, d.stakingTx = d'.stakingTx → d = d') :
    w.HasCollision ∨ ∀ (r r' : Registry) (sender : String) (reply : Reply),
      r.perform (execute sender (.relay w)) = (.ok reply, r') ↔
        r.perform (execute sender (.relay w')) = (.ok reply, r') := by
  by_cases hcollision : w.HasCollision
  · exact .inl hcollision
  · have hw : w.ToldByHash :=
      Wire.Packet.toldByHash_of_not_hasCollision hcollision hsame
    exact .inr fun r r' sender reply =>
      ⟨relay_of_rearranged h hw, relay_of_rearranged h.symm (h.toldByHash hw)⟩

end Registry

/-! ## A packet and its reverse -/

namespace Sample

/-- A packet with two providers, with two delegations of which one comes twice, and with notices for
both, two of them for the same one. -/
def mixedPacket : Wire.Packet where
  registrations := [registration, { registration with key := key 7 }]
  delegations := [delegation, { delegation with stakingTx := [2] }, delegation]
  slashings := [⟨uppercaseHash, "01"⟩, ⟨lowercaseHash, "02"⟩]
  unbondings := [⟨lowercaseHash, [8]⟩, ⟨otherHash, [9]⟩]

/-- The packet with each of its lists in reverse. -/
def reversedPacket : Wire.Packet where
  registrations := mixedPacket.registrations.reverse
  delegations := mixedPacket.delegations.reverse
  slashings := mixedPacket.slashings.reverse
  unbondings := mixedPacket.unbondings.reverse

end Sample

namespace Registry

attribute [local instance] Address.Host.rules

theorem relay_rearranged_reversedPacket :
    Sample.mixedPacket.Rearranges Sample.reversedPacket ∧
      (∀ d ∈ Sample.mixedPacket.delegations, ∀ d' ∈ Sample.mixedPacket.delegations,
        d.stakingTx = d'.stakingTx → d = d') ∧
      ¬ Sample.mixedPacket.HasCollision ∧
      ∃ reply r', Sample.registry.perform (execute Sample.owner (.relay Sample.mixedPacket)) =
          (.ok reply, r') ∧
        Sample.registry.perform (execute Sample.owner (.relay Sample.reversedPacket)) =
          (.ok reply, r') := by
  have h : Sample.mixedPacket.Rearranges Sample.reversedPacket :=
    ⟨(List.reverse_perm _).symm, (List.reverse_perm _).symm, (List.reverse_perm _).symm,
      (List.reverse_perm _).symm⟩
  have hsame : ∀ d ∈ Sample.mixedPacket.delegations, ∀ d' ∈ Sample.mixedPacket.delegations,
      d.stakingTx = d'.stakingTx → d = d' := by decide +kernel
  have hcollision : ¬ Sample.mixedPacket.HasCollision := by decide +kernel
  have hsucceeds : (Sample.registry.perform (execute Sample.owner
      (.relay Sample.mixedPacket))).1.toOption.isSome = true := by decide +kernel
  obtain ⟨reply, hreply⟩ := Option.isSome_iff_exists.1 hsucceeds
  have hrelay := perform_eq_of_toOption hreply
  have hiff := (relay_rearranged h hsame).resolve_left hcollision
  exact ⟨h, hsame, hcollision, reply, _, hrelay, (hiff _ _ _ _).1 hrelay⟩

end Registry

end Restaking
