import Restaking.Proofs.Batches
import Restaking.Proofs.Spellings
import Mathlib.Data.Set.Lattice
import Mathlib.Order.CompletePartialOrder

/-!
# Packets that have nothing in common

Two packets that name different providers and different staking transactions can be relayed in
either order: both calls succeed in one order if and only if they do in the other, and then the same
is stored (`relayed_comm`).

1. Registries are compared on a set of provider ids and a set of hashes, the rest being the settings
   (`AgreesOn`).
2. A step is local to such sets if it leaves everything else as it was, and succeeds in the same way
   in registries that agree on them (`Local`). Local steps can be made one after the other
   (`Local.foldlM`), and if their sets are disjoint they commute (`Local.comm`).
3. Each entry of a packet is local to the id or the hash that it names, and so a packet is local to
   all that its entries name (`relayed_local`).
-/

namespace Restaking

namespace Wire.Packet

/-- The ids of the providers that a packet registers. -/
def ids (w : Packet) : Set ProviderId := {id | ∃ reg ∈ w.registrations, reg.id = id}

/-- The hashes of the staking transactions that the delegations, slashings and unbondings of a
packet are about. -/
def hashes (w : Packet) : Set TxHash :=
  {hash | (∃ d ∈ w.delegations, TxHash.ofTx d.stakingTx = hash) ∨
    (∃ n ∈ w.slashings, Names n.stakingTx hash) ∨ ∃ n ∈ w.unbondings, Names n.stakingTx hash}

end Wire.Packet

namespace Registry

variable {ids ids₂ : Set ProviderId} {hashes hashes₂ : Set TxHash} {r r' s s' t : Registry}

/-! ## Registries that agree -/

/-- Two registries have the same settings, the same providers under the given ids and the same
stakes under the given hashes. -/
structure AgreesOn (ids : Set ProviderId) (hashes : Set TxHash) (r r' : Registry) : Prop where
  settings : r.SameSettings r'
  providers : ∀ id ∈ ids, r'.providers.get? id = r.providers.get? id
  stakes : ∀ hash ∈ hashes, r'.stakes.get? hash = r.stakes.get? hash

namespace AgreesOn

theorem refl (r : Registry) : r.AgreesOn ids hashes r := ⟨rfl, fun _ _ => rfl, fun _ _ => rfl⟩

theorem symm (h : r.AgreesOn ids hashes s) : s.AgreesOn ids hashes r where
  settings := h.settings.symm
  providers id hid := (h.providers id hid).symm
  stakes hash hhash := (h.stakes hash hhash).symm

theorem trans (h : r.AgreesOn ids hashes s) (h' : s.AgreesOn ids hashes t) :
    r.AgreesOn ids hashes t where
  settings := h.settings.trans h'.settings
  providers id hid := (h'.providers id hid).trans (h.providers id hid)
  stakes hash hhash := (h'.stakes hash hhash).trans (h.stakes hash hhash)

theorem mono (h : r.AgreesOn ids₂ hashes₂ s) (hids : ids ⊆ ids₂) (hhashes : hashes ⊆ hashes₂) :
    r.AgreesOn ids hashes s where
  settings := h.settings
  providers id hid := h.providers id (hids hid)
  stakes hash hhash := h.stakes hash (hhashes hhash)

/-- Agreement on two pairs of sets is agreement on what they make up together. -/
theorem union (h : r.AgreesOn ids hashes s) (h' : r.AgreesOn ids₂ hashes₂ s) :
    r.AgreesOn (ids ∪ ids₂) (hashes ∪ hashes₂) s where
  settings := h.settings
  providers id hid := hid.elim (h.providers id) (h'.providers id)
  stakes hash hhash := hhash.elim (h.stakes hash) (h'.stakes hash)

/-- Registries that agree on everything are the same. -/
theorem eq (h : r.AgreesOn Set.univ Set.univ s) : s = r := by
  have hproviders : s.providers = r.providers :=
    Table.ext_get? fun id => h.providers id (Set.mem_univ id)
  have hstakes : s.stakes = r.stakes := Table.ext_get? fun hash => h.stakes hash (Set.mem_univ hash)
  have hsettings := h.settings
  unfold SameSettings at hsettings
  rw [hsettings, hproviders, hstakes]

theorem examine_eq (h : r.AgreesOn ids hashes s) (d : Delegation) : s.examine d = r.examine d := by
  unfold examine paramsOf
  rw [h.settings.params_eq]

/-! ### Writes -/

theorem putProvider (h : r.AgreesOn ids hashes s) (q : Provider) :
    (r.putProvider q).AgreesOn ids hashes (s.putProvider q) where
  settings := by
    have hr : r.SameSettings (r.putProvider q) := rfl
    have hs : s.SameSettings (s.putProvider q) := rfl
    exact (hr.symm.trans h.settings).trans hs
  providers id hid := by rw [get?_putProvider, get?_putProvider, h.providers id hid]
  stakes := h.stakes

theorem putStake (h : r.AgreesOn ids hashes s) (hash : TxHash) (stake : Stake) :
    (r.putStake hash stake).AgreesOn ids hashes (s.putStake hash stake) where
  settings := by
    have hr : r.SameSettings (r.putStake hash stake) := rfl
    have hs : s.SameSettings (s.putStake hash stake) := rfl
    exact (hr.symm.trans h.settings).trans hs
  providers := h.providers
  stakes j hj := by rw [get?_putStake, get?_putStake, h.stakes j hj]

/-- Writing a provider changes nothing but what lies under its id. -/
theorem of_putProvider {q : Provider} (hq : q.id ∈ ids) :
    r.AgreesOn idsᶜ hashes (r.putProvider q) where
  settings := rfl
  providers id hid := by
    have hne : id ≠ q.id := fun e => hid (e ▸ hq)
    rw [get?_putProvider, if_neg hne]
  stakes _ _ := rfl

/-- Writing a stake changes nothing but what lies under its hash. -/
theorem of_putStake {hash : TxHash} (hhash : hash ∈ hashes) (stake : Stake) :
    r.AgreesOn ids hashesᶜ (r.putStake hash stake) where
  settings := rfl
  providers _ _ := rfl
  stakes j hj := by
    have hne : j ≠ hash := fun e => hj (e ▸ hhash)
    rw [get?_putStake, if_neg hne]

end AgreesOn

/-! ## Local steps -/

/-- A step that reads and writes no providers and stakes but those under some ids and hashes. -/
structure Local (ids : Set ProviderId) (hashes : Set TxHash)
    (step : Registry → Except RegistryError Registry) : Prop where
  /-- Everything else stays as it was. -/
  frame {r r' : Registry} : step r = .ok r' → r.AgreesOn idsᶜ hashesᶜ r'
  /-- Where the same is found, the same is done. -/
  transfer {r s r' : Registry} : r.AgreesOn ids hashes s → step r = .ok r' →
    ∃ s', step s = .ok s' ∧ r'.AgreesOn ids hashes s'

namespace Local

variable {step step' : Registry → Except RegistryError Registry}

theorem congr (h : Local ids hashes step) (heq : ∀ r r', step' r = .ok r' ↔ step r = .ok r') :
    Local ids hashes step' where
  frame hr := h.frame ((heq _ _).1 hr)
  transfer hagree hr := by
    obtain ⟨s', hs, hagree'⟩ := h.transfer hagree ((heq _ _).1 hr)
    exact ⟨s', (heq _ _).2 hs, hagree'⟩

theorem mono (h : Local ids hashes step) (hids : ids ⊆ ids₂) (hhashes : hashes ⊆ hashes₂) :
    Local ids₂ hashes₂ step where
  frame hr := (h.frame hr).mono (Set.compl_subset_compl.2 hids) (Set.compl_subset_compl.2 hhashes)
  transfer {r s r'} hagree hr := by
    obtain ⟨s', hs, hagree'⟩ := h.transfer (hagree.mono hids hhashes) hr
    refine ⟨s', hs, ?_⟩
    -- outside the smaller sets both registries are what they were
    have helsewhere : r'.AgreesOn (ids₂ \ ids) (hashes₂ \ hashes) s' := by
      have hids₂ : ids₂ \ ids ⊆ idsᶜ := Set.sdiff_subset_compl ids₂ ids
      have hhashes₂ : hashes₂ \ hashes ⊆ hashesᶜ := Set.sdiff_subset_compl hashes₂ hashes
      have hbetween := hagree.mono (Set.sdiff_subset : ids₂ \ ids ⊆ ids₂)
        (Set.sdiff_subset : hashes₂ \ hashes ⊆ hashes₂)
      exact (((h.frame hr).mono hids₂ hhashes₂).symm.trans hbetween).trans
        ((h.frame hs).mono hids₂ hhashes₂)
    have hall := hagree'.union helsewhere
    rw [Set.union_sdiff_self, Set.union_sdiff_self] at hall
    exact hall.mono Set.subset_union_right Set.subset_union_right

theorem foldlM {α : Type} {step : Registry → α → Except RegistryError Registry} {l : List α}
    (h : ∀ a ∈ l, Local ids hashes fun r => step r a) :
    Local ids hashes fun r => l.foldlM step r := by
  induction l with
  | nil =>
    refine ⟨fun hr => ?_, fun hagree hr => ?_⟩
    · obtain rfl := Except.ok.inj hr
      exact .refl _
    · obtain rfl := Except.ok.inj hr
      exact ⟨_, rfl, hagree⟩
  | cons a rest ih =>
    obtain ⟨hfirst, hrest⟩ := List.forall_mem_cons.1 h
    refine ⟨fun hr => ?_, fun hagree hr => ?_⟩
    · obtain ⟨u, hu, hr⟩ := foldlM_cons_eq_ok.1 hr
      exact (hfirst.frame hu).trans ((ih hrest).frame hr)
    · obtain ⟨u, hu, hr⟩ := foldlM_cons_eq_ok.1 hr
      obtain ⟨v, hv, hagree⟩ := hfirst.transfer hagree hu
      obtain ⟨s', hs, hagree⟩ := (ih hrest).transfer hagree hr
      exact ⟨s', foldlM_cons_eq_ok.2 ⟨v, hv, hs⟩, hagree⟩

/-- Steps that are local to disjoint sets can be made in the other order. -/
theorem comm (h : Local ids hashes step) (h' : Local ids₂ hashes₂ step') (hids : Disjoint ids ids₂)
    (hhashes : Disjoint hashes hashes₂) (hs : step r = .ok s) (ht : step' s = .ok t) :
    ∃ s', step' r = .ok s' ∧ step s' = .ok t := by
  have hrs := h.frame hs
  have hst := h'.frame ht
  -- the first step has not touched what the second one looks at, and the other way round
  obtain ⟨s', hs', hagree'⟩ := h'.transfer
    (hrs.symm.mono hids.subset_compl_left hhashes.subset_compl_left) ht
  have hrs' := h'.frame hs'
  obtain ⟨t', ht', hagree⟩ := h.transfer
    (hrs'.mono hids.subset_compl_right hhashes.subset_compl_right) hs
  have hst' := h.frame ht'
  -- each step has made the same of its own part in both orders, and neither has made anything of
  -- the rest
  have hfirst : t.AgreesOn ids hashes t' :=
    (hst.mono hids.subset_compl_right hhashes.subset_compl_right).symm.trans hagree
  have hsecond : t.AgreesOn ids₂ hashes₂ t' :=
    hagree'.trans (hst'.mono hids.subset_compl_left hhashes.subset_compl_left)
  have hrest : t.AgreesOn (ids ∪ ids₂)ᶜ (hashes ∪ hashes₂)ᶜ t' := by
    rw [Set.compl_union, Set.compl_union]
    have hrt := (hrs.mono Set.inter_subset_left Set.inter_subset_left).trans
      (hst.mono Set.inter_subset_right Set.inter_subset_right)
    have hrt' := (hrs'.mono Set.inter_subset_right Set.inter_subset_right).trans
      (hst'.mono Set.inter_subset_left Set.inter_subset_left)
    exact hrt.symm.trans hrt'
  have hall := (hfirst.union hsecond).union hrest
  rw [Set.union_compl_self, Set.union_compl_self] at hall
  exact ⟨s', hs', hall.eq ▸ ht'⟩

end Local

/-! ## Entries -/

theorem enterRegistration_eq_ok {reg : Registration} :
    r.enterRegistration reg = .ok r' ↔
      ∃ q, Provider.ofRegistration reg = .ok q ∧ r.register q = .ok r' := by
  unfold enterRegistration
  rw [bind_eq_ok]
  simp only [mapError_eq_ok]

theorem enterRegistration_local (reg : Registration) :
    Local {reg.id} ∅ fun r => r.enterRegistration reg := by
  constructor
  · intro r r' h
    obtain ⟨q, hq, hregister⟩ := enterRegistration_eq_ok.1 h
    obtain ⟨_, _, rfl⟩ := register_eq_ok.1 hregister
    exact .of_putProvider (Provider.id_of_ofRegistration hq)
  · intro r s r' hagree h
    obtain ⟨q, hq, hregister⟩ := enterRegistration_eq_ok.1 h
    obtain ⟨hcheck, hnew, rfl⟩ := register_eq_ok.1 hregister
    rw [← hagree.providers q.id (Provider.id_of_ofRegistration hq)] at hnew
    exact ⟨s.putProvider q,
      enterRegistration_eq_ok.2 ⟨q, hq, register_eq_ok.2 ⟨hcheck, hnew, rfl⟩⟩,
      hagree.putProvider q⟩

theorem enterDelegation_eq_ok {w : Wire.Delegation} :
    r.enterDelegation w = .ok r' ↔ ∃ d, Delegation.ofWire w = .ok d ∧ r.enroll d = .ok r' := by
  unfold enterDelegation
  rw [bind_eq_ok]
  simp only [mapError_eq_ok]

theorem enterDelegation_local (w : Wire.Delegation) :
    Local ∅ {TxHash.ofTx w.stakingTx} fun r => r.enterDelegation w := by
  have hhash : ∀ {d}, Delegation.ofWire w = .ok d →
      Delegation.hash d ∈ ({TxHash.ofTx w.stakingTx} : Set TxHash) := by
    intro d hd
    obtain ⟨_, rfl⟩ := Delegation.ofWire_eq_ok.1 hd
    rfl
  constructor
  · intro r r' h
    obtain ⟨d, hd, henroll⟩ := enterDelegation_eq_ok.1 h
    rcases enroll_eq_ok.1 henroll with ⟨_, _, _, rfl⟩ | ⟨_, stake, _, rfl⟩
    · exact .refl r'
    · exact .of_putStake (hhash hd) stake
  · intro r s r' hagree h
    obtain ⟨d, hd, henroll⟩ := enterDelegation_eq_ok.1 h
    have hsame := hagree.stakes _ (hhash hd)
    rcases enroll_eq_ok.1 henroll with ⟨stake, hstake, hdelegator, rfl⟩ | ⟨hnew, stake, hs, rfl⟩
    · have henroll' := enroll_eq_ok.2 (.inl ⟨stake, hsame.trans hstake, hdelegator, rfl⟩)
      exact ⟨s, enterDelegation_eq_ok.2 ⟨d, hd, henroll'⟩, hagree⟩
    · rw [← hagree.examine_eq d] at hs
      have henroll' := enroll_eq_ok.2 (.inr ⟨hsame.trans hnew, stake, hs, rfl⟩)
      exact ⟨_, enterDelegation_eq_ok.2 ⟨d, hd, henroll'⟩, hagree.putStake _ stake⟩

/-- A step that changes the stake that a text names is local to its hash. -/
theorem local_of_putStake {step : Registry → Except RegistryError Registry} {text : String}
    (holds : Stake → Prop) (mark : Stake → Stake)
    (hopen : ∀ r r', step r = .ok r' ↔ ∃ hash stake, Names text hash ∧
      r.stakes.get? hash = some stake ∧ holds stake ∧ r' = r.putStake hash (mark stake)) :
    Local ∅ {hash | Names text hash} step := by
  constructor
  · intro r r' h
    obtain ⟨hash, stake, hnames, _, _, rfl⟩ := (hopen r r').1 h
    exact .of_putStake hnames (mark stake)
  · intro r s r' hagree h
    obtain ⟨hash, stake, hnames, hstake, hholds, rfl⟩ := (hopen r r').1 h
    refine ⟨s.putStake hash (mark stake), (hopen _ _).2 ⟨hash, stake, hnames, ?_, hholds, rfl⟩,
      hagree.putStake hash (mark stake)⟩
    rw [hagree.stakes hash hnames, hstake]

theorem enterSlashing_eq_ok {n : SlashNotice} :
    r.enterSlashing n = .ok r' ↔ ∃ hash stake, Names n.stakingTx hash ∧
      r.stakes.get? hash = some stake ∧ n.check = .ok () ∧ r' = r.putStake hash stake.slash := by
  unfold enterSlashing
  rw [check_bind_eq_ok, mapError_eq_ok, slash_eq_ok]
  constructor
  · rintro ⟨hcheck, hash, stake, hnames, hstake, rfl⟩
    exact ⟨hash, stake, hnames, hstake, hcheck, rfl⟩
  · rintro ⟨hash, stake, hnames, hstake, hcheck, rfl⟩
    exact ⟨hcheck, hash, stake, hnames, hstake, rfl⟩

theorem enterSlashing_local (n : SlashNotice) :
    Local ∅ {hash | Names n.stakingTx hash} fun r => r.enterSlashing n :=
  local_of_putStake (fun _ => n.check = .ok ()) Stake.slash fun _ _ => enterSlashing_eq_ok

theorem enterUnbonding_eq_ok {n : UnbondNotice} :
    r.enterUnbonding n = .ok r' ↔ ∃ hash stake, Names n.stakingTx hash ∧
      r.stakes.get? hash = some stake ∧
      (n.check = .ok () ∧ (stake.isActive = true → n.signature ≠ [])) ∧
      r' = r.putStake hash stake.unbond := by
  unfold enterUnbonding
  rw [check_bind_eq_ok, mapError_eq_ok, unbond_eq_ok]
  constructor
  · rintro ⟨hcheck, hash, stake, hnames, hstake, hsignature, rfl⟩
    exact ⟨hash, stake, hnames, hstake, ⟨hcheck, hsignature⟩, rfl⟩
  · rintro ⟨hash, stake, hnames, hstake, ⟨hcheck, hsignature⟩, rfl⟩
    exact ⟨hcheck, hash, stake, hnames, hstake, hsignature, rfl⟩

theorem enterUnbonding_local (n : UnbondNotice) :
    Local ∅ {hash | Names n.stakingTx hash} fun r => r.enterUnbonding n :=
  local_of_putStake
    (fun stake => n.check = .ok () ∧ (stake.isActive = true → n.signature ≠ [])) Stake.unbond
    fun _ _ => enterUnbonding_eq_ok

/-! ## Packets -/

open Wire.Packet

theorem enter_local (w : Wire.Packet) : Local w.ids w.hashes fun r => r.enter w := by
  have hentries : ∀ e ∈ w.entries, Local w.ids w.hashes fun r => r.enter e := by
    intro e he
    unfold entries at he
    simp only [List.mem_append, List.mem_map] at he
    rcases he with ((⟨reg, hreg, rfl⟩ | ⟨d, hd, rfl⟩) | ⟨n, hn, rfl⟩) | ⟨n, hn, rfl⟩
    · refine ((enterRegistration_local reg).congr fun _ _ => enter_ofRegistration).mono ?_ ?_
      · exact Set.singleton_subset_iff.2 ⟨reg, hreg, rfl⟩
      · exact Set.empty_subset _
    · refine ((enterDelegation_local d).congr fun _ _ => enter_ofDelegation).mono ?_ ?_
      · exact Set.empty_subset _
      · exact Set.singleton_subset_iff.2 (.inl ⟨d, hd, rfl⟩)
    · refine ((enterSlashing_local n).congr fun _ _ => enter_ofSlashing).mono ?_ ?_
      · exact Set.empty_subset _
      · exact fun hash hnames => .inr (.inl ⟨n, hn, hnames⟩)
    · refine ((enterUnbonding_local n).congr fun _ _ => enter_ofUnbonding).mono ?_ ?_
      · exact Set.empty_subset _
      · exact fun hash hnames => .inr (.inr ⟨n, hn, hnames⟩)
  exact (Local.foldlM hentries).congr fun _ _ => enter_eq_ok_iff_entries

theorem relayed_local [AddressHost] (sender : String) (w : Wire.Packet) :
    Local w.ids w.hashes fun r => relayed sender r w := by
  constructor
  · intro r r' h
    exact (enter_local w).frame (relayed_eq_ok.1 h).2
  · intro r s r' hagree h
    obtain ⟨hsender, henter⟩ := relayed_eq_ok.1 h
    obtain ⟨s', hs, hagree'⟩ := (enter_local w).transfer hagree henter
    exact ⟨s', relayed_eq_ok.2 ⟨hagree.settings.mayRelay hsender, hs⟩, hagree'⟩

/-- Two packets that name no provider and no staking transaction in common can be relayed in either
order, each by a sender of its own. Both calls succeed in one order if and only if they do in the
other, and then the same is stored in the end. -/
theorem relayed_comm [AddressHost] {v w : Wire.Packet} (hids : Disjoint v.ids w.ids)
    (hhashes : Disjoint v.hashes w.hashes) (r t : Registry) (sender sender' : String) :
    (relayed sender r v >>= fun s => relayed sender' s w) = .ok t ↔
      (relayed sender' r w >>= fun s => relayed sender s v) = .ok t := by
  rw [bind_eq_ok, bind_eq_ok]
  constructor
  · rintro ⟨s, hs, ht⟩
    exact (relayed_local sender v).comm (relayed_local sender' w) hids hhashes hs ht
  · rintro ⟨s, hs, ht⟩
    exact (relayed_local sender' w).comm (relayed_local sender v) hids.symm hhashes.symm hs ht

end Registry

/-! ## Two such packets -/

namespace Sample

/-- The hash of another staking transaction. -/
def otherHash : String := "babb95b7a797b2e17dbc71c7b49dce0c15687d7704c03a4394fdeb40eaadc31c"

/-- A packet with another provider and another delegation, which it slashes. -/
def otherPacket : Wire.Packet where
  registrations := [{ registration with key := key 7 }]
  delegations := [{ delegation with stakingTx := [2] }]
  slashings := [⟨otherHash, "01"⟩]
  unbondings := []

end Sample

namespace Registry

attribute [local instance] Address.Host.rules

/-- Both packets admit a delegation and end it, and register a provider of one consumer. -/
theorem relayed_comm_otherPacket :
    Disjoint Sample.endingPacket.ids Sample.otherPacket.ids ∧
      Disjoint Sample.endingPacket.hashes Sample.otherPacket.hashes ∧
      ∃ t, (relayed Sample.owner Sample.registry Sample.endingPacket >>= fun s =>
          relayed Sample.owner s Sample.otherPacket) = .ok t ∧
        (relayed Sample.owner Sample.registry Sample.otherPacket >>= fun s =>
          relayed Sample.owner s Sample.endingPacket) = .ok t := by
  have hids : Disjoint Sample.endingPacket.ids Sample.otherPacket.ids := by
    rw [Set.disjoint_left]
    rintro id ⟨reg, hreg, rfl⟩ ⟨reg', hreg', hid⟩
    obtain rfl := List.mem_singleton.1 hreg
    obtain rfl := List.mem_singleton.1 hreg'
    revert hid
    decide +kernel
  have hnames : Names Sample.uppercaseHash (.ofTx [1]) ∧ Names Sample.lowercaseHash (.ofTx [1]) ∧
      Names Sample.otherHash (.ofTx [2]) ∧ TxHash.ofTx [1] ≠ .ofTx [2] := by decide +kernel
  obtain ⟨hupper, hlower, hother, hne⟩ := hnames
  have hhashes : Disjoint Sample.endingPacket.hashes Sample.otherPacket.hashes := by
    rw [Set.disjoint_left]
    intro hash hhash hhash'
    have hending : hash = .ofTx [1] ∨ Names Sample.uppercaseHash hash ∨
        Names Sample.lowercaseHash hash := by
      simpa [Wire.Packet.hashes, Sample.endingPacket, Sample.delegation, eq_comm] using hhash
    have hone : hash = .ofTx [1] := by
      rcases hending with rfl | h | h
      · rfl
      · exact h.unique hupper
      · exact h.unique hlower
    have hslashing : hash = .ofTx [2] ∨ Names Sample.otherHash hash := by
      simpa [Wire.Packet.hashes, Sample.otherPacket, eq_comm] using hhash'
    rcases hslashing with htwo | h
    · exact hne (hone.symm.trans htwo)
    · exact hne (hone.symm.trans (h.unique hother))
  have hsucceeds : (relayed Sample.owner Sample.registry Sample.endingPacket >>= fun s =>
      relayed Sample.owner s Sample.otherPacket).toOption.isSome = true := by decide +kernel
  obtain ⟨t, ht⟩ := Option.isSome_iff_exists.1 hsucceeds
  rw [toOption_eq_some] at ht
  exact ⟨hids, hhashes, t, ht, (relayed_comm hids hhashes _ _ _ _).1 ht⟩

end Registry

end Restaking
