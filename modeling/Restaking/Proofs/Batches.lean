import Restaking.Proofs.Growth
import Restaking.Proofs.Reading

/-!
# Packets as batches

Relaying a packet has the same result as relaying its entries one at a time, in order: the providers
first, then the delegations, slashings and unbondings.

1. All entries of a packet are read before the first is written. Reading each of them right before
   it is written makes no difference (`enter_eq_ok`). A provider that a packet announces twice is
   refused by the reading in one case, and by the registry in the other.
2. So a packet with a single entry does what that entry does (`enter_ofRegistration` and so on).
3. Who may relay does not change from one packet to the next.
-/

namespace Restaking

namespace Wire.Packet

/-! ## Packets with one entry -/

def ofRegistration (reg : Registration) : Packet := ⟨[reg], [], [], []⟩

def ofDelegation (d : Delegation) : Packet := ⟨[], [d], [], []⟩

def ofSlashing (n : SlashNotice) : Packet := ⟨[], [], [n], []⟩

def ofUnbonding (n : UnbondNotice) : Packet := ⟨[], [], [], [n]⟩

/-- The entries of a packet in order, each as a packet of its own. -/
def entries (w : Packet) : List Packet :=
  w.registrations.map ofRegistration ++ w.delegations.map ofDelegation ++
    w.slashings.map ofSlashing ++ w.unbondings.map ofUnbonding

end Wire.Packet

namespace Registry

open Wire.Packet

variable {r r' : Registry}

/-! ## Reading and writing -/

/-- Reads a packet and writes its entries. -/
def enter (r : Registry) (w : Wire.Packet) : Except RegistryError Registry := do
  let p ← (Packet.ofWire w).mapError .staking
  Prod.snd <$> r.apply p

theorem enter_eq_ok_iff_apply {w : Wire.Packet} :
    r.enter w = .ok r' ↔ ∃ p count, Packet.ofWire w = .ok p ∧ r.apply p = .ok (count, r') := by
  unfold enter
  constructor
  · intro h
    obtain ⟨p, hp, h⟩ := bind_eq_ok.1 h
    obtain ⟨⟨count, r'⟩, happly, rfl⟩ := map_eq_ok.1 h
    exact ⟨p, count, mapError_eq_ok.1 hp, happly⟩
  · rintro ⟨p, count, hp, happly⟩
    rw [hp, mapError_ok, ok_bind, happly, map_ok]

def enterRegistration (r : Registry) (reg : Registration) : Except RegistryError Registry := do
  let p ← (Provider.ofRegistration reg).mapError .staking
  r.register p

def enterDelegation (r : Registry) (w : Wire.Delegation) : Except RegistryError Registry := do
  let d ← (Delegation.ofWire w).mapError .staking
  r.enroll d

def enterSlashing (r : Registry) (n : SlashNotice) : Except RegistryError Registry := do
  (SlashNotice.check n).mapError (.staking ∘ .malformed)
  r.slash n

def enterUnbonding (r : Registry) (n : UnbondNotice) : Except RegistryError Registry := do
  (UnbondNotice.check n).mapError (.staking ∘ .malformed)
  r.unbond n

/-- The registry refuses what reading all registrations together would refuse. -/
theorem foldlM_enterRegistration {regs : List Registration} :
    regs.foldlM enterRegistration r = .ok r' ↔
      ∃ ps, (traverse Provider.ofRegistration regs = .ok ps ∧ (ps.map Provider.id).Nodup) ∧
        ps.foldlM register r = .ok r' := by
  unfold enterRegistration
  rw [foldlM_traverse]
  refine exists_congr fun ps => ?_
  rw [and_assoc]
  refine and_congr_right fun _ => ?_
  exact (and_iff_right_of_imp fun h => (foldlM_register_fresh h).1).symm

theorem foldlM_enterDelegation {ds : List Wire.Delegation} :
    ds.foldlM enterDelegation r = .ok r' ↔
      ∃ ds', traverse Delegation.ofWire ds = .ok ds' ∧
        ∃ count, r.acceptAll ds' = .ok (count, r') := by
  unfold enterDelegation
  rw [foldlM_traverse]
  simp only [← map_snd_acceptAll, map_eq_ok, Prod.exists, exists_eq_right]

/-- A packet can be read entry by entry. -/
theorem enter_eq_ok {w : Wire.Packet} :
    r.enter w = .ok r' ↔ ∃ r₁ r₂ r₃, w.registrations.foldlM enterRegistration r = .ok r₁ ∧
      w.delegations.foldlM enterDelegation r₁ = .ok r₂ ∧
      w.slashings.foldlM enterSlashing r₂ = .ok r₃ ∧
      w.unbondings.foldlM enterUnbonding r₃ = .ok r' := by
  have hslashings : ∀ {s t}, w.slashings.foldlM enterSlashing s = .ok t ↔
      (∀ n ∈ w.slashings, SlashNotice.check n = .ok ()) ∧ w.slashings.foldlM slash s = .ok t :=
    foldlM_checkAll _
  have hunbondings : ∀ {s t}, w.unbondings.foldlM enterUnbonding s = .ok t ↔
      (∀ n ∈ w.unbondings, UnbondNotice.check n = .ok ()) ∧ w.unbondings.foldlM unbond s = .ok t :=
    foldlM_checkAll _
  simp only [foldlM_enterRegistration, foldlM_enterDelegation, hslashings, hunbondings,
    enter_eq_ok_iff_apply]
  constructor
  · rintro ⟨p, count, hp, happly⟩
    obtain ⟨hps, hds, ⟨hs, es⟩, hu, eu⟩ := Packet.ofWire_eq_ok.1 hp
    obtain ⟨r₁, r₂, r₃, h₁, h₂, h₃, h₄⟩ := apply_eq_ok.1 happly
    rw [es] at h₃
    rw [eu] at h₄
    exact ⟨r₁, r₂, r₃, ⟨_, hps, h₁⟩, ⟨_, hds, count, h₂⟩, ⟨hs, h₃⟩, hu, h₄⟩
  · rintro ⟨r₁, r₂, r₃, ⟨ps, hps, h₁⟩, ⟨ds, hds, count, h₂⟩, ⟨hs, h₃⟩, hu, h₄⟩
    exact ⟨⟨ps, ds, w.slashings, w.unbondings⟩, count,
      Packet.ofWire_eq_ok.2 ⟨hps, hds, ⟨hs, rfl⟩, hu, rfl⟩,
      apply_eq_ok.2 ⟨r₁, r₂, r₃, h₁, h₂, h₃, h₄⟩⟩

/-! ## One entry at a time -/

theorem enter_ofRegistration {reg : Registration} :
    r.enter (ofRegistration reg) = .ok r' ↔ r.enterRegistration reg = .ok r' := by
  simp [enter_eq_ok, ofRegistration]

theorem enter_ofDelegation {d : Wire.Delegation} :
    r.enter (ofDelegation d) = .ok r' ↔ r.enterDelegation d = .ok r' := by
  simp [enter_eq_ok, ofDelegation]

theorem enter_ofSlashing {n : SlashNotice} :
    r.enter (ofSlashing n) = .ok r' ↔ r.enterSlashing n = .ok r' := by
  simp [enter_eq_ok, ofSlashing]

theorem enter_ofUnbonding {n : UnbondNotice} :
    r.enter (ofUnbonding n) = .ok r' ↔ r.enterUnbonding n = .ok r' := by
  simp [enter_eq_ok, ofUnbonding]

/-- A packet is entered as its entries are, one after the other. -/
theorem enter_eq_ok_iff_entries {w : Wire.Packet} :
    r.enter w = .ok r' ↔ w.entries.foldlM enter r = .ok r' := by
  unfold entries
  simp only [List.foldlM_append, List.foldlM_map, bind_eq_ok,
    foldlM_eq_ok_iff enter_ofRegistration, foldlM_eq_ok_iff enter_ofDelegation,
    foldlM_eq_ok_iff enter_ofSlashing, foldlM_eq_ok_iff enter_ofUnbonding, enter_eq_ok]
  constructor
  · rintro ⟨r₁, r₂, r₃, h₁, h₂, h₃, h₄⟩
    exact ⟨r₃, ⟨r₂, ⟨r₁, h₁, h₂⟩, h₃⟩, h₄⟩
  · rintro ⟨r₃, ⟨r₂, ⟨r₁, h₁, h₂⟩, h₃⟩, h₄⟩
    exact ⟨r₁, r₂, r₃, h₁, h₂, h₃, h₄⟩

/-! ## Relaying -/

/-- What is stored after a sender has relayed a packet, if the call succeeds. -/
def relayed [AddressHost] (sender : String) (r : Registry) (w : Wire.Packet) :
    Except RegistryError Registry :=
  (fun _ => r.after (.execute sender (.relay w))) <$> (r.perform (execute sender (.relay w))).1

theorem relayed_eq_ok [AddressHost] {sender : String} {w : Wire.Packet} :
    relayed sender r w = .ok r' ↔ r.MayRelay sender ∧ r.enter w = .ok r' := by
  have hcall : relayed sender r w = .ok r' ↔
      ∃ reply, r.perform (execute sender (.relay w)) = (.ok reply, r') := by
    unfold relayed after Event.call
    rw [map_eq_ok]
    simp only [Prod.ext_iff]
  simp only [hcall, perform_relay_eq_ok, enter_eq_ok_iff_apply]
  constructor
  · rintro ⟨reply, hsender, p, count, hp, happly, _⟩
    exact ⟨hsender, p, count, hp, happly⟩
  · rintro ⟨hsender, p, count, hp, happly⟩
    exact ⟨_, hsender, p, count, hp, happly, rfl⟩

theorem enter_mayRelay {sender : String} {w : Wire.Packet} (h : r.enter w = .ok r')
    (hr : r.MayRelay sender) : r'.MayRelay sender := by
  obtain ⟨p, count, _, happly⟩ := enter_eq_ok_iff_apply.1 h
  exact (apply_sameSettings happly).mayRelay hr

/-- A packet that an authorized sender relays has the same result as its entries have that the same
sender relays one after the other. In particular it succeeds exactly if all of them do. -/
theorem relayed_eq_ok_iff_entries [AddressHost] {sender : String} (h : r.MayRelay sender)
    (w : Wire.Packet) :
    relayed sender r w = .ok r' ↔ w.entries.foldlM (relayed sender) r = .ok r' := by
  rw [relayed_eq_ok, and_iff_right h, enter_eq_ok_iff_entries]
  -- the sender may still relay after each entry, so the checks of the sender can be left out
  refine (foldlM_eq_ok_congr (MayRelay · sender) (fun hs => ?_)
    (fun hs hu => enter_mayRelay hu hs) h).symm
  rw [relayed_eq_ok, and_iff_right hs]

attribute [local instance] Address.Host.rules

/-- One packet admits a delegation twice, slashes it and unbonds it, and so do five. -/
theorem relayed_endingPacket :
    Sample.registry.MayRelay Sample.owner ∧
      relayed Sample.owner Sample.registry Sample.endingPacket = .ok Sample.ended ∧
      Sample.endingPacket.entries.foldlM (relayed Sample.owner) Sample.registry =
        .ok Sample.ended := by
  have h : relayed Sample.owner Sample.registry Sample.endingPacket = .ok Sample.ended := by
    unfold relayed
    rw [Sample.perform_endingPacket]
    rfl
  have hsender : Sample.registry.MayRelay Sample.owner := ⟨_, rfl, .inl rfl⟩
  exact ⟨hsender, h, (relayed_eq_ok_iff_entries hsender _).1 h⟩

end Registry

end Restaking
