import Restaking.Proofs.Numerals
import Restaking.Proofs.Reading
import Restaking.Proofs.WireForms

/-!
# Packets read back

A packet can be written if its delegations are complete, and it is read back from its message if it
is well-formed (`message_roundTrip`). The message itself loses nothing, whatever the packet
(`ofMessage_jsonText`), so all that can go wrong is that a check refuses the packet. What is checked
of a packet on the wire comes down to the checks of its entries, and once they pass, the packet that
is read is the packet that was written (`Packet.ofWire_wire`).
-/

namespace Restaking

/-! ## Providers -/

theorem commissionOfText_text {rate rate' : Decimal} :
    commissionOfText rate.text = .ok rate' ↔ checkCommission rate = .ok () ∧ rate' = rate := by
  rw [commissionOfText_eq_ok, Decimal.ofText?_text, Option.some.injEq]
  constructor
  · rintro ⟨rfl, hcheck⟩
    exact ⟨hcheck, rfl⟩
  · rintro ⟨hcheck, rfl⟩
    exact ⟨rfl, hcheck⟩

/-- A provider is announced as itself, provided that it passes its checks. -/
theorem Provider.ofRegistration_toRegistration {q q' : Provider} :
    ofRegistration q.toRegistration = .ok q' ↔ q.check = .ok () ∧ q' = q := by
  unfold ofRegistration
  rw [check_bind_eq_ok, mapError_eq_ok, Registration.check_eq_ok, Provider.check_eq_ok, bind_eq_ok]
  constructor
  · rintro ⟨hentry, rate, hrate, h⟩
    obtain ⟨hcommission, rfl⟩ := commissionOfText_text.1 hrate
    exact ⟨⟨hcommission, hentry⟩, (Except.ok.inj h).symm⟩
  · rintro ⟨⟨hcommission, hentry⟩, rfl⟩
    exact ⟨hentry, _, commissionOfText_text.2 ⟨hcommission, rfl⟩, rfl⟩

/-! ## Delegations -/

namespace Delegation

/-- The transactions and signatures that the wire form demands are there. -/
structure Complete (d : Delegation) : Prop where
  stakingTx : d.stakingTx ≠ []
  slashingTx : d.slashingTx ≠ []
  slashingSignature : d.slashingSignature ≠ []
  unbondingTx : d.undelegation.unbondingTx ≠ []
  unbondingSlashingTx : d.undelegation.slashingTx ≠ []
  unbondingSlashingSignature : d.undelegation.slashingSignature ≠ []

/-- What a message tells of a delegation. -/
def wire (d : Delegation) : Wire.Delegation :=
  d.withUndelegation (some { d.undelegation with delegatorSignature := none })

theorem toWire_eq_ok {d : Delegation} {w : Wire.Delegation} :
    d.toWire = .ok w ↔ Complete d ∧ w = wire d := by
  unfold toWire
  simp only [check_bind_eq_ok, demand_eq_ok, pure_eq_ok, Except.ok.injEq]
  constructor
  · rintro ⟨h₁, h₂, h₃, h₄, h₅, h₆, rfl⟩
    exact ⟨⟨h₁, h₂, h₃, h₄, h₅, h₆⟩, rfl⟩
  · rintro ⟨⟨h₁, h₂, h₃, h₄, h₅, h₆⟩, rfl⟩
    exact ⟨h₁, h₂, h₃, h₄, h₅, h₆, rfl⟩

/-- A delegation is told of as itself, provided that it passes its checks. -/
theorem ofWire_wire {d d' : Delegation} :
    ofWire (wire d) = .ok d' ↔ d.check = .ok () ∧ d' = d := by
  change (do Delegation.check d; return d) = Except.ok d' ↔ _
  rw [check_bind_eq_ok, pure_eq_ok, Except.ok.injEq, @eq_comm _ d]

end Delegation

/-! ## Packets -/

namespace Packet

/-- A packet whose entries pass their checks and whose providers are all different. -/
structure WellFormed (p : Packet) : Prop where
  providers : ∀ q ∈ p.providers, q.check = .ok ()
  distinct : (p.providers.map Provider.id).Nodup
  delegations : ∀ d ∈ p.delegations, d.check = .ok ()
  slashings : ∀ n ∈ p.slashings, n.check = .ok ()
  unbondings : ∀ n ∈ p.unbondings, n.check = .ok ()

/-- The lists of the message that relays a packet. -/
def wire (p : Packet) : Wire.Packet where
  registrations := p.providers.map Provider.toRegistration
  delegations := p.delegations.map Delegation.wire
  slashings := p.slashings
  unbondings := p.unbondings

theorem toWire_eq_ok {p : Packet} {w : Wire.Packet} :
    p.toWire = .ok w ↔ (∀ d ∈ p.delegations, d.Complete) ∧ w = p.wire := by
  unfold toWire
  rw [bind_eq_ok]
  constructor
  · rintro ⟨ds, hds, h⟩
    obtain ⟨hcomplete, rfl⟩ := (traverse_eq_ok Delegation.toWire_eq_ok).1 hds
    exact ⟨hcomplete, (Except.ok.inj h).symm⟩
  · rintro ⟨hcomplete, rfl⟩
    exact ⟨_, (traverse_eq_ok Delegation.toWire_eq_ok).2 ⟨hcomplete, rfl⟩, rfl⟩

theorem toMessage_eq_ok {p : Packet} {text : String} :
    p.toMessage = .ok text ↔
      (∀ d ∈ p.delegations, d.Complete) ∧ text = jsonText (Wire.Envelope.relay p.wire) := by
  unfold toMessage
  rw [bind_eq_ok]
  constructor
  · rintro ⟨w, hw, h⟩
    obtain ⟨hcomplete, rfl⟩ := toWire_eq_ok.1 hw
    exact ⟨hcomplete, (Except.ok.inj h).symm⟩
  · rintro ⟨hcomplete, rfl⟩
    exact ⟨_, toWire_eq_ok.2 ⟨hcomplete, rfl⟩, rfl⟩

/-- What is read of a packet on the wire is that packet, and it is read if it is well-formed. -/
theorem ofWire_wire {p p' : Packet} : ofWire p.wire = .ok p' ↔ p.WellFormed ∧ p' = p := by
  obtain ⟨providers, delegations, slashings, unbondings⟩ := p
  obtain ⟨providers', delegations', slashings', unbondings'⟩ := p'
  rw [ofWire_eq_ok]
  simp only [wire, Packet.mk.injEq]
  rw [traverse_map_eq_ok Provider.ofRegistration_toRegistration,
    traverse_map_eq_ok Delegation.ofWire_wire]
  constructor
  · rintro ⟨⟨⟨hproviders, rfl⟩, hdistinct⟩, ⟨hdelegations, rfl⟩, ⟨hslashings, rfl⟩, hunbondings,
      rfl⟩
    exact ⟨⟨hproviders, hdistinct, hdelegations, hslashings, hunbondings⟩, rfl, rfl, rfl, rfl⟩
  · rintro ⟨h, rfl, rfl, rfl, rfl⟩
    exact ⟨⟨⟨h.providers, rfl⟩, h.distinct⟩, ⟨h.delegations, rfl⟩, ⟨h.slashings, rfl⟩,
      h.unbondings, rfl⟩

/-- A message that is written is read as what it was written for. -/
theorem ofMessage_jsonText (w : Wire.Packet) :
    ofMessage (Utf8.encode (jsonText (Wire.Envelope.relay w))) = ofWire w := by
  have hread := ofMessage?_jsonText (by decide) (Wire.Envelope.relay w)
  unfold ofMessage
  rw [hread]

/-- A packet is written exactly if all its delegations are complete. What is written is read as the
packet itself if the packet is well-formed, and is refused if it is not. -/
theorem message_roundTrip (p : Packet) :
    ((∃ text, p.toMessage = .ok text) ↔ ∀ d ∈ p.delegations, d.Complete) ∧
      ∀ text, p.toMessage = .ok text →
        (p.WellFormed → ofMessage (Utf8.encode text) = .ok p) ∧
        (¬ p.WellFormed → ∃ e, ofMessage (Utf8.encode text) = .error e) := by
  refine ⟨⟨?_, fun h => ⟨_, toMessage_eq_ok.2 ⟨h, rfl⟩⟩⟩, ?_⟩
  · rintro ⟨text, htext⟩
    exact (toMessage_eq_ok.1 htext).1
  · intro text htext
    obtain ⟨_, rfl⟩ := toMessage_eq_ok.1 htext
    rw [ofMessage_jsonText]
    refine ⟨fun h => ofWire_wire.2 ⟨h, rfl⟩, fun h => ?_⟩
    cases hread : ofWire p.wire with
    | error e => exact ⟨e, rfl⟩
    | ok p' => exact absurd (ofWire_wire.1 hread).1 h

end Packet

/-! ## Two packets -/

namespace Sample

/-- A provider whose moniker needs escapes, or more than one byte for a character. -/
def provider : Provider where
  profile := some ⟨"a\"b\\c\x01é𝄞", "", "", "", ""⟩
  commission := ⟨Decimal.unitsPerOne / 20, by decide⟩
  chainKey := none
  key := Hex.encode (List.replicate 32 3)
  possession := some ⟨-1, [], [255, 0]⟩
  consumer := "osmosis-1"

/-- A well-formed packet. -/
def written : Packet where
  providers := [provider]
  delegations := []
  slashings := [⟨Hex.encode (List.replicate 32 171), "01"⟩]
  unbondings := [⟨Hex.encode (List.replicate 32 171), [8]⟩]

/-- The packet with its provider twice. -/
def repeated : Packet := { written with providers := [provider, provider] }

theorem wellFormed_written : written.WellFormed where
  providers := List.forall_mem_singleton.2 (toOption_eq_some.1 (by decide +kernel))
  distinct := List.pairwise_singleton _ _
  delegations := fun _ h => absurd h List.not_mem_nil
  slashings := List.forall_mem_singleton.2 (toOption_eq_some.1 (by decide +kernel))
  unbondings := List.forall_mem_singleton.2 (toOption_eq_some.1 (by decide +kernel))

theorem not_wellFormed_repeated : ¬ repeated.WellFormed := by
  intro h
  have hdistinct : [provider.id, provider.id].Nodup := h.distinct
  exact (List.nodup_cons.1 hdistinct).1 List.mem_cons_self

end Sample

/-- Both packets are written; one is read back, the other is refused. -/
theorem Packet.message_roundTrip_written :
    (∃ text, Sample.written.toMessage = .ok text ∧
      ofMessage (Utf8.encode text) = .ok Sample.written) ∧
    ∃ text e, Sample.repeated.toMessage = .ok text ∧ ofMessage (Utf8.encode text) = .error e := by
  obtain ⟨hwritten, hback⟩ := message_roundTrip Sample.written
  obtain ⟨hrepeated, hrefused⟩ := message_roundTrip Sample.repeated
  obtain ⟨text, htext⟩ := hwritten.2 fun _ h => absurd h List.not_mem_nil
  obtain ⟨text', htext'⟩ := hrepeated.2 fun _ h => absurd h List.not_mem_nil
  obtain ⟨e, he⟩ := (hrefused text' htext').2 Sample.not_wellFormed_repeated
  exact ⟨⟨text, htext, (hback text htext).1 Sample.wellFormed_written⟩, text', e, htext', he⟩

end Restaking
