import Restaking.Proofs.Delegations
import Restaking.Proofs.Messages
import Restaking.Proofs.Runs

/-!
# Packets written back

A packet that has been read can always be written. What is written is the message that was read,
save that each commission is spelt as decimals are written (`Wire.Packet.respelled`), and from then
on reading and writing undo each other (`respelled_roundTrip`).

1. What is read is well-formed (`Packet.wellFormed_of_ofWire`). The checks of a delegation include
   all that writing demands of it (`Delegation.complete_of_check`).
2. An entry that has been read tells of what it was read from: a delegation word for word
   (`Delegation.ofWire_eq_ok`), a provider up to its commission
   (`Provider.toRegistration_of_ofRegistration`).
3. So a packet is written as its message, respelled (`Packet.wire_of_ofWire`), which is read as any
   well-formed packet is (`Packet.ofWire_wire`).
-/

namespace Restaking

/-! ## Respelling -/

/-- The registration with its commission spelt as decimals are written. One whose commission cannot
be read stays as it is. -/
def Registration.respelled (reg : Registration) : Registration :=
  match commissionOfText reg.commission with
  | .ok rate => { reg with commission := rate.text }
  | .error _ => reg

/-- The message with the commissions respelled, and everything else as it was. -/
def Wire.Packet.respelled (w : Wire.Packet) : Wire.Packet :=
  { w with registrations := w.registrations.map Registration.respelled }

theorem Provider.toRegistration_of_ofRegistration {reg : Registration} {q : Provider}
    (h : ofRegistration reg = .ok q) : q.toRegistration = reg.respelled := by
  obtain ⟨_, rate, hrate, rfl⟩ := ofRegistration_eq_ok.1 h
  unfold Registration.respelled
  rw [hrate]
  rfl

/-! ## Delegations -/

namespace Delegation

/-- A delegation is read from the one message that tells of it, if it passes its checks. -/
theorem ofWire_eq_ok {w : Wire.Delegation} {d : Delegation} :
    ofWire w = .ok d ↔ d.check = .ok () ∧ wire d = w := by
  constructor
  · intro h
    unfold ofWire at h
    -- the part on undelegation is there, and the delegator has not signed it
    split at h
    · cases h
    next u hu =>
      split at h
      · cases h
      next hsig =>
        obtain ⟨hcheck, h⟩ := check_bind_eq_ok.1 h
        obtain rfl := Except.ok.inj h
        refine ⟨hcheck, ?_⟩
        obtain ⟨info, signature⟩ := u
        subst hsig
        cases w
        cases hu
        rfl
  · rintro ⟨hcheck, rfl⟩
    exact ofWire_wire.2 ⟨hcheck, rfl⟩

theorem complete_of_check {d : Delegation} (h : d.check = .ok ()) : d.Complete := by
  have hd : d.WellFormed := check_eq_ok.1 h
  exact ⟨hd.stakingTx, hd.slashingTx, hd.slashingSignature, hd.undelegation.unbondingTx,
    hd.undelegation.slashingTx, hd.undelegation.slashingSignature⟩

end Delegation

/-! ## Packets -/

namespace Packet

variable {w : Wire.Packet} {p : Packet}

theorem wellFormed_of_ofWire (h : ofWire w = .ok p) : p.WellFormed := by
  obtain ⟨⟨hproviders, hdistinct⟩, hdelegations, ⟨hslashings, hs⟩, hunbondings, hu⟩ :=
    ofWire_eq_ok.1 h
  exact {
    providers := forall_of_traverse Provider.check_of_ofRegistration hproviders
    distinct := hdistinct
    delegations := forall_of_traverse (fun h => (Delegation.ofWire_eq_ok.1 h).1) hdelegations
    slashings := hs ▸ hslashings
    unbondings := hu ▸ hunbondings }

theorem wire_of_ofWire (h : ofWire w = .ok p) : p.wire = w.respelled := by
  obtain ⟨⟨hproviders, _⟩, hdelegations, ⟨_, hs⟩, _, hu⟩ := ofWire_eq_ok.1 h
  have hregistrations : p.providers.map Provider.toRegistration =
      w.registrations.map Registration.respelled :=
    map_of_traverse Provider.toRegistration_of_ofRegistration hproviders
  have htold : p.delegations.map Delegation.wire = w.delegations.map id :=
    map_of_traverse (fun h => (Delegation.ofWire_eq_ok.1 h).2) hdelegations
  unfold wire Wire.Packet.respelled
  rw [hregistrations, htold, List.map_id, hs, hu]

theorem complete_of_ofWire (h : ofWire w = .ok p) : ∀ d ∈ p.delegations, d.Complete :=
  fun d hd => Delegation.complete_of_check ((wellFormed_of_ofWire h).delegations d hd)

theorem toWire_of_ofWire (h : ofWire w = .ok p) : p.toWire = .ok w.respelled :=
  toWire_eq_ok.2 ⟨complete_of_ofWire h, (wire_of_ofWire h).symm⟩

theorem ofWire_respelled (h : ofWire w = .ok p) : ofWire w.respelled = .ok p := by
  rw [← wire_of_ofWire h]
  exact ofWire_wire.2 ⟨wellFormed_of_ofWire h, rfl⟩

/-- A packet that is read from a message can be written, and is written as that message with its
commissions respelled. What is written is read as the same packet again, and reading and writing it
once more changes nothing. A packet that is read from bytes can be written as bytes, from which it
is read again. -/
theorem respelled_roundTrip :
    (∀ w p, ofWire w = .ok p → p.toWire = .ok w.respelled ∧ ofWire w.respelled = .ok p ∧
      (ofWire w.respelled >>= toWire) = .ok w.respelled) ∧
    ∀ bytes p, ofMessage bytes = .ok p →
      ∃ text, p.toMessage = .ok text ∧ ofMessage (Utf8.encode text) = .ok p := by
  constructor
  · intro w p h
    refine ⟨toWire_of_ofWire h, ofWire_respelled h, ?_⟩
    rw [ofWire_respelled h, ok_bind, toWire_of_ofWire h]
  · intro bytes p h
    unfold ofMessage at h
    split at h
    · cases h
    next w _ =>
      refine ⟨_, toMessage_eq_ok.2 ⟨complete_of_ofWire h, rfl⟩, ?_⟩
      rw [ofMessage_jsonText, wire_of_ofWire h]
      exact ofWire_respelled h

end Packet

/-! ## A packet with another spelling -/

namespace Sample

/-- A message that spells a commission with a sign and more zeros than needed, and a hash in
uppercase. -/
def spelt : Wire.Packet where
  registrations := [{ registration with commission := "+00.0500" }]
  delegations := [delegation]
  slashings := [⟨uppercaseHash, "01"⟩]
  unbondings := []

/-- What the message means. -/
def meant : Packet where
  providers := [registration.providerAt provider.commission]
  delegations := [admitted]
  slashings := [⟨uppercaseHash, "01"⟩]
  unbondings := []

theorem ofWire_spelt : Packet.ofWire spelt = .ok meant := toOption_eq_some.1 (by decide +kernel)

end Sample

/-- The commission is written as in the sample registration, and the hash stays in uppercase. -/
theorem Packet.respelled_roundTrip_spelt :
    Packet.ofWire Sample.spelt = .ok Sample.meant ∧
      Sample.meant.toWire = .ok { Sample.spelt with registrations := [Sample.registration] } ∧
      ofMessage (Utf8.encode (jsonText (Wire.Envelope.relay Sample.spelt))) = .ok Sample.meant ∧
      ∃ text, Sample.meant.toMessage = .ok text ∧
        ofMessage (Utf8.encode text) = .ok Sample.meant := by
  have hwire := Sample.ofWire_spelt
  have hmessage := (ofMessage_jsonText Sample.spelt).trans hwire
  have hrespelled : Sample.spelt.respelled =
      { Sample.spelt with registrations := [Sample.registration] } := by decide +kernel
  obtain ⟨hwritten, hback⟩ := respelled_roundTrip
  exact ⟨hwire, hrespelled ▸ (hwritten _ _ hwire).1, hmessage, hback _ _ hmessage⟩

end Restaking
