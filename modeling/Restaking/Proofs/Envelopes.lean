import Restaking.Proofs.Forms
import Restaking.Proofs.Runs
import Restaking.Proofs.WireForms

/-!
# A packet in an envelope and in a command

A packet is relayed in an envelope, which the codec opens, and the registry is told of it by a
command. The two forms are declared apart: the envelope holds a value that is the packet, while the
command holds the four lists itself, and stands next to other commands. All the same, they read the
same packets out of the same messages (`relay_read_alike`).

1. Both read the lists of a packet from the members of an object, one after the other
   (`Members.lists_iff`).
2. So there is one kind of value that relays a packet (`Json.Relays`), and each form reads the
   packet from the values of this kind, and from no others (`ofJson?_envelope_eq_some`,
   `ofJson?_command_eq_relay`).
-/

namespace Restaking

namespace Json

theorem variant?_eq_some {v v' : Json} {name : String} :
    v.variant? = some (name, v') ↔ v = variant name v' := by
  unfold variant? variant
  split <;> simp_all

theorem members?_eq_some {v : Json} {ms : Members} : v.members? = some ms ↔ v = .obj ms := by
  unfold members?
  split <;> simp_all

end Json

/-- The members hold the four lists of a packet. A list that is absent is empty. -/
structure Members.Lists (ms : Members) (w : Wire.Packet) : Prop where
  registrations : ms.withDefault? "new_fp" [] = some w.registrations
  delegations : ms.withDefault? "active_del" [] = some w.delegations
  slashings : ms.withDefault? "slashed_del" [] = some w.slashings
  unbondings : ms.withDefault? "unbonded_del" [] = some w.unbondings

/-- The value relays a packet: it is an object with one member, and this one holds the lists. -/
def Json.Relays (v : Json) (w : Wire.Packet) : Prop :=
  ∃ ms : Members, v = .variant "btc_staking" (.obj ms) ∧ ms.Lists w

open Json

variable {v : Json} {w : Wire.Packet}

/-- Reading the four lists one after the other, as the parts of some larger value. -/
theorem Members.lists_iff {α : Type} {f : Wire.Packet → α} (hf : Function.Injective f)
    {ms : Members} :
    ((ms.withDefault? "new_fp" []).bind fun registrations =>
      (ms.withDefault? "active_del" []).bind fun delegations =>
      (ms.withDefault? "slashed_del" []).bind fun slashings =>
      (ms.withDefault? "unbonded_del" []).bind fun unbondings =>
        some (f { registrations, delegations, slashings, unbondings })) = some (f w) ↔
      ms.Lists w := by
  simp only [Option.bind_eq_some_iff, Option.some.injEq]
  constructor
  · rintro ⟨_, hregistrations, _, hdelegations, _, hslashings, _, hunbondings, h⟩
    obtain rfl := hf h
    exact ⟨hregistrations, hdelegations, hslashings, hunbondings⟩
  · intro h
    exact ⟨_, h.registrations, _, h.delegations, _, h.slashings, _, h.unbondings, rfl⟩

theorem ofJson?_packet_eq_some :
    (ofJson? v : Option Wire.Packet) = some w ↔ ∃ ms : Members, v = .obj ms ∧ ms.Lists w := by
  refine Option.bind_eq_some_iff.trans (exists_congr fun ms => ?_)
  exact and_congr members?_eq_some (Members.lists_iff Function.injective_id)

/-- The envelope reads a packet from the values that relay it. -/
theorem ofJson?_envelope_eq_some :
    (ofJson? v : Option Wire.Envelope) = some (.relay w) ↔ v.Relays w := by
  refine Option.bind_eq_some_iff.trans ⟨?_, ?_⟩
  · rintro ⟨⟨name, v'⟩, hv, h⟩
    obtain rfl := variant?_eq_some.1 hv
    split at h
    case h_2 => cases h
    case h_1 heq =>
      obtain ⟨rfl, rfl⟩ := Prod.mk.inj heq
      obtain ⟨p, hp, h⟩ := Option.bind_eq_some_iff.1 h
      obtain rfl := Wire.Envelope.relay.inj (Option.some.inj h)
      obtain ⟨ms, rfl, hlists⟩ := ofJson?_packet_eq_some.1 hp
      exact ⟨ms, rfl, hlists⟩
  · rintro ⟨ms, rfl, hlists⟩
    have hpacket := ofJson?_packet_eq_some.2 ⟨ms, rfl, hlists⟩
    exact ⟨("btc_staking", .obj ms), rfl, Option.bind_eq_some_iff.2 ⟨w, hpacket, rfl⟩⟩

/-- The command reads a packet from the values that relay it. -/
theorem ofJson?_command_eq_relay :
    (ofJson? v : Option Command) = some (.relay w) ↔ v.Relays w := by
  have hinj : Function.Injective Command.relay := fun _ _ => Command.relay.inj
  refine Option.bind_eq_some_iff.trans ⟨?_, ?_⟩
  · rintro ⟨⟨name, v'⟩, hv, h⟩
    obtain rfl := variant?_eq_some.1 hv
    split at h
    case h_2 heq =>
      obtain ⟨rfl, rfl⟩ := Prod.mk.inj heq
      obtain ⟨ms, hms, h⟩ := Option.bind_eq_some_iff.1 h
      obtain rfl := members?_eq_some.1 hms
      exact ⟨ms, rfl, (Members.lists_iff hinj).1 h⟩
    case h_4 => cases h
    -- the other commands are no packets
    all_goals
      obtain ⟨_, _, h⟩ := Option.bind_eq_some_iff.1 h
      obtain ⟨_, _, h⟩ := Option.bind_eq_some_iff.1 h
      cases h
  · rintro ⟨ms, rfl, hlists⟩
    refine ⟨("btc_staking", .obj ms), rfl, ?_⟩
    exact Option.bind_eq_some_iff.2 ⟨ms, rfl, (Members.lists_iff hinj).2 hlists⟩

/-! ## Messages -/

section Messages

variable {bytes : Bytes}

theorem ofMessage?_envelope_eq_some :
    ofMessage? Wire.Envelope bytes = some (.relay w) ↔
      ∃ v, Json.ofBytes? bytes = some v ∧ v.Relays w := by
  unfold ofMessage?
  simp only [Option.bind_eq_some_iff, ofJson?_envelope_eq_some]

theorem ofMessage?_command_eq_relay :
    ofMessage? Command bytes = some (.relay w) ↔
      ∃ v, Json.ofBytes? bytes = some v ∧ v.Relays w := by
  unfold ofMessage?
  simp only [Option.bind_eq_some_iff, ofJson?_command_eq_relay]

theorem ofMessage?_envelope_iff :
    ofMessage? Wire.Envelope bytes = some (.relay w) ↔
      ofMessage? Command bytes = some (.relay w) :=
  ofMessage?_envelope_eq_some.trans ofMessage?_command_eq_relay.symm

namespace Packet

theorem ofMessage_of_command (h : ofMessage? Command bytes = some (.relay w)) :
    ofMessage bytes = ofWire w := by
  unfold ofMessage
  rw [ofMessage?_envelope_iff.2 h]

theorem ofMessage_of_no_command (h : ∀ w, ofMessage? Command bytes ≠ some (.relay w)) :
    ofMessage bytes = .error .unreadable := by
  unfold ofMessage
  cases hread : ofMessage? Wire.Envelope bytes with
  | none => rfl
  | some envelope =>
    obtain ⟨w⟩ := envelope
    exact absurd (ofMessage?_envelope_iff.1 hread) (h w)

end Packet

end Messages

/-- Whatever the bytes of a message, it is an envelope of a packet if and only if it is a command to
relay that packet, which is to say that it is the JSON text of a value that relays it. Then the
codec makes of the message what it makes of the packet. A message that is no such command cannot be
read by the codec. So the registry, told by anyone to relay the packet of a message, applies what
the codec makes of that message. -/
theorem relay_read_alike [AddressHost] (bytes : Bytes) :
    (∀ w, ofMessage? Wire.Envelope bytes = some (.relay w) ↔
        ofMessage? Command bytes = some (.relay w)) ∧
      (∀ w, ofMessage? Command bytes = some (.relay w) ↔
        ∃ v, Json.ofBytes? bytes = some v ∧ v.Relays w) ∧
      (∀ w, ofMessage? Command bytes = some (.relay w) →
        Packet.ofMessage bytes = Packet.ofWire w) ∧
      ((∀ w, ofMessage? Command bytes ≠ some (.relay w)) →
        Packet.ofMessage bytes = .error .unreadable) ∧
      ∀ (r : Registry) (sender : String) (w : Wire.Packet),
        ofMessage? Command bytes = some (.relay w) →
        r.perform (Registry.execute sender (.relay w)) =
          r.settle (do
            r.checkRelayer sender
            let p ← (Packet.ofMessage bytes).mapError .staking
            let (count, r') ← r.apply p
            return (Registry.relayReply p count, r')) := by
  refine ⟨fun w => ofMessage?_envelope_iff, fun w => ofMessage?_command_eq_relay,
    fun w => Packet.ofMessage_of_command, Packet.ofMessage_of_no_command, fun r sender w h => ?_⟩
  rw [Registry.perform_execute, Registry.effect, Packet.ofMessage_of_command h]

/-- A list that is `null` is not absent: the message is neither a command nor a packet. -/
example :
    let bytes := Utf8.encode "\x7b\"btc_staking\": \x7b\"new_fp\": null\x7d\x7d"
    ofMessage? Command bytes = none ∧ Packet.ofMessage bytes = .error .unreadable := by
  decide +kernel

namespace Sample

/-- A message with one of the four lists, and a member that is not known. -/
def slashingMessage : Bytes := Utf8.encode
  ("\x7b\"btc_staking\": \x7b\"memo\": [1.5], \"slashed_del\": [\x7b\"staking_tx_hash\": \""
    ++ lowercaseHash ++ "\", \"recovered_fp_btc_sk\": \"01\"\x7d]\x7d\x7d")

end Sample

attribute [local instance] Address.Host.rules

/-- The lists that are missing are empty, and the codec and the registry both make do without. -/
theorem relay_read_alike_slashingMessage :
    ofMessage? Command Sample.slashingMessage =
        some (.relay ⟨[], [], [⟨Sample.lowercaseHash, "01"⟩], []⟩) ∧
      ofMessage? Wire.Envelope Sample.slashingMessage =
        some (.relay ⟨[], [], [⟨Sample.lowercaseHash, "01"⟩], []⟩) ∧
      Packet.ofMessage Sample.slashingMessage =
        Packet.ofWire ⟨[], [], [⟨Sample.lowercaseHash, "01"⟩], []⟩ := by
  have hcommand : ofMessage? Command Sample.slashingMessage =
      some (.relay ⟨[], [], [⟨Sample.lowercaseHash, "01"⟩], []⟩) := by
    decide +kernel
  obtain ⟨henvelope, _, hpacket, _⟩ := relay_read_alike Sample.slashingMessage
  exact ⟨hcommand, (henvelope _).2 hcommand, hpacket _ hcommand⟩

end Restaking
