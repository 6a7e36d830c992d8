import Restaking.Block
import Restaking.Proofs.Forms
import Restaking.Staking.Packet

/-!
# The wire forms of packets and notices

Every part of a packet has a lawful form, up to the envelope that relays the packet
(`lawfulForm_envelope`), and so has the message that a block begins (`lawfulForm_hostMessage`). The
members of a record are told apart by their names; a part that two records share (`Undelegation`,
`Body`) writes the same members in both.
-/

namespace Restaking

/-! ## Signatures and notices -/

instance lawfulForm_adaptorSignatures : LawfulForm AdaptorSignatures 2 :=
  .ofMembers (fun _ => rfl) (fun _ => rfl) (fun _ => by simp [Members.required?])
    (fun _ => by simp)

instance lawfulForm_memberSignature : LawfulForm MemberSignature 1 :=
  .ofMembers (fun _ => rfl) (fun _ => rfl) (fun _ => by simp [Members.required?])
    (fun _ => by simp)

instance lawfulForm_slashNotice : LawfulForm SlashNotice 1 :=
  .ofMembers (fun _ => rfl) (fun _ => rfl) (fun _ => by simp [Members.required?])
    (fun _ => by simp)

instance lawfulForm_unbondNotice : LawfulForm UnbondNotice 1 :=
  .ofMembers (fun _ => rfl) (fun _ => rfl) (fun _ => by simp [Members.required?])
    (fun _ => by simp)

/-! ## Registrations -/

instance lawfulForm_profile : LawfulForm Profile 1 :=
  .ofMembers (fun _ => rfl) (fun _ => rfl) (fun _ => by simp [Members.required?])
    (fun _ => by simp)

instance lawfulForm_chainKey : LawfulForm ChainKey 1 :=
  .ofMembers (fun _ => rfl) (fun _ => rfl) (fun _ => by simp [Members.required?])
    (fun _ => by simp)

instance lawfulForm_possession : LawfulForm Possession 1 :=
  .ofMembers (fun _ => rfl) (fun _ => rfl) (fun _ => by simp [Members.required?])
    (fun _ => by simp)

instance lawfulForm_registration : LawfulForm Registration 2 :=
  .ofMembers (fun _ => rfl) (fun _ => rfl) (fun _ => by simp [Members.required?])
    (fun _ => by simp)

/-! ## Delegations -/

instance lawfulForm_wireUndelegation : LawfulForm Wire.Undelegation 4 :=
  .ofMembers (fun _ => rfl) (fun _ => rfl)
    (fun _ => by simp [Members.required?, Undelegation.toMembers, Undelegation.ofMembers?])
    (fun _ => by simp [Undelegation.toMembers])

instance lawfulForm_wireDelegation : LawfulForm Wire.Delegation 5 :=
  .ofMembers (fun _ => rfl) (fun _ => rfl)
    (fun _ => by simp [Members.required?, Body.toMembers, Body.ofMembers?])
    (fun _ => by simp [Body.toMembers])

/-! ## Packets -/

instance lawfulForm_wirePacket : LawfulForm Wire.Packet 7 :=
  .ofMembers (fun _ => rfl) (fun _ => rfl) (fun _ => by simp [Members.withDefault?])
    (fun _ => by simp)

instance lawfulForm_envelope : LawfulForm Wire.Envelope 8 :=
  .ofVariants (fun | .relay p => ofJson?_variant (fun _ => rfl) p)
    (fun | .relay p => ⟨_, _, rfl, LawfulForm.regular p⟩)

/-! ## Notices -/

instance lawfulForm_blockNotice : LawfulForm BlockNotice 1 :=
  .ofMembers (fun _ => rfl) (fun _ => rfl) (fun _ => by simp [Members.required?])
    (fun _ => by simp)

instance lawfulForm_hostMessage : LawfulForm HostMessage 2 :=
  .ofVariants (fun | .beginBlock n => ofJson?_variant (fun _ => rfl) n)
    (fun | .beginBlock n => ⟨_, _, rfl, LawfulForm.regular n⟩)

/-- The message about a block is read as what it was written for. -/
theorem Header.ofMessage?_message (h : Header) :
    ofMessage? HostMessage (Utf8.encode (jsonText h.message)) = some h.message :=
  ofMessage?_jsonText (by decide) h.message

end Restaking
