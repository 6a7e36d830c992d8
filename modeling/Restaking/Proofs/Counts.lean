import Restaking.Proofs.Outcome

/-!
# What a packet adds is counted

A packet reports two numbers: that of its providers, and that of the delegations for which nothing
was stored. They are the numbers by which the registry has grown (`relay_counts`). Every provider is
new when it is registered (`size_providers_apply`), and slashing and unbonding only write over what
is there (`size_stakes_apply`), so nothing is counted twice and nothing is left out.
-/

namespace Restaking.Registry

variable {r r' : Registry}

/-! ## Providers -/

theorem size_providers_register {p : Provider} (h : r.register p = .ok r') :
    r'.providers.size = r.providers.size + 1 := by
  obtain ⟨_, hnew, rfl⟩ := register_eq_ok.1 h
  rw [putProvider, Table.size_insert, hnew]
  rfl

theorem size_providers_foldlM_register {ps : List Provider} (h : ps.foldlM register r = .ok r') :
    r'.providers.size = r.providers.size + ps.length := by
  induction ps generalizing r with
  | nil =>
    obtain rfl : r = r' := by simpa using h
    rfl
  | cons p rest ih =>
    obtain ⟨s, hp, hrest⟩ := foldlM_cons_eq_ok.1 h
    rw [ih hrest, size_providers_register hp, List.length_cons, Nat.add_assoc, Nat.add_comm 1]

theorem size_providers_apply {p : Packet} {count : Nat} (h : r.apply p = .ok (count, r')) :
    r'.providers.size = r.providers.size + p.providers.length := by
  obtain ⟨r₁, h₁, same⟩ := providers_apply h
  rw [← same, size_providers_foldlM_register h₁]

/-! ## Stakes -/

theorem size_putStake (hash : TxHash) (s : Stake) :
    (r.putStake hash s).stakes.size =
      if (r.stakes.get? hash).isSome then r.stakes.size else r.stakes.size + 1 :=
  Table.size_insert r.stakes hash s

theorem size_putStake_stored {hash : TxHash} {old : Stake} (h : r.stakes.get? hash = some old)
    (s : Stake) : (r.putStake hash s).stakes.size = r.stakes.size := by
  rw [size_putStake, h]
  rfl

/-- A delegation adds one to the stored ones if it is new. -/
theorem size_stakes_accept {d : Delegation} {new : Bool} (h : r.accept d = .ok (new, r')) :
    r'.stakes.size = if new then r.stakes.size + 1 else r.stakes.size := by
  rcases accept_eq_ok.1 h with ⟨_, _, _, rfl, rfl⟩ | ⟨hnew, rfl, s, _, rfl⟩
  · rfl
  · rw [size_putStake, hnew]
    rfl

theorem size_stakes_acceptAll {ds : List Delegation} {count : Nat}
    (h : r.acceptAll ds = .ok (count, r')) : r'.stakes.size = r.stakes.size + count := by
  induction ds generalizing r count with
  | nil =>
    obtain ⟨rfl, rfl⟩ := Prod.mk.inj (Except.ok.inj h)
    rfl
  | cons d rest ih =>
    obtain ⟨⟨new, s⟩, haccept, h⟩ := bind_eq_ok.1 h
    obtain ⟨⟨later, t⟩, hrest, h⟩ := bind_eq_ok.1 h
    obtain ⟨rfl, rfl⟩ := Prod.mk.inj (Except.ok.inj h)
    have hfirst := size_stakes_accept haccept
    rw [ih hrest, hfirst]
    cases new
    · rfl
    · exact Nat.add_right_comm _ 1 later

theorem size_stakes_slash {n : SlashNotice} (h : r.slash n = .ok r') :
    r.stakes.size = r'.stakes.size := by
  obtain ⟨hash, s, _, hs, rfl⟩ := slash_eq_ok.1 h
  exact (size_putStake_stored hs s.slash).symm

theorem size_stakes_unbond {n : UnbondNotice} (h : r.unbond n = .ok r') :
    r.stakes.size = r'.stakes.size := by
  obtain ⟨hash, s, _, hs, _, rfl⟩ := unbond_eq_ok.1 h
  exact (size_putStake_stored hs s.unbond).symm

theorem size_stakes_apply {p : Packet} {count : Nat} (h : r.apply p = .ok (count, r')) :
    r'.stakes.size = r.stakes.size + count := by
  obtain ⟨r₁, r₂, r₃, h₁, h₂, h₃, h₄⟩ := apply_eq_ok.1 h
  have hregister : r.stakes = r₁.stakes := foldlM_keeps Registry.stakes register_stakes h₁
  calc r'.stakes.size
    _ = r₃.stakes.size := (foldlM_keeps (fun r => r.stakes.size) size_stakes_unbond h₄).symm
    _ = r₂.stakes.size := (foldlM_keeps (fun r => r.stakes.size) size_stakes_slash h₃).symm
    _ = r₁.stakes.size + count := size_stakes_acceptAll h₂
    _ = r.stakes.size + count := by rw [hregister]

/-! ## Reports -/

/-- The numbers of new providers and new delegations that a packet reports when it succeeds are the
numbers by which the providers and the delegations have grown, whatever was stored before. -/
theorem relay_counts [AddressHost] {sender : String} {w : Wire.Packet} {reply : Reply}
    (h : r.perform (execute sender (.relay w)) = (.ok reply, r')) :
    ∃ newProviders newStakes,
      reply.attributes.lookup "new_fps" = some (Numeral.text newProviders) ∧
        r'.providers.size = r.providers.size + newProviders ∧
      reply.attributes.lookup "active_dels" = some (Numeral.text newStakes) ∧
        r'.stakes.size = r.stakes.size + newStakes := by
  obtain ⟨_, p, count, _, happly, rfl⟩ := (perform_relay_eq_ok r).1 h
  exact ⟨p.providers.length, count, rfl, size_providers_apply happly, rfl,
    size_stakes_apply happly⟩

attribute [local instance] Address.Host.rules

/-- A packet that brings in a delegation twice, and ends it at once, reports one delegation. -/
theorem relay_counts_endingPacket :
    Sample.registry.perform (execute Sample.owner (.relay Sample.endingPacket)) =
        (.ok Sample.reply, Sample.ended) ∧
      ∃ newProviders newStakes,
        Sample.reply.attributes.lookup "new_fps" = some (Numeral.text newProviders) ∧
          Sample.ended.providers.size = Sample.registry.providers.size + newProviders ∧
        Sample.reply.attributes.lookup "active_dels" = some (Numeral.text newStakes) ∧
          Sample.ended.stakes.size = Sample.registry.stakes.size + newStakes :=
  ⟨Sample.perform_endingPacket, relay_counts Sample.perform_endingPacket⟩

end Restaking.Registry
