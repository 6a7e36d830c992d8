import Restaking.Proofs.StoredForms
import Restaking.Proofs.Tables
import Restaking.Registry.Draft

/-!
# Storage in bytes

The host keeps bytes. A value is saved as the bytes of the text of its JSON form, and loaded by
reading them; in between, the registry is what the bytes stand for.

`Storage` is the bytes that are kept for a registry: its parameters, providers, delegations and last
block. Saving the entries of a draft one after the other turns the storage of a registry into that
of the registry after the commit (`commit_ofRegistry`), whatever the form of the values. Since their
forms are lawful, what is looked up or listed in the storage of a registry is what the registry
holds (`holds_ofRegistry`).
-/

namespace Restaking

/-- The bytes that a value is saved as. -/
def savedBytes {α : Type} [JsonForm α] (a : α) : Bytes := Utf8.encode (jsonText a)

/-- What is loaded from the bytes under a key: nothing if there are none. Loading fails if the bytes
stand for no value. -/
def load? (α : Type) [JsonForm α] (bytes : Option Bytes) : Option (Option α) :=
  bytes.mapM (ofMessage? α)

section Values

variable {α : Type} [JsonForm α] {height : Nat} [LawfulForm α height]

theorem ofMessage?_savedBytes (h : height ≤ Json.maxDepth) (a : α) :
    ofMessage? α (savedBytes a) = some a :=
  ofMessage?_jsonText h a

theorem load?_savedBytes (h : height ≤ Json.maxDepth) (a : Option α) :
    load? α (a.map savedBytes) = some a := by
  cases a with
  | none => rfl
  | some a =>
    unfold load?
    rw [Option.map_some, Option.mapM_some, ofMessage?_savedBytes h]
    rfl

end Values

/-! ## Tables -/

namespace Table

variable {κ α : Type} [Ord κ] [JsonForm α]

/-- What is loaded from a table of bytes is what a table of values holds, whether it is looked up
under a key or all of it is listed. -/
structure Holds (t : Table κ Bytes) (u : Table κ α) : Prop where
  /-- Under a key. -/
  lookup : ∀ k, load? α (t.get? k) = some (u.get? k)
  /-- From first to last. -/
  list : (t.entries.mapM fun e => (ofMessage? α e.2).map (e.1, ·)) = some u.entries

theorem holds_mapValues {height : Nat} [LawfulForm α height] (h : height ≤ Json.maxDepth)
    (t : Table κ α) : (t.mapValues savedBytes).Holds t where
  lookup k := by rw [get?_mapValues, load?_savedBytes h]
  list := mapM_map_eq_some fun e _ => by rw [ofMessage?_savedBytes h, Option.map_some]

variable [Std.TransOrd κ] [Std.LawfulEqOrd κ] [DecidableEq κ]

/-- Saves the values of a second table under their keys, one after the other. -/
def saveAll (t : Table κ Bytes) (upper : Table κ α) : Table κ Bytes :=
  upper.entries.foldl (fun t e => t.insert e.1 (savedBytes e.2)) t

omit [DecidableEq κ] in
theorem saveAll_eq_overlay (t : Table κ Bytes) (upper : Table κ α) :
    t.saveAll upper = t.overlay (upper.mapValues savedBytes) := by
  unfold saveAll overlay mapValues
  rw [List.foldl_map]

/-- Saving over the bytes of a table gives the bytes of the table with the values put over it. -/
theorem saveAll_mapValues (t upper : Table κ α) :
    (t.mapValues savedBytes).saveAll upper = (t.overlay upper).mapValues savedBytes := by
  rw [saveAll_eq_overlay, mapValues_overlay]

end Table

/-! ## The registry -/

/-- The bytes that the host keeps for a registry. -/
structure Storage where
  params : Table UInt32 Bytes
  providers : Table ProviderId Bytes
  stakes : Table TxHash Bytes
  lastBlock : Option Bytes

namespace Storage

/-- The storage in which every value of a registry is saved. -/
def ofRegistry (r : Registry) : Storage where
  params := r.params.mapValues savedBytes
  providers := r.providers.mapValues savedBytes
  stakes := r.stakes.mapValues savedBytes
  lastBlock := r.lastBlock.map savedBytes

/-- Saves the entries of a draft. -/
def commit (s : Storage) (d : Draft) : Storage :=
  { s with
    providers := s.providers.saveAll d.providers
    stakes := s.stakes.saveAll d.stakes }

/-- What is loaded from a storage is what a registry holds. -/
structure Holds (s : Storage) (r : Registry) : Prop where
  params : s.params.Holds r.params
  providers : s.providers.Holds r.providers
  stakes : s.stakes.Holds r.stakes
  lastBlock : load? BlockNotice s.lastBlock = some r.lastBlock

theorem holds_ofRegistry (r : Registry) : (ofRegistry r).Holds r where
  params := Table.holds_mapValues (by decide) r.params
  providers := Table.holds_mapValues (by decide) r.providers
  stakes := Table.holds_mapValues (by decide) r.stakes
  lastBlock := load?_savedBytes (by decide) r.lastBlock

theorem commit_ofRegistry (r : Registry) (d : Draft) :
    (ofRegistry r).commit d = ofRegistry (d.commit r) := by
  unfold commit ofRegistry Draft.commit
  dsimp only
  rw [Table.saveAll_mapValues, Table.saveAll_mapValues]

/-- A stake at any stage, a provider, staking parameters, a notice of a block and the parameters of
the notifier are loaded as what was saved. So a registry's storage gives back what the registry
holds, and once a draft is committed, what the registry holds from then on. -/
theorem saved_values_return :
    (∀ s : Stake, ofMessage? Stake (savedBytes s) = some s) ∧
    (∀ p : Provider, ofMessage? Provider (savedBytes p) = some p) ∧
    (∀ p : StakingParams, ofMessage? StakingParams (savedBytes p) = some p) ∧
    (∀ n : BlockNotice, ofMessage? BlockNotice (savedBytes n) = some n) ∧
    (∀ p : Notifier.Params, ofMessage? Notifier.Params (savedBytes p) = some p) ∧
    (∀ r : Registry, (ofRegistry r).Holds r) ∧
    ∀ (r : Registry) (d : Draft), ((ofRegistry r).commit d).Holds (d.commit r) := by
  refine ⟨?stake, ?provider, ?params, ?notice, ?notifier, holds_ofRegistry, ?commit⟩
  case stake => exact ofMessage?_savedBytes (by decide)
  case provider => exact ofMessage?_savedBytes (by decide)
  case params => exact ofMessage?_savedBytes (by decide)
  case notice => exact ofMessage?_savedBytes (by decide)
  case notifier => exact ofMessage?_savedBytes (by decide)
  case commit =>
    intro r d
    rw [commit_ofRegistry]
    exact holds_ofRegistry (d.commit r)

end Storage

end Restaking
