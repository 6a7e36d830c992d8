import Restaking.Proofs.HexTexts
import Restaking.Proofs.Orders
import Restaking.Proofs.Paging
import Restaking.Proofs.Registrations

/-!
# Lists of delegations and providers

The two lists that the registry gives out page by page are complete, and nothing comes twice.

* The delegations, or the active ones among them, come in the order of their hashes. A reader goes
  on after the hash that the last delegation bears as its own, which is the hash that it is stored
  under. By this hash, in either letter case, every delegation can be asked for (`stakes_paged`).
* The providers of a consumer come in the order of their keys. A page after any text at all, whether
  it is a key or not, has the first providers whose keys are greater (`providers_paged`).

Both orders are orders of bytes. In each case the entries are kept in the order of their keys, and
what a reader has in hand of an entry leads back to its key, because of what the registry guarantees
of all that it stores (`stakingTx_of_stored`, `id_of_mem_providerEntries`). So the page after an entry
begins right behind it (`serves_stakes`, `serves_providers`).
-/

namespace Restaking

theorem names_iff {text : String} {hash : TxHash} : Names text hash ↔ text.toLower = hash.text :=
  Hex.decode_eq_ok_iff

theorem names_text (hash : TxHash) : Names hash.text hash :=
  names_iff.2 (Hex.toLower_encode hash.bytes)

theorem TxHash.compare_lt_iff {hash hash' : TxHash} :
    compare hash hash' = .lt ↔ hash.bytes < hash'.bytes := compare_lt_iff_lt

/-- The providers of one consumer are ordered as the bytes of their keys. -/
theorem ProviderId.compare_lt_iff {id id' : ProviderId} (h : id.consumer = id'.consumer) :
    compare id id' = .lt ↔ compare id.key id'.key = .lt := by
  have hsame : compare id.consumer id'.consumer = .eq := Std.LawfulEqCmp.compare_eq_iff_eq.2 h
  show (compare id.consumer id'.consumer).then (compare id.key id'.key) = .lt ↔ _
  rw [hsame]
  rfl

/-- The delegations on a page, if an answer is one. -/
def Answer.stakeList : Answer → List Stake
  | .stakes page => page.stakes
  | _ => []

/-- The providers on a page, if an answer is one. -/
def Answer.providerList : Answer → List Provider
  | .providers page => page.providers
  | _ => []

namespace Registry

variable {r : Registry}

/-! ## Delegations -/

/-- The stored delegations, or the active ones among them, with their hashes. -/
def stakeEntries (r : Registry) (activeOnly : Bool) : List (TxHash × Stake) :=
  r.stakes.entries.filter fun e => !activeOnly || e.2.isActive

/-- The page of delegations that a reader gets. -/
def fetchStakes (r : Registry) (activeOnly : Option Bool) (after : Option String)
    (limit : Option UInt32) : Except RegistryError (List Stake) :=
  Answer.stakeList <$> r.query (.stakes after limit activeOnly)

theorem mem_stakeEntries {activeOnly : Bool} {hash : TxHash} {s : Stake} :
    (hash, s) ∈ r.stakeEntries activeOnly ↔
      r.stakes.get? hash = some s ∧ (activeOnly = true → s.stage = .active) := by
  unfold stakeEntries
  rw [List.mem_filter, Table.get?_eq_some_iff]
  cases activeOnly <;> simp [Stake.isActive]

theorem sorted_stakeEntries (activeOnly : Bool) : Table.Sorted (r.stakeEntries activeOnly) :=
  List.Pairwise.filter _ r.stakes.sorted

theorem stakePage_first (limit : Option UInt32) (activeOnly : Bool) :
    (r.stakePage none limit activeOnly).stakes =
      ((r.stakeEntries activeOnly).map (·.2)).take (pageSize limit) := by
  unfold stakePage Table.above
  dsimp only
  rw [List.filter_map]
  rfl

/-- Active delegations are picked before a page is cut, so a page has the first of them. -/
theorem stakePage_next (hash : TxHash) (limit : Option UInt32) (activeOnly : Bool) :
    (r.stakePage (some hash) limit activeOnly).stakes =
      (((r.stakeEntries activeOnly).filter fun e => compare hash e.1 = .lt).map (·.2)).take
        (pageSize limit) := by
  unfold stakePage Table.above
  dsimp only
  rw [List.filter_map, List.filter_comm]
  rfl

theorem query_stakes (after : Option String) (limit : Option UInt32) (activeOnly : Option Bool) :
    r.query (.stakes after limit activeOnly) = (do
      let after ← after.mapM Draft.hashOfText
      return .stakes (r.stakePage after limit (activeOnly.getD false))) := rfl

theorem fetchStakes_first (activeOnly : Option Bool) (limit : Option UInt32) :
    r.fetchStakes activeOnly none limit =
      .ok (((r.stakeEntries (activeOnly.getD false)).map (·.2)).take (pageSize limit)) := by
  unfold fetchStakes
  rw [query_stakes, ← stakePage_first]
  rfl

theorem fetchStakes_next {text : String} {hash : TxHash} (h : Names text hash)
    (activeOnly : Option Bool) (limit : Option UInt32) :
    r.fetchStakes activeOnly (some text) limit =
      .ok ((((r.stakeEntries (activeOnly.getD false)).filter fun e => compare hash e.1 = .lt).map
        (·.2)).take (pageSize limit)) := by
  unfold fetchStakes
  rw [query_stakes, Option.mapM_some, hashOfText_eq_ok.2 h, ← stakePage_next]
  rfl

/-- The query for a single delegation finds it by its hash. -/
theorem query_stake {text : String} {hash : TxHash} {s : Stake} (h : Names text hash)
    (hs : r.stakes.get? hash = some s) : r.query (.stake text) = .ok (.stake s) := by
  have hanswer : r.stakeAnswer text = .ok s := by
    unfold stakeAnswer
    rw [hashOfText_eq_ok.2 h, ok_bind, hs]
    rfl
  show (r.stakeAnswer text >>= fun s => .ok (Answer.stake s)) = _
  rw [hanswer, ok_bind]

/-- A delegation bears the hash that it is stored under. -/
theorem stakingTx_of_stored [AddressHost] (h : r.Reachable) {hash : TxHash} {s : Stake}
    (hs : r.stakes.get? hash = some s) : s.id.stakingTx = hash.text :=
  (h.sound hash s hs).stakingTx

theorem serves_stakes [AddressHost] (h : r.Reachable) (activeOnly : Option Bool) :
    Serves (r.fetchStakes activeOnly) (fun s => s.id.stakingTx)
      ((r.stakeEntries (activeOnly.getD false)).map (·.2)) := by
  refine .of_sorted (sorted_stakeEntries _) (fetchStakes_first activeOnly) ?_
  rintro ⟨hash, s⟩ he limit
  have hnames : Names s.id.stakingTx hash := by
    rw [stakingTx_of_stored h (mem_stakeEntries.1 he).1]
    exact names_text hash
  exact fetchStakes_next hnames activeOnly limit

/-- In every reachable registry the delegations can be read page by page. A reader who starts at the
beginning and goes on after the hash of the last delegation gets all of them, or all that are
active, each of them once and in the order of the hashes. And each of them can be asked for by its
hash, in either letter case. -/
theorem stakes_paged [AddressHost] (h : r.Reachable) (activeOnly : Option Bool) :
    (∀ hash s, (hash, s) ∈ r.stakeEntries (activeOnly.getD false) ↔
        r.stakes.get? hash = some s ∧ (activeOnly = some true → s.stage = .active)) ∧
      (r.stakeEntries (activeOnly.getD false)).Pairwise (fun e e' => e.1.bytes < e'.1.bytes) ∧
      (∀ limits, (∀ limit ∈ limits, limit ≠ some 0) →
        ∃ pages, walk (r.fetchStakes activeOnly) (fun s => s.id.stakingTx) none limits = .ok pages ∧
          Covers ((r.stakeEntries (activeOnly.getD false)).map (·.2)) limits pages) ∧
      ∀ hash s, r.stakes.get? hash = some s → s.id.stakingTx = hash.text ∧
        ∀ text : String, text.toLower = s.id.stakingTx →
          r.query (.stake text) = .ok (.stake s) := by
  refine ⟨fun hash s => ?_, ?_, fun limits hlimits => ?_, fun hash s hs => ?_⟩
  · rw [mem_stakeEntries]
    cases activeOnly <;> simp
  · exact (sorted_stakeEntries _).imp TxHash.compare_lt_iff.1
  · exact (serves_stakes h activeOnly).walk hlimits
  · have htext := stakingTx_of_stored h hs
    refine ⟨htext, fun text ht => ?_⟩
    rw [htext] at ht
    exact query_stake (names_iff.2 ht) hs

/-! ## Providers -/

/-- The providers of a consumer, with their ids. -/
def providerEntries (r : Registry) (consumer : String) : List (ProviderId × Provider) :=
  r.providers.entries.filter fun e => e.1.consumer = consumer

/-- The page of providers that a reader gets. -/
def fetchProviders (r : Registry) (consumer : String) (after : Option String)
    (limit : Option UInt32) : Except RegistryError (List Provider) :=
  Answer.providerList <$> r.query (.providers consumer after limit)

theorem mem_providerEntries {consumer : String} {id : ProviderId} {q : Provider} :
    (id, q) ∈ r.providerEntries consumer ↔
      id.consumer = consumer ∧ r.providers.get? id = some q := by
  unfold providerEntries
  rw [List.mem_filter, Table.get?_eq_some_iff, decide_eq_true_iff, and_comm]

theorem sorted_providerEntries (consumer : String) : Table.Sorted (r.providerEntries consumer) :=
  List.Pairwise.filter _ r.providers.sorted

/-- Every provider on the list of a consumer bears the id that it is stored under. -/
theorem id_of_mem_providerEntries [AddressHost] (h : r.Reachable) {consumer : String}
    {e : ProviderId × Provider}
    (he : e ∈ r.providerEntries consumer) : e.2.id = e.1 ∧ e.1.consumer = consumer := by
  obtain ⟨id, q⟩ := e
  obtain ⟨hconsumer, hq⟩ := mem_providerEntries.1 he
  exact ⟨(h.registers id q hq).1, hconsumer⟩

/-- The list of a consumer is in the order of the keys. -/
theorem compare_ids_lt_iff [AddressHost] (h : r.Reachable) {consumer : String}
    {e e' : ProviderId × Provider}
    (he : e ∈ r.providerEntries consumer) (he' : e' ∈ r.providerEntries consumer) :
    compare e.1 e'.1 = .lt ↔ Utf8.encode e.2.key < Utf8.encode e'.2.key := by
  obtain ⟨hid, hconsumer⟩ := id_of_mem_providerEntries h he
  obtain ⟨hid', hconsumer'⟩ := id_of_mem_providerEntries h he'
  rw [ProviderId.compare_lt_iff (hconsumer.trans hconsumer'.symm), ← hid, ← hid']
  exact Utf8.compare_lt_iff_encode_lt

theorem query_providers (consumer : String) (after : Option String) (limit : Option UInt32) :
    r.query (.providers consumer after limit) =
      .ok (.providers (r.providerPage consumer after limit)) := rfl

theorem providerPage_first (consumer : String) (limit : Option UInt32) :
    (r.providerPage consumer none limit).providers =
      ((r.providerEntries consumer).map (·.2)).take (pageSize limit) := by
  unfold providerPage providerEntries
  simp

/-- A page after a text, which need not be a key. -/
theorem providerPage_next [AddressHost] (h : r.Reachable) (consumer text : String)
    (limit : Option UInt32) :
    (r.providerPage consumer (some text) limit).providers =
      (((r.providerEntries consumer).filter fun e =>
        Utf8.encode text < Utf8.encode e.2.key).map (·.2)).take (pageSize limit) := by
  -- the registry compares with the keys of ids, and each provider bears the key of its own id
  have hkeys : (r.providerEntries consumer).filter (fun e =>
      Utf8.encode text < Utf8.encode e.2.key) =
        (r.providerEntries consumer).filter fun e => compare text e.1.key = .lt := by
    refine List.filter_congr fun e he => decide_eq_decide.2 ?_
    rw [← (id_of_mem_providerEntries h he).1]
    exact Utf8.compare_lt_iff_encode_lt.symm
  rw [hkeys]
  unfold providerPage providerEntries
  rw [List.filter_comm, List.filter_filter]
  simp

theorem serves_providers [AddressHost] (h : r.Reachable) (consumer : String) :
    Serves (r.fetchProviders consumer) Provider.key ((r.providerEntries consumer).map (·.2)) := by
  refine .of_sorted (sorted_providerEntries consumer) (fun limit => ?_) fun e he limit => ?_
  · exact congrArg Except.ok (providerPage_first consumer limit)
  · have habove : (r.providerEntries consumer).filter (fun e' => compare e.1 e'.1 = .lt) =
        (r.providerEntries consumer).filter fun e' =>
          Utf8.encode e.2.key < Utf8.encode e'.2.key :=
      List.filter_congr fun e' he' => decide_eq_decide.2 (compare_ids_lt_iff h he he')
    rw [habove]
    exact congrArg Except.ok (providerPage_next h consumer e.2.key limit)

end Registry

/-! ## Lists with several entries -/

attribute [local instance] Address.Host.rules

namespace Sample

/-- The delegation on another staking transaction. -/
def staking (tx : Bytes) : Wire.Delegation := { delegation with stakingTx := tx }

/-- The registration of another key for another consumer. -/
def registering (byte : UInt8) (consumer : String) : Registration :=
  { registration with key := key byte, consumer }

/-- The registry after two delegations, one of which is slashed. -/
def staked : Registry :=
  registry.after (.execute owner
    (.relay ⟨[], [staking [1], staking [2]], [⟨lowercaseHash, "01"⟩], []⟩))

theorem reachable_staked : staked.Reachable := reachable.call _

/-- The registry after the registration of two providers for one consumer, and of one for another
consumer whose name begins in the same way. -/
def announced : Registry :=
  registry.after (.execute owner
    (.relay ⟨[registering 7 "osmosis-1", registering 5 "osmosis-10", registering 3 "osmosis-1"],
      [], [], []⟩))

theorem reachable_announced : announced.Reachable := reachable.call _

end Sample

namespace Registry

/-- One of the delegations is active. It is read on one page, and an empty page follows. The slashed
one can still be asked for. -/
theorem stakes_paged_staked :
    (∃ pages, walk (Sample.staked.fetchStakes (some true)) (fun s => s.id.stakingTx) none
        [some 1, none] = .ok pages ∧
      pages.flatten = (Sample.staked.stakeEntries true).map (·.2) ∧ pages.flatten.length = 1) ∧
      Sample.staked.query (.stake Sample.uppercaseHash) =
        .ok (.stake (.slashed (Delegation.id Sample.admitted))) := by
  have hstored : (Sample.staked.stakeEntries true).length = 1 ∧
      Sample.staked.stakes.get? (Delegation.hash Sample.admitted) =
        some (.slashed (Delegation.id Sample.admitted)) := by decide +kernel
  have hnames : Names Sample.uppercaseHash (Delegation.hash Sample.admitted) := by decide +kernel
  obtain ⟨hlength, hslashed⟩ := hstored
  obtain ⟨_, _, hwalk, hquery⟩ := stakes_paged Sample.reachable_staked (some true)
  obtain ⟨pages, hpages, hcovers⟩ := hwalk [some 1, none] (by simp)
  have hlength : ((Sample.staked.stakeEntries true).map (·.2)).length = 1 := by
    rw [List.length_map, hlength]
  have hempty : pages.getLast? = some [] :=
    hcovers.ends (Nat.lt_of_le_of_lt hlength.le (by decide))
  have hall : pages.flatten = (Sample.staked.stakeEntries true).map (·.2) :=
    hcovers.complete (List.mem_of_getLast? hempty)
  obtain ⟨htext, hquery⟩ := hquery _ _ hslashed
  refine ⟨⟨pages, hpages, hall, by rw [hall, hlength]⟩, hquery _ ?_⟩
  rw [htext]
  exact names_iff.1 hnames

end Registry

end Restaking
