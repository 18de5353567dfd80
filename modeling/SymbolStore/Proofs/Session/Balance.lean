import SymbolStore.Proofs.Session.Closing
import SymbolStore.Proofs.Session.History

/-!
The counters of a tracked manager are those of the blocks of the structures on it and of the blocks
that the client asked for itself, after every request.
-/

namespace SymbolStore

open SymbolStore.Action (Ends)

variable {K V : Type}

namespace Structure

def blockCount : Structure K V → Nat
  | .holder _ => 0
  | .array _ => 1
  | .region inner => inner.usage.chunkCount
  | .interner inner => 1 + inner.region.usage.chunkCount
  | .dictionary inner => 1 + inner.count

def byteCount : Structure K V → Nat
  | .holder _ => 0
  | .array inner => inner.element.size * inner.length
  | .region inner => inner.usage.totalCapacity
  | .interner inner => 16 * inner.capacity + inner.region.usage.totalCapacity
  | .dictionary inner => 16 * inner.capacity + inner.node.size * inner.count

variable {object : Structure K V} {process : Process} {account : Account}

theorem card_chunks (region : Region) : region.holdings.card = region.usage.chunkCount := by
  rw [Region.holdings, Multiset.card_map, Multiset.coe_card]
  rfl

theorem bytes_chunks (region : Region) :
    (region.holdings.map Extent.size).sum = region.usage.totalCapacity := by
  rw [Region.holdings, Multiset.map_map, Multiset.map_coe, Multiset.sum_coe]
  rfl

theorem card_holdings (stocked : object.Stocked process account) :
    object.holdings.card = object.blockCount := by
  cases object with
  | holder | array => rfl
  | region region => exact card_chunks region
  | interner interner =>
      show (_ ::ₘ interner.region.holdings).card = 1 + _
      rw [Multiset.card_cons, card_chunks, Nat.add_comm]
  | dictionary dictionary =>
      have count := Dictionary.Stocked.count stocked
      show dictionary.holdings.card = 1 + dictionary.count
      rw [Dictionary.holdings, Multiset.card_cons, Multiset.card_map, Multiset.coe_card, Nat.add_comm, count,
        Dictionary.blocks, List.length_map]
      rfl

theorem bytes_holdings (stocked : object.Stocked process account) :
    (object.holdings.map Extent.size).sum = object.byteCount := by
  cases object with
  | holder => rfl
  | array array => exact Multiset.sum_singleton _
  | region region => exact bytes_chunks region
  | interner interner =>
      show ((_ ::ₘ interner.region.holdings).map Extent.size).sum = 16 * interner.capacity + _
      rw [Multiset.map_cons, Multiset.sum_cons, bytes_chunks]
      rfl
  | dictionary dictionary =>
      have count := Dictionary.Stocked.count stocked
      show (dictionary.holdings.map Extent.size).sum = 16 * dictionary.capacity + _
      rw [Dictionary.holdings, Multiset.map_cons, Multiset.sum_cons, Multiset.map_map, Multiset.map_coe,
        Multiset.sum_coe]
      show 16 * _ + (dictionary.blocks.map fun _ => dictionary.node.size).sum = _
      rw [List.map_const', List.sum_replicate_nat, Dictionary.blocks, List.length_map,
        count, Nat.mul_comm dictionary.node.size]
      rfl

end Structure

namespace Session

variable {session : Session K V} {direct : Multiset Extent}

def on (session : Session K V) (manager : Manager) : Multiset (Structure K V) :=
  session.structures.filter fun object => object.manager = manager

/-- What a tracked manager counts are the blocks of the client and those of the structures on it. -/
structure Accords (session : Session K V) (direct : Multiset Extent) : Prop where
  blocks : ∀ manager : Manager, (manager.ledgerIn session.process).isTracked = true →
    (manager.ledgerIn session.process).counters.liveBlocks =
      (direct.filter fun extent => extent.manager = manager).card +
        ((session.on manager).map Structure.blockCount).sum
  bytes : ∀ manager : Manager, (manager.ledgerIn session.process).isTracked = true →
    (manager.ledgerIn session.process).counters.liveBytes =
      ((direct.filter fun extent => extent.manager = manager).map Extent.size).sum +
        ((session.on manager).map Structure.byteCount).sum

theorem Arranged.filter_holdings {process : Process} {symbols : Names Symbol}
    {structures : Multiset (Structure K V)} (arranged : Arranged process symbols direct structures)
    (manager : Manager) :
    ((structures.map Structure.holdings).sum.filter fun extent => extent.manager = manager) =
      ((structures.filter fun object => object.manager = manager).map Structure.holdings).sum := by
  have owners : ∀ object ∈ structures, ∀ extent ∈ object.holdings,
      extent.manager = object.manager := by
    intro object member extent inside
    obtain ⟨account, stocked⟩ := arranged.stocked member
    exact Structure.manager_of_mem_holdings stocked inside
  clear arranged
  induction structures using Multiset.induction with
  | empty => rfl
  | cons object others ih =>
      have rest := ih fun other member => owners other (Multiset.mem_cons_of_mem member)
      have own := owners object (Multiset.mem_cons_self object others)
      rw [holdings_cons, Multiset.filter_add, rest, Multiset.filter_cons]
      by_cases here : object.manager = manager
      · rw [if_pos here, Multiset.singleton_add, holdings_cons, Multiset.filter_eq_self.mpr]
        intro extent inside
        rw [own extent inside, here]
      · rw [if_neg here, zero_add, Multiset.filter_eq_nil.mpr, zero_add]
        intro extent inside
        rw [own extent inside]
        exact here

theorem measure_holdings {structures : Multiset (Structure K V)} (measure : Multiset Extent →+ Nat)
    {count : Structure K V → Nat}
    (same : ∀ object ∈ structures, measure object.holdings = count object) :
    measure (structures.map Structure.holdings).sum = (structures.map count).sum := by
  rw [map_multiset_sum, Multiset.map_map]
  exact congrArg Multiset.sum (Multiset.map_congr rfl same)

theorem Settled.accords (settled : session.Settled direct) : session.Accords direct := by
  have stocked (manager : Manager) : ∀ object ∈ session.on manager, ∃ account,
      object.Stocked session.process account :=
    fun object member => settled.stocked (Multiset.mem_of_mem_filter member)
  constructor
  · intro manager tracked
    have counted := measure_holdings Multiset.cardHom fun object member =>
      (stocked manager object member).elim fun _ stocked => Structure.card_holdings stocked
    change Multiset.card _ = _ at counted
    rw [settled.houses.liveBlocks_eq tracked]
    change (Multiset.filter _ (_ + 0)).card = _
    rw [add_zero, Multiset.filter_add, settled.filter_holdings, Multiset.card_add, Nat.add_comm]
    exact congrArg (_ + ·) counted
  · intro manager tracked
    have counted := measure_holdings
      (Multiset.sumAddMonoidHom.comp (Multiset.mapAddMonoidHom Extent.size))
      fun object member => (stocked manager object member).elim fun _ stocked =>
        Structure.bytes_holdings stocked
    change (Multiset.map Extent.size _).sum = _ at counted
    rw [settled.houses.liveBytes_eq tracked]
    change ((Multiset.filter _ (_ + 0)).map Extent.size).sum = _
    rw [add_zero, Multiset.filter_add, settled.filter_holdings, Multiset.map_add, Multiset.sum_add,
      Nat.add_comm]
    exact congrArg (_ + ·) counted

end Session

/-- What holds after a request in a run: the counters are right, nobody was blamed for a block of a
structure, every manager that ended with blocks of the client was warned of, and it will be so when
everything goes. -/
structure Event.Balanced (event : Event K V) : Prop where
  accords : event.after.Accords event.claimed
  blameless : event.Blameless
  warned : ∃ ended, event.before.process.Warns event.after.process event.direct ended
  closes : Ends Session.close event.after
    (fun _ final => final.structures = 0 ∧ final.Accords event.claimed ∧
      ∃ ended, event.after.process.Warns final.process event.claimed ended)
    fun _ _ => False

theorem Event.Lawful.balanced {event : Event K V} (lawful : event.Lawful) : event.Balanced where
  accords := lawful.follows.settled.accords
  blameless := lawful.blameless
  warned := lawful.follows.warned
  closes := lawful.follows.settled.closes.mono
    (fun _ _ ends => ⟨ends.1, ends.2.1.accords, ends.2.2.warned⟩) fun _ _ none => none

namespace Session

/-- In every run from the start, whatever the allocator decides and whichever requests fail, a
tracked manager counts the blocks of the structures on it and those of the client, and no others,
after every request. No structure gives a block back twice or one that it does not have. A manager
that ends warns exactly of the blocks that the client left. -/
theorem history_balanced {allocator : Allocator} (lawful : allocator.Lawful) (journal : Journal)
    (config : Config) (commands : List (Command K V))
    (proper : ∀ event ∈ (start journal config allocator).history 0 commands,
      event.before.Proper event.command) :
    ∀ event ∈ (start journal config allocator).history 0 commands, event.Balanced :=
  fun event member =>
    (((settled_start lawful journal config).runs proper).lawful event member).balanced

/-- A run in which an array grows, structures of every kind come and go, and a block is left. -/
def sampleRun : List (Command Nat Nat) :=
  [.createManager "m" .tracked, .allocate "m" "b" ⟨24, 8⟩, .allocate "m" "c" ⟨8, 8⟩,
    .createArray "a" "m" ⟨4, 4⟩ 2 [1], .resizeArray "a" 5 [2], .createRegion "r" (some "m") 256,
    .storeBytes "r" [1, 2, 3] (some "h"), .free "m" "b", .resetRegion "r",
    .createInterner "i" (some "m") 4 ⟨8, 8⟩ fun _ => 0, .insert "i" [1] [5] (some "s"),
    .createDictionary "d" (some "m") 4 ⟨fun _ => 0, (· == ·)⟩ ⟨32, 8⟩, .setKey "d" 1 2,
    .removeKey "d" 1, .free "m" "b", .dropRegion "r", .dropInterner "i", .dropManager "m",
    .dropDictionary "d", .dropArray "a"]

theorem sampleRun_balanced :
    (∀ event ∈ (start {} {} .ascending).history 0 sampleRun, event.before.Proper event.command) ∧
      ∀ event ∈ (start {} {} .ascending).history 0 sampleRun, event.Balanced := by
  have proper : ∀ event ∈ (start {} {} .ascending).history 0 sampleRun,
      event.before.Proper event.command := by decide +kernel
  exact ⟨proper, history_balanced Allocator.ascending_lawful {} {} sampleRun proper⟩

end Session

end SymbolStore
