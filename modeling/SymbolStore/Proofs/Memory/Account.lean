import Mathlib.Data.Multiset.Filter
import SymbolStore.Proofs.Memory.Manager

/-!
Whole accounts of a process: every live block with its owner, every holder of a manager, and what
was printed as a warning. An operation is described by what becomes of the blocks that it works on;
all other blocks are kept, byte for byte.
-/

namespace SymbolStore

open SymbolStore.Action (Ends)

/-- A multiset whose image is a sum is a sum itself. -/
theorem exists_add_of_map_eq {α β : Type} {f : α → β} {whole : Multiset α} {first second : Multiset β}
    (image : whole.map f = first + second) :
    ∃ front back, whole = front + back ∧ front.map f = first ∧ back.map f = second := by
  induction first using Multiset.induction generalizing whole with
  | empty => exact ⟨0, whole, (zero_add whole).symm, rfl, by simpa using image⟩
  | cons b rest ih =>
      rw [Multiset.cons_add] at image
      have member : b ∈ whole.map f := image ▸ Multiset.mem_cons_self b _
      obtain ⟨a, there, rfl⟩ := Multiset.mem_map.mp member
      obtain ⟨others, rfl⟩ := Multiset.exists_cons_of_mem there
      rw [Multiset.map_cons, Multiset.cons_inj_right] at image
      obtain ⟨front, back, rfl, rfl, rfl⟩ := ih image
      exact ⟨a ::ₘ front, back, (Multiset.cons_add a front back).symm, Multiset.map_cons f a front,
        rfl⟩

/-- A failure that says that a block was given back or resized by someone who does not have it. -/
def Failure.isMisuse : Failure → Bool
  | .fault (.unownedBlock ..) => true
  | .fault (.sizeMismatch ..) => true
  | .refused .undefinedUnderRaw => true
  | .refused .wrongLayout => true
  | _ => false

namespace Word

variable {a b : Nat} {cause : Fault}

/-! An overflow is nobody's misuse of a block. -/

theorem isMisuse_add (failed : add a b = .error cause) : (Failure.fault cause).isMisuse = false := by
  rw [add] at failed
  split at failed <;> cases failed
  rfl

theorem isMisuse_subtract (failed : subtract a b = .error cause) :
    (Failure.fault cause).isMisuse = false := by
  rw [subtract] at failed
  split at failed <;> cases failed
  rfl

end Word

def Heap.Powers (heap : Heap) : Prop :=
  ∀ a block, heap.find? a = some block → isPowerOfTwo block.align = true

namespace Heap

variable {heap : Heap}

theorem Powers.of_new {after : Heap} {block : Block} (powers : heap.Powers)
    (power : isPowerOfTwo block.align = true)
    (old : ∀ a other, after.find? a = some other → other = block ∨ heap.find? a = some other) :
    after.Powers := by
  intro a other found
  rcases old a other found with rfl | there
  · exact power
  · exact powers a other there

theorem powers_placed {payload : Layout} (powers : heap.Powers) (address : Nat)
    (words : payload.size < wordLimit ∧ payload.align < wordLimit)
    (power : isPowerOfTwo payload.align = true) : (heap.placed address payload).Powers := by
  apply powers.of_new (Block.align_fresh words ▸ power)
  intro a other found
  rw [find?_placed] at found
  split at found
  · exact .inl (Option.some.inj found).symm
  · exact .inr found

theorem powers_handed {payload : Layout} (powers : heap.Powers) (address owner : Nat)
    (words : payload.size < wordLimit ∧ payload.align < wordLimit)
    (power : isPowerOfTwo payload.align = true) : (heap.handed address payload owner).Powers := by
  apply powers.of_new (Block.align_issued words owner ▸ power)
  intro a other found
  rw [find?_handed] at found
  split at found
  · exact .inl (Option.some.inj found).symm
  · exact .inr found

theorem powers_moved {address size : Nat} {block : Block} (powers : heap.Powers) (newAddress : Nat)
    (word : size < wordLimit) (found : heap.find? address = some block) :
    (heap.moved address newAddress block size).Powers := by
  have power : isPowerOfTwo (block.resize size).align = true := by
    rw [Block.align_resize word]
    exact powers address block found
  apply powers.of_new power
  intro a other found
  rw [find?_moved] at found
  split at found
  · exact .inl (Option.some.inj found).symm
  · split at found
    · cases found
    · exact .inr found

theorem powers_erase (powers : heap.Powers) (address : Nat) : (heap.erase address).Powers := by
  intro a other found
  rw [find?_erase] at found
  split at found
  · cases found
  · exact powers a other found

theorem powers_write (powers : heap.Powers) (pointer : Pointer) (values : List UInt8) :
    (heap.write pointer values).Powers := by
  intro a other found
  obtain ⟨before, present, -, align, -⟩ := find?_write_some found
  rw [align]
  exact powers a before present

end Heap

structure Extent where
  manager : Manager
  address : Nat
  size : Nat
  deriving DecidableEq, Repr

def Extent.of (entry : Nat × Block) : Extent :=
  { manager := ⟨entry.2.keeper⟩, address := entry.1, size := entry.2.size }

/-- What there is in a process besides the blocks under consideration. -/
structure Account where
  /-- Every holder of a manager, once for each time that it holds it. -/
  holders : Multiset Manager := 0
  /-- The other blocks, with their addresses and their bytes. -/
  kept : Multiset (Nat × Block) := 0
  config : Manager → Config
  level : Level
  warnings : List Printed
  nextRegion : Nat

namespace Account

def extents (account : Account) : Multiset Extent := account.kept.map Extent.of

def leakText (left : Multiset Extent) : String :=
  s!"memory manager dropped with {left.card} live blocks ({(left.map Extent.size).sum} bytes)"

def leak (account : Account) (manager : Manager) : List Printed :=
  let left := account.extents.filter fun extent => extent.manager = manager
  if (account.config manager).strategy = .tracked ∧ left ≠ 0 ∧
      Level.warn.rank ≤ account.level.rank then
    [.message .warn Origin.manager.target (leakText left)]
  else []

def joined (account : Account) (manager : Manager) : Account :=
  { account with holders := manager ::ₘ account.holders }

/-- The account when a holder has gone, who is not counted in it. With the last one the manager
ended. -/
def parted (account : Account) (manager : Manager) : Account :=
  if manager ∈ account.holders then account
  else { account with warnings := account.warnings ++ account.leak manager }

section Parted

variable (account : Account) (manager : Manager)

@[simp] theorem holders_parted : (account.parted manager).holders = account.holders := by
  unfold parted
  split <;> rfl

@[simp] theorem kept_parted : (account.parted manager).kept = account.kept := by
  unfold parted
  split <;> rfl

@[simp] theorem config_parted : (account.parted manager).config = account.config := by
  unfold parted
  split <;> rfl

@[simp] theorem level_parted : (account.parted manager).level = account.level := by
  unfold parted
  split <;> rfl

@[simp] theorem nextRegion_parted : (account.parted manager).nextRegion = account.nextRegion := by
  unfold parted
  split <;> rfl

theorem warnings_parted : (account.parted manager).warnings =
    account.warnings ++ if manager ∈ account.holders then [] else account.leak manager := by
  unfold parted
  split
  · exact (List.append_nil _).symm
  · rfl

end Parted

/-- No warning is due where the manager is held, or has no blocks. -/
theorem parted_eq {account : Account} {manager : Manager} (quiet : manager ∈ account.holders ∨
    ∀ extent ∈ account.extents, extent.manager ≠ manager) : account.parted manager = account := by
  unfold parted
  split
  · rfl
  · rename_i last
    have nothing : account.leak manager = [] := by
      rw [leak, if_neg]
      intro all
      exact all.2.1 (Multiset.filter_eq_nil.mpr (quiet.resolve_left last))
    rw [nothing, List.append_nil]

def numbered (account : Account) : Account :=
  { account with nextRegion := account.nextRegion + 1 }

def created (account : Account) (manager : Manager) (config : Config) : Account :=
  { account.joined manager with
    config := fun other => if other = manager then config else account.config other }

end Account

/-- The process is in order, these are all its blocks that anybody has, and it is in accordance with
the rest of the account. -/
structure Process.Settled (process : Process) (account : Account)
    (blocks : Multiset (Nat × Block)) : Prop where
  sound : process.Sound
  powers : process.heap.Powers
  distinct : (blocks.map Prod.fst).Nodup
  present : ∀ entry ∈ blocks, process.heap.find? entry.1 = some entry.2
  held : ∀ entry ∈ blocks, Manager.Holds ⟨entry.2.keeper⟩ process entry.1 entry.2.size
  issued : ∀ entry ∈ blocks, entry.2.keeper < process.nextManager
  /-- A manager has handed out no blocks but these. -/
  listed : ∀ (manager : Manager) a size, (manager.ledgerIn process).isTracked = true →
    (manager.ledgerIn process).Lists manager.id process.heap a size →
      ∃ entry ∈ blocks, Extent.of entry = { manager, address := a, size }
  idle : ∀ manager : Manager, (manager.ledgerIn process).isTracked = false →
    (manager.ledgerIn process).counters.liveBlocks = 0
  holders : ∀ manager : Manager,
    (manager.ledgerIn process).holders = account.holders.count manager
  config : ∀ manager ∈ account.holders,
    (manager.ledgerIn process).config = account.config manager
  known : ∀ manager ∈ account.holders, manager.id < process.nextManager
  level : process.journal.level = account.level
  warnings : process.journal.warnings = account.warnings
  nextRegion : process.nextRegion = account.nextRegion

namespace Process

variable {process after : Process} {account : Account} {blocks : Multiset (Nat × Block)}
  {manager : Manager} {heap : Heap} {ledger : Ledger}

namespace Settled

variable (settled : process.Settled account blocks)
include settled

theorem ledger_blocks (tracked : (manager.ledgerIn process).isTracked = true) :
    ((manager.ledgerIn process).owned manager.id process.heap).val =
      ((blocks.map Extent.of).filter fun extent => extent.manager = manager).map
        fun extent => (extent.address, extent.size) := by
  have addresses : (((blocks.map Extent.of).filter fun extent => extent.manager = manager).map
      Extent.address).Nodup := by
    have whole : ((blocks.map Extent.of).map Extent.address).Nodup := by
      rw [Multiset.map_map]
      exact settled.distinct
    exact Multiset.nodup_of_le (Multiset.map_le_map (Multiset.filter_le _ _)) whole
  have distinct : (((blocks.map Extent.of).filter fun extent => extent.manager = manager).map
      fun extent => (extent.address, extent.size)).Nodup := by
    apply Multiset.Nodup.of_map Prod.fst
    rw [Multiset.map_map]
    exact addresses
  apply (Multiset.Nodup.ext (Finset.nodup _) distinct).mpr
  intro entry
  obtain ⟨a, size⟩ := entry
  rw [Finset.mem_val, Ledger.mem_owned, Multiset.mem_map]
  constructor
  · intro lists
    obtain ⟨entry, member, extent⟩ := settled.listed manager a size tracked lists
    refine ⟨{ manager, address := a, size }, ?_, rfl⟩
    rw [Multiset.mem_filter, Multiset.mem_map]
    exact ⟨⟨entry, member, extent⟩, rfl⟩
  · intro member
    obtain ⟨extent, member, same⟩ := member
    rw [Multiset.mem_filter, Multiset.mem_map] at member
    obtain ⟨⟨entry, there, rfl⟩, rfl⟩ := member
    cases same
    exact (settled.held entry there).lists tracked

theorem liveBlocks_eq (tracked : (manager.ledgerIn process).isTracked = true) :
    (manager.ledgerIn process).counters.liveBlocks =
      ((blocks.map Extent.of).filter fun extent => extent.manager = manager).card := by
  rw [(settled.sound.ledgers manager tracked).count, Finset.card,
    settled.ledger_blocks tracked, Multiset.card_map]

theorem liveBytes_eq (tracked : (manager.ledgerIn process).isTracked = true) :
    (manager.ledgerIn process).counters.liveBytes =
      (((blocks.map Extent.of).filter fun extent => extent.manager = manager).map
        Extent.size).sum := by
  rw [(settled.sound.ledgers manager tracked).bytes, Finset.sum,
    settled.ledger_blocks tracked, Multiset.map_map]
  rfl

/-- All blocks lie in one address space. -/
theorem bytes_lt : ((blocks.map Extent.of).map Extent.size).sum < wordLimit := by
  have distinct : (blocks.map fun entry => (entry.1, entry.2.size)).Nodup := by
    apply Multiset.Nodup.of_map Prod.fst
    rw [Multiset.map_map]
    exact settled.distinct
  have sum := settled.sound.heap.sum_sizes_lt ⟨_, distinct⟩ (by
    intro entry member
    obtain ⟨block, there, rfl⟩ := Multiset.mem_map.mp (Finset.mem_mk.mp member)
    exact ⟨block.2, settled.present block there, rfl⟩)
  rw [Finset.sum, Multiset.map_map] at sum
  rw [Multiset.map_map]
  exact sum

theorem turned {others : Multiset (Nat × Block)} (turns : process.Turns after manager heap ledger)
    (sound : after.Sound) (powers : heap.Powers)
    (distinct : (others.map Prod.fst).Nodup)
    (present : ∀ entry ∈ others, heap.find? entry.1 = some entry.2)
    (held : ∀ entry ∈ others, Manager.Holds ⟨entry.2.keeper⟩ after entry.1 entry.2.size)
    (issued : ∀ entry ∈ others, entry.2.keeper < process.nextManager)
    (back : ∀ a block owner, heap.find? a = some block → block.owner = some owner →
      owner ≠ manager.id → process.heap.find? a = some block)
    (listed : ledger.isTracked = true → ∀ a size : Nat, ledger.Lists manager.id heap a size →
      ∃ entry ∈ others, Extent.of entry = { manager, address := a, size })
    (foreign : ∀ entry ∈ blocks, entry.2.keeper ≠ manager.id → entry ∈ others)
    (idle : ledger.isTracked = false → ledger.counters.liveBlocks = 0)
    (holders : ledger.holders = (manager.ledgerIn process).holders)
    (config : ledger.config = (manager.ledgerIn process).config) : after.Settled account others := by
  have ledgers := turns.ledgers
  have heapAfter := turns.heap_eq
  obtain ⟨_, rest⟩ := turns.rest
  refine ⟨sound, heapAfter ▸ powers, distinct, heapAfter ▸ present, held, ?_, ?_, ?_, ?_, ?_, ?_,
    ?_, ?_, ?_⟩
  · rw [rest]
    exact issued
  · intro other a size tracked lists
    rw [heapAfter] at lists
    rw [ledgers] at tracked lists
    split at lists
    · rename_i same
      rw [if_pos same] at tracked
      subst same
      exact listed tracked a size lists
    · rename_i different
      rw [if_neg different] at tracked
      obtain ⟨block, found, mine⟩ := lists.owned
      have there : process.heap.find? a = some block :=
        back a block other.id found mine fun same => different (Manager.eq_of_id same.symm)
      obtain ⟨entry, member, extent⟩ := settled.listed other a size tracked
        ⟨lists.recorded, block, there, mine⟩
      refine ⟨entry, foreign entry member ?_, extent⟩
      intro owner
      apply different
      rw [Extent.of, Extent.mk.injEq] at extent
      rw [← extent.1]
      exact Manager.eq_of_id owner.symm
  · intro other raw
    rw [ledgers] at raw ⊢
    split
    · rename_i same
      rw [if_pos same] at raw
      exact idle raw
    · rename_i different
      rw [if_neg different] at raw
      exact settled.idle other raw
  · intro other
    rw [ledgers]
    split
    · rename_i same
      rw [holders, same]
      exact settled.holders other
    · exact settled.holders other
  · intro other member
    rw [ledgers]
    split
    · rename_i same
      rw [config, same]
      exact settled.config other member
    · exact settled.config other member
  · rw [rest]
    exact settled.known
  · rw [rest]
    exact settled.level
  · rw [rest]
    exact settled.warnings
  · rw [rest]
    exact settled.nextRegion

theorem remarked (remarks : process.Remarks after) : after.Settled account blocks := by
  obtain ⟨journal, quiet, rfl⟩ := remarks
  exact
    { settled with
      sound := (evolves_journal settled.sound journal).sound
      held := fun entry member =>
        (evolves_journal settled.sound journal).held _ _ _ List.not_mem_nil
          (settled.held entry member)
      level := quiet.level.trans settled.level
      warnings := quiet.warnings.trans settled.warnings }

theorem not_mem_of_fresh {address : Nat} (fresh : process.heap.find? address = none) :
    address ∉ blocks.map Prod.fst := by
  intro member
  obtain ⟨entry, there, rfl⟩ := Multiset.mem_map.mp member
  rw [settled.present entry there] at fresh
  cases fresh

theorem handedOut {payload : Layout} {address : Nat} (holder : manager ∈ account.holders)
    (handed : manager.HandsOut process after payload address) :
    after.Settled account
      ((address, Block.issued payload manager.id) ::ₘ blocks) := by
  have grants := handed.grants
  have old : ∀ a block, (process.heap.handed address payload manager.id).find? a = some block →
      address ≠ a → process.heap.find? a = some block := by
    intro a block found different
    rwa [Heap.find?_handed, if_neg different] at found
  apply settled.turned handed.turns handed.evolves.sound
  · exact Heap.powers_handed settled.powers address manager.id handed.words handed.power
  · rw [Multiset.map_cons, Multiset.nodup_cons]
    exact ⟨settled.not_mem_of_fresh handed.fresh, settled.distinct⟩
  · intro entry member
    rw [← handed.turns.heap_eq]
    rcases Multiset.mem_cons.mp member with rfl | member
    · exact grants.block
    · exact handed.evolves.blocks _ _ List.not_mem_nil (settled.present entry member)
  · intro entry member
    rcases Multiset.mem_cons.mp member with rfl | member
    · rw [Block.size_issued]
      exact grants.holds
    · exact handed.evolves.held _ _ _ List.not_mem_nil (settled.held entry member)
  · intro entry member
    rcases Multiset.mem_cons.mp member with rfl | member
    · exact settled.known manager holder
    · exact settled.issued entry member
  · intro a block owner found owned foreign
    apply old a block found
    rintro rfl
    rw [Heap.find?_handed, if_pos rfl] at found
    cases found
    exact foreign (Option.some.inj owned).symm
  · intro tracked a size lists
    have recorded := lists.recorded
    rw [Ledger.isTracked_acquired] at tracked
    rw [Ledger.acquired, if_pos tracked, Ledger.live_withBlock] at recorded
    split at recorded
    · rename_i same
      cases recorded
      refine ⟨_, Multiset.mem_cons_self _ _, ?_⟩
      rw [← same, Extent.of, Block.size_issued]
      rfl
    · rename_i different
      obtain ⟨block, found, mine⟩ := lists.owned
      obtain ⟨entry, member, extent⟩ := settled.listed manager a size tracked
        ⟨recorded, block, old a block found different, mine⟩
      exact ⟨entry, Multiset.mem_cons_of_mem member, extent⟩
  · intro entry member _
    exact Multiset.mem_cons_of_mem member
  · intro raw
    rw [Ledger.isTracked_acquired] at raw
    rw [Ledger.acquired, raw]
    exact settled.idle manager raw
  · exact Ledger.holders_acquired _ _ _
  · exact Ledger.config_acquired _ _ _

theorem refused {align : Nat} {failure : Failure}
    (refuses : manager.Refuses process align failure after) :
    failure.isMisuse = false ∧ after.Settled account blocks := by
  rcases refuses with ⟨⟨-, rfl⟩ | ⟨requested, rfl⟩, remarks⟩ |
    ⟨rfl, exhausted, evolves, power, address, size, fresh, word, turns⟩
  · exact ⟨rfl, settled.remarked remarks⟩
  · exact ⟨rfl, settled.remarked remarks⟩
  · have old : ∀ a block, (process.heap.placed address { size, align }).find? a = some block →
        block.owner ≠ none → process.heap.find? a = some block := by
      intro a block found owned
      rw [Heap.find?_placed] at found
      split at found
      · cases found
        exact absurd (Block.owner_fresh _) owned
      · exact found
    have placed : after.heap.find? address = some (Block.fresh { size, align }) := by
      rw [turns.heap_eq, Heap.find?_placed, if_pos rfl]
    have bounded := evolves.sound.heap.bounded _ _ placed
    rw [Block.size_fresh] at bounded
    have short : size < wordLimit := Nat.lt_of_le_of_lt (Nat.le_add_left _ _) bounded
    refine ⟨rfl, settled.turned turns evolves.sound ?_ settled.distinct ?_ ?_ settled.issued ?_ ?_
      ?_ ?_ rfl rfl⟩
    · exact Heap.powers_placed settled.powers address ⟨short, word⟩ power
    · intro entry member
      rw [← turns.heap_eq]
      exact evolves.blocks _ _ List.not_mem_nil (settled.present entry member)
    · intro entry member
      exact evolves.held _ _ _ List.not_mem_nil (settled.held entry member)
    · intro a block owner found owned _
      exact old a block found (owned ▸ Option.some_ne_none _)
    · intro _ a recorded lists
      have live := lists.recorded
      obtain ⟨block, found, mine⟩ := lists.owned
      have there := old a block found (by rw [mine]; exact Option.some_ne_none _)
      apply settled.listed manager a recorded exhausted.1
      refine ⟨?_, block, there, mine⟩
      rw [Ledger.astray, Std.TreeMap.getElem?_insert, if_neg] at live
      · exact live
      · rw [Nat.compare_eq_eq]
        rintro rfl
        rw [fresh] at there
        cases there
    · intro entry member _
      exact member
    · exact settled.idle manager

theorem takenBack {address size : Nat} (taken : manager.TakesBack process after address size) :
    after.Settled account (blocks.filter fun entry => entry.1 ≠ address) := by
  have remains : ∀ entry ∈ blocks.filter (fun entry => entry.1 ≠ address),
      entry ∈ blocks ∧ entry.1 ∉ [address] := by
    intro entry member
    obtain ⟨there, different⟩ := Multiset.mem_filter.mp member
    exact ⟨there, fun same => different (List.mem_singleton.mp same)⟩
  have old : ∀ a block, (process.heap.erase address).find? a = some block →
      process.heap.find? a = some block := by
    intro a block found
    rw [Heap.find?_erase] at found
    split at found
    · cases found
    · exact found
  apply settled.turned taken.turns taken.evolves.sound
  · exact Heap.powers_erase settled.powers address
  · exact Multiset.nodup_of_le (Multiset.map_le_map (Multiset.filter_le _ _)) settled.distinct
  · intro entry member
    obtain ⟨there, different⟩ := remains entry member
    rw [← taken.turns.heap_eq]
    exact taken.evolves.blocks _ _ different (settled.present entry there)
  · intro entry member
    obtain ⟨there, different⟩ := remains entry member
    exact taken.evolves.held _ _ _ different (settled.held entry there)
  · intro entry member
    exact settled.issued entry (remains entry member).1
  · intro a block owner found _ _
    exact old a block found
  · intro tracked a recordedSize lists
    have recorded := lists.recorded
    rw [Ledger.isTracked_released] at tracked
    rw [Ledger.released, if_pos tracked, Ledger.live_withoutBlock] at recorded
    split at recorded
    · cases recorded
    · rename_i different
      obtain ⟨block, found, mine⟩ := lists.owned
      obtain ⟨entry, member, extent⟩ := settled.listed manager a recordedSize tracked
        ⟨recorded, block, old a block found, mine⟩
      refine ⟨entry, Multiset.mem_filter.mpr ⟨member, ?_⟩, extent⟩
      rw [Extent.of, Extent.mk.injEq] at extent
      rw [extent.2.1]
      exact Ne.symm different
  · intro entry member foreign
    refine Multiset.mem_filter.mpr ⟨member, ?_⟩
    intro same
    obtain ⟨block, found, -, owner⟩ := taken.holds.present
    rw [← same, settled.present entry member] at found
    cases found
    exact foreign (Block.keeper_eq owner)
  · intro raw
    rw [Ledger.isTracked_released] at raw
    rw [Ledger.released, raw]
    exact settled.idle manager raw
  · exact Ledger.holders_released _ _ _
  · exact Ledger.config_released _ _ _

theorem moved {address newAddress newSize : Nat} {block : Block}
    (holder : manager ∈ account.holders)
    (moves : manager.Moves process after address block newAddress newSize) :
    after.Settled account
      ((newAddress, block.resize newSize) ::ₘ blocks.filter fun entry => entry.1 ≠ address) := by
  have owner := moves.owner
  have placed := moves.block
  have remains : ∀ entry ∈ blocks.filter (fun entry => entry.1 ≠ address),
      entry ∈ blocks ∧ entry.1 ∉ [address] := by
    intro entry member
    obtain ⟨there, different⟩ := Multiset.mem_filter.mp member
    exact ⟨there, fun same => different (List.mem_singleton.mp same)⟩
  have keeper : block.keeper = manager.id := Block.keeper_eq owner
  have old : ∀ a other, (process.heap.moved address newAddress block newSize).find? a = some other →
      newAddress ≠ a → process.heap.find? a = some other ∧ address ≠ a := by
    intro a other found different
    rw [Heap.find?_moved, if_neg different] at found
    split at found
    · cases found
    · rename_i kept
      exact ⟨found, kept⟩
  apply settled.turned moves.turns moves.evolves.sound
  · exact Heap.powers_moved settled.powers newAddress moves.word moves.found
  · rw [Multiset.map_cons, Multiset.nodup_cons]
    constructor
    · intro member
      obtain ⟨entry, there, same⟩ := Multiset.mem_map.mp member
      obtain ⟨there, different⟩ := Multiset.mem_filter.mp there
      exact Heap.ne_of_moved moves.fresh different (settled.present entry there) same.symm
    · exact Multiset.nodup_of_le (Multiset.map_le_map (Multiset.filter_le _ _)) settled.distinct
  · intro entry member
    rw [← moves.turns.heap_eq]
    rcases Multiset.mem_cons.mp member with rfl | member
    · exact placed
    · obtain ⟨there, different⟩ := remains entry member
      exact moves.evolves.blocks _ _ different (settled.present entry there)
  · intro entry member
    rcases Multiset.mem_cons.mp member with rfl | member
    · rw [Block.keeper_resize, Block.size_resize, keeper]
      exact moves.held
    · obtain ⟨there, different⟩ := remains entry member
      exact moves.evolves.held _ _ _ different (settled.held entry there)
  · intro entry member
    rcases Multiset.mem_cons.mp member with rfl | member
    · rw [Block.keeper_resize, keeper]
      exact settled.known manager holder
    · exact settled.issued entry (remains entry member).1
  · intro a other another found owned foreign
    refine (old a other found ?_).1
    rintro rfl
    rw [Heap.find?_moved, if_pos rfl] at found
    cases found
    rw [Block.owner_resize, owner] at owned
    exact foreign (Option.some.inj owned).symm
  · intro tracked a recordedSize lists
    have recorded := lists.recorded
    rw [Ledger.isTracked_resized] at tracked
    rw [Ledger.resized, if_pos tracked, Ledger.live_withMoved] at recorded
    split at recorded
    · rename_i same
      cases recorded
      refine ⟨_, Multiset.mem_cons_self _ _, ?_⟩
      rw [Extent.of, ← same, Block.keeper_resize, Block.size_resize, keeper]
    · rename_i elsewhere
      split at recorded
      · cases recorded
      · rename_i different
        obtain ⟨other, found, mine⟩ := lists.owned
        obtain ⟨entry, member, extent⟩ := settled.listed manager a recordedSize tracked
          ⟨recorded, other, (old a other found elsewhere).1, mine⟩
        refine ⟨entry, Multiset.mem_cons_of_mem (Multiset.mem_filter.mpr ⟨member, ?_⟩), extent⟩
        rw [Extent.of, Extent.mk.injEq] at extent
        rw [extent.2.1]
        exact Ne.symm different
  · intro entry member foreign
    refine Multiset.mem_cons_of_mem (Multiset.mem_filter.mpr ⟨member, ?_⟩)
    intro same
    have found := settled.present entry member
    rw [same, moves.found] at found
    cases found
    exact foreign keeper
  · intro raw
    rw [Ledger.isTracked_resized] at raw
    rw [Ledger.resized, raw]
    exact settled.idle manager raw
  · exact Ledger.holders_resized _ _ _ _ _
  · exact Ledger.config_resized _ _ _ _ _

theorem ne_closed (holder : manager ∈ account.holders) : manager.ledgerIn process ≠ .closed := by
  intro closed
  have holders := settled.holders manager
  rw [closed] at holders
  exact absurd holder (Multiset.count_eq_zero.mp holders.symm)

theorem recounted {holders : Multiset Manager} (holder : manager ∈ account.holders)
    (others : ∀ other, other ≠ manager → holders.count other = account.holders.count other) :
    Settled { process with ledgers := process.ledgers.modify manager.id fun _ =>
      { manager.ledgerIn process with holders := holders.count manager } }
      { account with holders } blocks := by
  have ledgers := ledgerIn_set process.heap
    { manager.ledgerIn process with holders := holders.count manager } (settled.ne_closed holder)
  have subset : ∀ other ∈ holders, other ∈ account.holders := by
    intro other member
    by_cases same : other = manager
    · exact same ▸ holder
    · rwa [← Multiset.count_pos, ← others other same, Multiset.count_pos]
  have evolves : process.Evolves { process with
      ledgers := process.ledgers.modify manager.id fun _ =>
        { manager.ledgerIn process with holders := holders.count manager } } [] :=
    Manager.evolves_holders settled.sound (holders.count manager)
  refine { settled with
    sound := evolves.sound
    held := fun entry member =>
      evolves.held _ _ _ List.not_mem_nil (settled.held entry member)
    listed := ?_, idle := ?_, holders := ?_, config := ?_
    known := fun other member => settled.known other (subset other member) }
  · intro other a size
    rw [ledgers]
    split
    · rename_i same
      subst same
      intro tracked lists
      exact settled.listed manager a size tracked ⟨lists.recorded, lists.owned⟩
    · exact settled.listed other a size
  · intro other
    rw [ledgers]
    split
    · exact settled.idle manager
    · exact settled.idle other
  · intro other
    rw [ledgers]
    split
    · rename_i same
      rw [same]
    · rename_i different
      rw [settled.holders other]
      exact (others other (Ne.symm different)).symm
  · intro other member
    rw [ledgers]
    split
    · rename_i same
      exact same ▸ settled.config manager holder
    · exact settled.config other (subset other member)

theorem retain (holder : manager ∈ account.holders) :
    Ends manager.retain process (fun _ after => after.Settled (account.joined manager) blocks)
      fun _ _ => False := by
  have others : ∀ other, other ≠ manager →
      (manager ::ₘ account.holders).count other = account.holders.count other :=
    fun other different => Multiset.count_cons_of_ne different _
  have joined := settled.recounted holder others
  rw [Multiset.count_cons_self, ← settled.holders manager] at joined
  rw [Manager.retain, Action.ends_bind, Manager.ends_ledger, Manager.ends_setLedger]
  exact joined

end Settled

theorem Settled.release_shared (settled : process.Settled (account.joined manager) blocks)
    (holder : manager ∈ account.holders) :
    Ends manager.release process (fun _ after => after.Settled account blocks)
      fun _ _ => False := by
  have count : (manager.ledgerIn process).holders = account.holders.count manager + 1 := by
    rw [settled.holders manager]
    exact Multiset.count_cons_self _ _
  have several : 1 < (manager.ledgerIn process).holders := by
    have positive := Multiset.count_pos.mpr holder
    omega
  have others : ∀ other, other ≠ manager →
      account.holders.count other = (account.joined manager).holders.count other :=
    fun other different => (Multiset.count_cons_of_ne different _).symm
  have left := settled.recounted (Multiset.mem_cons_self _ _) others
  have one : (manager.ledgerIn process).holders - 1 = account.holders.count manager := by omega
  rw [Manager.release, Action.ends_bind, Manager.ends_ledger, if_pos several,
    Manager.ends_setLedger, one]
  exact left

/-- The journal when a manager ends: with a warning if blocks are left. -/
def Ended (manager : Manager) (process : Process) : Journal :=
  let counters := (manager.ledgerIn process).counters
  if 0 < counters.liveBlocks then
    process.journal.log .warn Origin.manager.target fun _ =>
      s!"memory manager dropped with {counters.liveBlocks} live blocks ({counters.liveBytes} bytes)"
  else process.journal

theorem Settled.warnings_ended (settled : process.Settled (account.joined manager) account.kept) :
    (Ended manager process).warnings = account.warnings ++ account.leak manager := by
  have config := settled.config manager (Multiset.mem_cons_self _ _)
  change _ = account.config manager at config
  have enabled : process.journal.enabled .warn = true ↔
      Level.warn.rank ≤ account.level.rank := by
    rw [Journal.enabled, settled.level]
    exact decide_eq_true_iff
  have warnings : process.journal.warnings = account.warnings := settled.warnings
  cases tracked : (manager.ledgerIn process).isTracked with
  | true =>
      have strategy : (account.config manager).strategy = .tracked := by
        rw [← config]
        exact (Ledger.isTracked_iff _).mp tracked
      have blocks : (manager.ledgerIn process).counters.liveBlocks =
          (account.extents.filter fun extent => extent.manager = manager).card :=
        settled.liveBlocks_eq tracked
      have bytes : (manager.ledgerIn process).counters.liveBytes =
          ((account.extents.filter fun extent => extent.manager = manager).map
            Extent.size).sum := settled.liveBytes_eq tracked
      rw [Ended, blocks, bytes, Account.leak]
      generalize (account.extents.filter fun extent => extent.manager = manager) = left
      by_cases none : left = 0
      · simp [none, warnings]
      · rw [if_pos (Multiset.card_pos.mpr none), Journal.warnings_log, warnings]
        by_cases shown : process.journal.enabled .warn = true
        · rw [if_pos shown, if_pos ⟨strategy, none, enabled.mp shown⟩]
          rfl
        · rw [if_neg shown, if_neg fun all => shown (enabled.mpr all.2.2)]
  | false =>
      have strategy : (account.config manager).strategy ≠ .tracked := by
        rw [← config, ne_eq, ← Ledger.isTracked_iff, tracked]
        exact Bool.false_ne_true
      rw [Ended, settled.idle manager tracked, Account.leak]
      simp [strategy, warnings]

theorem Settled.release_last (settled : process.Settled (account.joined manager) account.kept)
    (last : manager ∉ account.holders) :
    Ends manager.release process
      (fun _ after => after.Settled (account.parted manager) account.kept) fun _ _ => False := by
  have one : (manager.ledgerIn process).holders = 1 := by
    rw [settled.holders manager]
    show (manager ::ₘ account.holders).count manager = 1
    rw [Multiset.count_cons_self, Multiset.count_eq_zero.mpr last]
  have ended : Ends manager.release process
      (fun _ after => after = { process with
        journal := Ended manager process, ledgers := process.ledgers.erase manager.id })
      fun _ _ => False := by
    rw [Manager.release, Action.ends_bind, Manager.ends_ledger, one, if_neg (by decide), Ended]
    dsimp only
    split
    · rfl
    · rfl
  apply ended.mono ?_ fun _ _ none => none
  intro _ after same
  have ledgers (other : Manager) : other.ledgerIn after =
      if manager = other then .closed else other.ledgerIn process := by
    rw [same]
    exact manager.ledgerIn_erase process (Ended manager process) other
  have different : ∀ other : Manager, (other.ledgerIn after).isTracked = true →
      manager ≠ other := by
    intro other tracked equal
    rw [ledgers, if_pos equal] at tracked
    cases tracked
  have heap : after.heap = process.heap := by rw [same]
  have level : (Ended manager process).level = process.journal.level := by
    rw [Ended]
    split
    · exact Journal.level_log _ _ _ _
    · rfl
  rw [Account.parted, if_neg last]
  refine ⟨?_, ?_, settled.distinct, ?_, ?_, ?_, ?_, ?_, ?_, ?_, ?_, ?_, ?_, ?_⟩
  · rw [same]
    exact Manager.sound_erased settled.sound manager (Ended manager process)
  · rw [heap]
    exact settled.powers
  · rw [heap]
    exact settled.present
  · intro entry member
    have held := settled.held entry member
    refine ⟨heap ▸ held.present, ?_⟩
    intro tracked
    have unlike := different _ tracked
    rw [ledgers, if_neg unlike] at tracked ⊢
    exact held.recorded tracked
  · rw [same]
    exact settled.issued
  · intro other a size tracked lists
    have unlike := different other tracked
    rw [heap] at lists
    rw [ledgers, if_neg unlike] at tracked lists
    exact settled.listed other a size tracked lists
  · intro other raw
    rw [ledgers] at raw ⊢
    split
    · rfl
    · rename_i unlike
      rw [if_neg unlike] at raw
      exact settled.idle other raw
  · intro other
    rw [ledgers]
    split
    · rename_i equal
      subst equal
      exact (Multiset.count_eq_zero.mpr last).symm
    · rename_i unlike
      rw [settled.holders other]
      exact Multiset.count_cons_of_ne (Ne.symm unlike) _
  · intro other member
    rw [ledgers, if_neg]
    · exact settled.config other (Multiset.mem_cons_of_mem member)
    · intro equal
      exact last (equal ▸ member)
  · intro other member
    rw [same]
    exact settled.known other (Multiset.mem_cons_of_mem member)
  · rw [same]
    exact level.trans settled.level
  · rw [same]
    exact settled.warnings_ended
  · rw [same]
    exact settled.nextRegion

theorem Settled.create (settled : process.Settled account blocks) (config : Config) :
    Ends (Manager.create config) process
      (fun manager after => manager.id = process.nextManager ∧ manager ∉ account.holders ∧
        after.Settled (account.created manager config) blocks)
      fun _ _ => False := by
  have unknown : (⟨process.nextManager⟩ : Manager) ∉ account.holders := by
    intro member
    exact Nat.lt_irrefl _ (settled.known _ member)
  refine ⟨rfl, unknown, ?_⟩
  have sound := Manager.sound_created settled.sound config
  have ledgers := Manager.ledgerIn_create config process
  have older : ∀ entry ∈ blocks, process.nextManager ≠ entry.2.keeper :=
    fun entry member same => Nat.lt_irrefl _ (same ▸ settled.issued entry member)
  have nothing (a : Nat) : ({ config } : Ledger).live[a]? = none := Std.TreeMap.getElem?_emptyc
  refine { settled with
    sound, held := ?_, issued := ?_, listed := ?_, idle := ?_, holders := ?_, config := ?_
    known := ?_ }
  · intro entry member
    have held := settled.held entry member
    refine ⟨held.present, ?_⟩
    have ledger := ledgers ⟨entry.2.keeper⟩
    rw [if_neg (older entry member)] at ledger
    intro tracked
    exact (congrArg Ledger.live ledger) ▸ held.recorded (ledger ▸ tracked)
  · intro entry member
    exact Nat.lt_succ_of_lt (settled.issued entry member)
  · intro other a size tracked lists
    have ledger := ledgers other
    split at ledger
    · have empty := (congrArg (fun ledger => ledger.live[a]?) ledger).symm.trans lists.recorded
      rw [nothing] at empty
      cases empty
    · exact settled.listed other a size (ledger ▸ tracked) (ledger ▸ lists)
  · intro other raw
    have ledger := ledgers other
    split at ledger
    · exact congrArg (fun ledger => ledger.counters.liveBlocks) ledger
    · exact ledger ▸ settled.idle other (ledger ▸ raw)
  · intro other
    have ledger := ledgers other
    split at ledger
    · rename_i same
      have equal : other = ⟨process.nextManager⟩ := Manager.eq_of_id same.symm
      rw [equal] at ledger ⊢
      show _ = (_ ::ₘ account.holders).count _
      rw [Multiset.count_cons_self, Multiset.count_eq_zero.mpr unknown]
      exact congrArg Ledger.holders ledger
    · rename_i different
      have unlike : other ≠ ⟨process.nextManager⟩ := fun same => different (same ▸ rfl)
      show _ = (_ ::ₘ account.holders).count _
      rw [Multiset.count_cons_of_ne unlike, ← settled.holders other]
      exact congrArg Ledger.holders ledger
  · intro other member
    have ledger := ledgers other
    split at ledger
    · rename_i same
      have equal : other = ⟨process.nextManager⟩ := Manager.eq_of_id same.symm
      show _ = if other = _ then _ else _
      rw [if_pos equal]
      exact congrArg Ledger.config ledger
    · rename_i different
      have unlike : other ≠ ⟨process.nextManager⟩ := fun same => different (same ▸ rfl)
      show _ = if other = _ then _ else _
      rw [if_neg unlike, ← settled.config other ((Multiset.mem_cons.mp member).resolve_left unlike)]
      exact congrArg Ledger.config ledger
  · intro other member
    by_cases same : other = ⟨process.nextManager⟩
    · rw [same]
      exact Nat.lt_succ_self _
    · exact Nat.lt_succ_of_lt (settled.known other ((Multiset.mem_cons.mp member).resolve_left same))

def wrote (pointer : Pointer) (values : List UInt8) (entry : Nat × Block) : Nat × Block :=
  if pointer.block = entry.1 then (entry.1, entry.2.write pointer.offset values) else entry

theorem of_wrote (pointer : Pointer) (values : List UInt8) (entry : Nat × Block) :
    Extent.of (wrote pointer values entry) = Extent.of entry := by
  unfold wrote
  split <;> rfl

theorem fst_wrote (pointer : Pointer) (values : List UInt8) (entry : Nat × Block) :
    (wrote pointer values entry).1 = entry.1 := by
  unfold wrote
  split <;> rfl

theorem Settled.written (settled : process.Settled account blocks) (pointer : Pointer)
    (values : List UInt8) :
    Settled { process with heap := process.heap.write pointer values } account
      (blocks.map (wrote pointer values)) := by
  have origin : ∀ entry ∈ blocks.map (wrote pointer values), ∃ before ∈ blocks,
      wrote pointer values before = entry := fun entry member => Multiset.mem_map.mp member
  refine { settled with
    sound := settled.sound.write pointer values
    powers := Heap.powers_write settled.powers pointer values
    distinct := ?_, present := ?_, held := ?_, issued := ?_, listed := ?_ }
  · rw [Multiset.map_map]
    have same : Prod.fst ∘ wrote pointer values = (Prod.fst : Nat × Block → Nat) :=
      funext (fst_wrote pointer values)
    rw [same]
    exact settled.distinct
  · intro entry member
    obtain ⟨before, there, rfl⟩ := origin entry member
    rw [fst_wrote, Heap.find?_write, settled.present before there]
    unfold wrote
    split <;> rfl
  · intro entry member
    obtain ⟨before, there, rfl⟩ := origin entry member
    have held := holds_write (settled.held before there) pointer values
    unfold wrote
    split <;> exact held
  · intro entry member
    obtain ⟨before, there, rfl⟩ := origin entry member
    have issued := settled.issued before there
    unfold wrote
    split <;> exact issued
  · intro other a size tracked lists
    obtain ⟨block, found, mine⟩ := lists.owned
    obtain ⟨before, present, -, -, owner⟩ := Heap.find?_write_some found
    obtain ⟨entry, member, extent⟩ := settled.listed other a size tracked
      ⟨lists.recorded, before, present, owner ▸ mine⟩
    exact ⟨_, Multiset.mem_map_of_mem _ member, (of_wrote pointer values entry).trans extent⟩

end Process

end SymbolStore
