import SymbolStore.Memory.Ledger
import SymbolStore.Proofs.Memory.Heap

/-! Ledgers that agree with the heap about the blocks of their manager, and how an entry of a block
keeps them so. -/

namespace SymbolStore

theorem Word.addWrapping_eq {a b : Nat} {difference : Int} (sum : (a : Int) + difference = b)
    (small : b < wordLimit) : Word.addWrapping a difference = b := by
  unfold Word.addWrapping
  rw [sum, Int.emod_eq_of_lt (Int.natCast_nonneg b) (Int.ofNat_lt.mpr small), Int.toNat_natCast]

namespace Counters

variable {counters : Counters} {size : Nat}

def withBlock (counters : Counters) (size : Nat) : Counters :=
  { liveBlocks := counters.liveBlocks + 1
    liveBytes := counters.liveBytes + size
    peakBytes := max counters.peakBytes (counters.liveBytes + size)
    totalAllocations := counters.totalAllocations + 1 }

def withoutBlock (counters : Counters) (size : Nat) : Counters :=
  { counters with
    liveBlocks := counters.liveBlocks - 1
    liveBytes := counters.liveBytes - size
    peakBytes := max counters.peakBytes (counters.liveBytes - size) }

def withResized (counters : Counters) (oldSize newSize : Nat) : Counters :=
  { counters with
    liveBytes := counters.liveBytes - oldSize + newSize
    peakBytes := max counters.peakBytes (counters.liveBytes - oldSize + newSize)
    totalAllocations :=
      if 0 < newSize then counters.totalAllocations + 1 else counters.totalAllocations }

theorem record_acquire (bytes : counters.liveBytes + size < wordLimit)
    (count : counters.liveBlocks + 1 < wordLimit) :
    counters.record 0 size 1 =
      if counters.totalAllocations + 1 < wordLimit then .ok (counters.withBlock size)
      else .error (.overflow .add) := by
  have blocks := Word.addWrapping_eq (Int.natCast_succ counters.liveBlocks).symm count
  simp only [record, Word.subtract, Word.add, Nat.zero_le, if_true, Nat.sub_zero, bind,
    Except.bind, if_pos bytes, Int.one_pos, or_true, blocks]
  by_cases room : counters.totalAllocations + 1 < wordLimit
  · simp only [if_pos room]
    rfl
  · simp only [if_neg room]

theorem record_release (bytes : size ≤ counters.liveBytes) (small : counters.liveBytes < wordLimit)
    (count : 0 < counters.liveBlocks) (few : counters.liveBlocks < wordLimit) :
    counters.record size 0 (-1) = .ok (counters.withoutBlock size) := by
  have kept : counters.liveBytes - size + 0 < wordLimit := by omega
  have blocks : Word.addWrapping counters.liveBlocks (-1) = counters.liveBlocks - 1 :=
    Word.addWrapping_eq (by omega) (by omega)
  have nothing : ¬ (0 < 0 ∨ (0 : Int) < -1) := by omega
  simp only [record, Word.subtract, Word.add, if_pos bytes, bind, Except.bind, if_pos kept,
    if_neg nothing, blocks, pure, Except.pure]
  rfl

/-- A block that shrinks to nothing does not count as an allocation. -/
theorem record_resize {oldSize newSize : Nat} (held : oldSize ≤ counters.liveBytes)
    (bytes : counters.liveBytes - oldSize + newSize < wordLimit)
    (few : counters.liveBlocks < wordLimit) :
    counters.record oldSize newSize 0 =
      if 0 < newSize ∧ wordLimit ≤ counters.totalAllocations + 1 then .error (.overflow .add)
      else .ok (counters.withResized oldSize newSize) := by
  have blocks : Word.addWrapping counters.liveBlocks 0 = counters.liveBlocks :=
    Word.addWrapping_eq (Int.add_zero _) few
  simp only [record, Word.subtract, Word.add, if_pos held, bind, Except.bind, if_pos bytes, blocks,
    Int.lt_irrefl, or_false, withResized]
  by_cases grows : 0 < newSize
  · by_cases room : counters.totalAllocations + 1 < wordLimit
    · simp only [if_pos grows, if_pos room, if_neg (not_and_of_not_right _ (Nat.not_le.mpr room))]
      rfl
    · simp only [if_pos grows, if_neg room, if_pos (And.intro grows (Nat.not_lt.mp room))]
  · simp only [if_neg grows, if_neg (not_and_of_not_left _ grows)]
    rfl

end Counters

namespace Ledger

def blocks (ledger : Ledger) : Finset (Nat × Nat) := ledger.live.toList.toFinset

structure Lists (ledger : Ledger) (owner : Nat) (heap : Heap) (address size : Nat) : Prop where
  recorded : ledger.live[address]? = some size
  owned : ∃ block, heap.find? address = some block ∧ block.owner = some owner

/-- The recorded blocks that the manager has handed out, each with its size. -/
def owned (ledger : Ledger) (owner : Nat) (heap : Heap) : Finset (Nat × Nat) :=
  ledger.blocks.filter fun entry => (heap.find? entry.1).bind Block.owner = some owner

/-- Every recorded block is in the heap, and the counters count those that the manager has handed
out. The others are blocks that could not be counted any more. -/
structure Agrees (ledger : Ledger) (owner : Nat) (heap : Heap) : Prop where
  placed : ∀ a size : Nat, ledger.live[a]? = some size →
    ∃ block, heap.find? a = some block ∧ block.size = size ∧
      (block.owner = some owner ∨
        block.owner = none ∧ wordLimit ≤ ledger.counters.totalAllocations + 1)
  bytes : ledger.counters.liveBytes = ∑ entry ∈ ledger.owned owner heap, entry.2
  count : ledger.counters.liveBlocks = (ledger.owned owner heap).card

def withBlock (ledger : Ledger) (address size : Nat) : Ledger :=
  { ledger with
    live := ledger.live.insert address size
    counters := ledger.counters.withBlock size }

def withoutBlock (ledger : Ledger) (address size : Nat) : Ledger :=
  { ledger with
    live := ledger.live.erase address
    counters := ledger.counters.withoutBlock size }

def withMoved (ledger : Ledger) (address oldSize newAddress newSize : Nat) : Ledger :=
  { ledger with
    live := (ledger.live.erase address).insert newAddress newSize
    counters := ledger.counters.withResized oldSize newSize }

theorem live_withBlock (ledger : Ledger) (address size a : Nat) :
    (ledger.withBlock address size).live[a]? =
      if address = a then some size else ledger.live[a]? := by
  simp [withBlock, Std.TreeMap.getElem?_insert]

theorem live_withoutBlock (ledger : Ledger) (address size a : Nat) :
    (ledger.withoutBlock address size).live[a]? =
      if address = a then none else ledger.live[a]? := by
  simp [withoutBlock, Std.TreeMap.getElem?_erase]

theorem live_withMoved (ledger : Ledger) (address oldSize newAddress newSize a : Nat) :
    (ledger.withMoved address oldSize newAddress newSize).live[a]? =
      if newAddress = a then some newSize
      else if address = a then none else ledger.live[a]? := by
  simp [withMoved, Std.TreeMap.getElem?_insert, Std.TreeMap.getElem?_erase]

/-- One more allocation cannot be counted. -/
def Exhausted (ledger : Ledger) : Prop :=
  ledger.isTracked = true ∧ wordLimit ≤ ledger.counters.totalAllocations + 1

instance (ledger : Ledger) : Decidable ledger.Exhausted :=
  inferInstanceAs (Decidable (_ ∧ _))

theorem mem_blocks {ledger : Ledger} {a size : Nat} :
    (a, size) ∈ ledger.blocks ↔ ledger.live[a]? = some size := by
  rw [blocks, List.mem_toFinset, Std.TreeMap.mem_toList_iff_getElem?_eq_some]

theorem mem_owned {ledger : Ledger} {owner : Nat} {heap : Heap} {a size : Nat} :
    (a, size) ∈ ledger.owned owner heap ↔ ledger.Lists owner heap a size := by
  rw [owned, Finset.mem_filter, mem_blocks, Option.bind_eq_some_iff]
  exact ⟨fun both => ⟨both.1, both.2⟩, fun lists => ⟨lists.recorded, lists.owned⟩⟩

theorem agrees_unused (config : Config) (holders owner : Nat) (heap : Heap) :
    Ledger.Agrees { config, holders } owner heap := by
  have none : Ledger.blocks { config, holders } = ∅ := by
    apply Finset.eq_empty_of_forall_notMem
    intro entry member
    rcases entry with ⟨a, s⟩
    rw [mem_blocks, Std.TreeMap.getElem?_emptyc] at member
    cases member
  have nobody : Ledger.owned { config, holders } owner heap = ∅ := by
    rw [owned, none, Finset.filter_empty]
  constructor
  · intro a size recorded
    rw [Std.TreeMap.getElem?_emptyc] at recorded
    cases recorded
  · rw [nobody]
    rfl
  · rw [nobody]
    rfl

variable {ledger : Ledger} {owner : Nat} {heap after : Heap} {address size : Nat}

theorem Agrees.present (agrees : ledger.Agrees owner heap) :
    ∀ entry ∈ ledger.owned owner heap,
      ∃ block, heap.find? entry.1 = some block ∧ block.size = entry.2 := by
  intro entry member
  rcases entry with ⟨a, s⟩
  rcases agrees.placed a s (mem_owned.mp member).recorded with ⟨block, found, size, -⟩
  exact ⟨block, found, size⟩

theorem Agrees.listed (agrees : ledger.Agrees owner heap)
    (lists : ledger.Lists owner heap address size) :
    ∃ block, heap.find? address = some block ∧ block.size = size ∧ block.owner = some owner := by
  obtain ⟨block, found, sized, -⟩ := agrees.placed address size lists.recorded
  obtain ⟨same, there, owned⟩ := lists.owned
  rw [found] at there
  cases there
  exact ⟨block, found, sized, owned⟩

/-- While allocations can be counted, all recorded blocks have been handed out. -/
theorem Agrees.lists (agrees : ledger.Agrees owner heap)
    (room : ledger.counters.totalAllocations + 1 < wordLimit)
    (recorded : ledger.live[address]? = some size) : ledger.Lists owner heap address size := by
  obtain ⟨block, found, -, owned | ⟨-, full⟩⟩ := agrees.placed address size recorded
  · exact ⟨recorded, block, found, owned⟩
  · exact absurd room (Nat.not_lt.mpr full)

theorem Agrees.mono (agrees : ledger.Agrees owner heap)
    (kept : ∀ (a size : Nat) block, ledger.live[a]? = some size → heap.find? a = some block →
      ∃ block', after.find? a = some block' ∧ block'.size = block.size ∧
        block'.owner = block.owner) : ledger.Agrees owner after := by
  have same : ledger.owned owner after = ledger.owned owner heap := by
    apply Finset.filter_congr
    rintro ⟨a, s⟩ member
    have recorded := mem_blocks.mp member
    obtain ⟨block, found, -⟩ := agrees.placed a s recorded
    obtain ⟨block', foundThere, -, owners⟩ := kept a s block recorded found
    rw [found, foundThere, Option.bind_some, Option.bind_some, owners]
  refine ⟨?_, same ▸ agrees.bytes, same ▸ agrees.count⟩
  intro a size recorded
  rcases agrees.placed a size recorded with ⟨block, found, sized, owned⟩
  rcases kept a size block recorded found with ⟨block', foundThere, sameSize, sameOwner⟩
  exact ⟨block', foundThere, sameSize.trans sized, sameOwner ▸ owned⟩

theorem Agrees.liveBytes_lt (agrees : ledger.Agrees owner heap) (sound : heap.Sound) :
    ledger.counters.liveBytes < wordLimit := by
  rw [agrees.bytes]
  exact sound.sum_sizes_lt _ agrees.present

theorem Agrees.size_le (agrees : ledger.Agrees owner heap)
    (lists : ledger.Lists owner heap address size) : size ≤ ledger.counters.liveBytes := by
  rw [agrees.bytes]
  exact Finset.single_le_sum (f := fun entry : Nat × Nat => entry.2)
    (fun _ _ => Nat.zero_le _) (mem_owned.mpr lists)

theorem Agrees.unknown (agrees : ledger.Agrees owner heap) (fresh : heap.find? address = none) :
    ledger.live[address]? = none := by
  cases recorded : ledger.live[address]? with
  | none => rfl
  | some s =>
      rcases agrees.placed address s recorded with ⟨block, found, -⟩
      rw [fresh] at found
      cases found

theorem Agrees.live_withBlock {a recordedSize : Nat} (agrees : ledger.Agrees owner heap)
    (fresh : heap.find? address = none) (recorded : ledger.live[a]? = some recordedSize) :
    (ledger.withBlock address size).live[a]? = some recordedSize := by
  have apart : address ≠ a := by
    rintro rfl
    rw [agrees.unknown fresh] at recorded
    cases recorded
  rw [Ledger.live_withBlock, if_neg apart, recorded]

theorem live_withoutBlock_of_ne {a : Nat} (different : a ≠ address) :
    (ledger.withoutBlock address size).live[a]? = ledger.live[a]? := by
  rw [live_withoutBlock, if_neg (Ne.symm different)]

theorem Agrees.live_withMoved {a newAddress newSize recordedSize : Nat}
    (agrees : ledger.Agrees owner heap) (fresh : (heap.erase address).find? newAddress = none)
    (different : a ≠ address) (recorded : ledger.live[a]? = some recordedSize) :
    (ledger.withMoved address size newAddress newSize).live[a]? = some recordedSize := by
  obtain ⟨block, found, -⟩ := agrees.placed a recordedSize recorded
  rw [Ledger.live_withMoved, if_neg (Heap.ne_of_moved fresh different found),
    if_neg (Ne.symm different), recorded]

section Acquire

variable (agrees : ledger.Agrees owner heap) (fresh : heap.find? address = none)
include agrees fresh

/-- A block that was placed but not handed out changes nothing of what is counted. -/
theorem Agrees.astray {entered : Ledger} (live : entered.live = ledger.live.insert address size)
    (counters : entered.counters = ledger.counters)
    (full : wordLimit ≤ ledger.counters.totalAllocations + 1)
    (placed : ∃ block, after.find? address = some block ∧ block.size = size ∧ block.owner = none)
    (kept : ∀ a block, heap.find? a = some block → after.find? a = some block) :
    entered.Agrees owner after := by
  obtain ⟨block, found, sized, nobody⟩ := placed
  have recorded : ∀ a s : Nat, entered.live[a]? = some s ↔
      a = address ∧ s = size ∨ ledger.live[a]? = some s := by
    intro a s
    rw [live, Std.TreeMap.getElem?_insert]
    by_cases same : address = a
    · subst same
      simp [agrees.unknown fresh, eq_comm]
    · simp [same, Ne.symm same]
  have owned : entered.owned owner after = ledger.owned owner heap := by
    ext ⟨a, s⟩
    rw [mem_owned, mem_owned]
    constructor
    · intro lists
      rcases (recorded a s).mp lists.recorded with ⟨rfl, rfl⟩ | before
      · obtain ⟨other, there, mine⟩ := lists.owned
        rw [found] at there
        cases there
        rw [nobody] at mine
        cases mine
      · obtain ⟨other, there, -⟩ := agrees.placed a s before
        obtain ⟨same, thereAfter, mine⟩ := lists.owned
        rw [kept a other there] at thereAfter
        cases thereAfter
        exact ⟨before, other, there, mine⟩
    · intro lists
      obtain ⟨other, there, mine⟩ := lists.owned
      exact ⟨(recorded a s).mpr (.inr lists.recorded), other, kept a other there, mine⟩
  refine ⟨?_, ?_, ?_⟩
  · intro a s known
    rw [counters]
    rcases (recorded a s).mp known with ⟨rfl, rfl⟩ | before
    · exact ⟨block, found, sized, .inr ⟨nobody, full⟩⟩
    · obtain ⟨other, there, rest⟩ := agrees.placed a s before
      exact ⟨other, kept a other there, rest⟩
  · rw [counters, owned]
    exact agrees.bytes
  · rw [counters, owned]
    exact agrees.count

variable
  (given : ∃ block, after.find? address = some block ∧ block.size = size ∧
    block.owner = some owner)
  (kept : ∀ a block, heap.find? a = some block → after.find? a = some block)

theorem Agrees.not_mem_owned : (address, size) ∉ ledger.owned owner heap := by
  rw [mem_owned]
  intro lists
  have recorded := lists.recorded
  rw [agrees.unknown fresh] at recorded
  cases recorded

omit fresh in
include given kept in
theorem Agrees.present_insert : ∀ entry ∈ insert (address, size) (ledger.owned owner heap),
    ∃ block, after.find? entry.1 = some block ∧ block.size = entry.2 := by
  intro entry member
  rcases Finset.mem_insert.mp member with rfl | member
  · rcases given with ⟨block, found, sized, -⟩
    exact ⟨block, found, sized⟩
  · rcases agrees.present entry member with ⟨block, found, sized⟩
    exact ⟨block, kept _ _ found, sized⟩

include given kept

theorem Agrees.owned_insert {entered : Ledger}
    (live : entered.live = ledger.live.insert address size) :
    entered.owned owner after = insert (address, size) (ledger.owned owner heap) := by
  obtain ⟨block, found, sized, mine⟩ := given
  ext ⟨a, s⟩
  rw [Finset.mem_insert, mem_owned, mem_owned]
  constructor
  · intro lists
    have recorded := lists.recorded
    rw [live, Std.TreeMap.getElem?_insert] at recorded
    by_cases same : address = a
    · subst same
      rw [if_pos (Nat.compare_eq_eq.mpr rfl)] at recorded
      cases recorded
      exact .inl rfl
    · rw [if_neg (by rwa [Nat.compare_eq_eq])] at recorded
      obtain ⟨other, there, -⟩ := agrees.placed a s recorded
      obtain ⟨again, thereAfter, owned⟩ := lists.owned
      rw [kept a other there] at thereAfter
      cases thereAfter
      exact .inr ⟨recorded, other, there, owned⟩
  · intro either
    rcases either with new | lists
    · cases new
      refine ⟨?_, block, found, mine⟩
      rw [live, Std.TreeMap.getElem?_insert, if_pos (Nat.compare_eq_eq.mpr rfl)]
    · have apart : address ≠ a := by
        rintro rfl
        have recorded := lists.recorded
        rw [agrees.unknown fresh] at recorded
        cases recorded
      obtain ⟨other, there, owned⟩ := lists.owned
      refine ⟨?_, other, kept a other there, owned⟩
      rw [live, Std.TreeMap.getElem?_insert, if_neg (by rwa [Nat.compare_eq_eq])]
      exact lists.recorded

theorem Agrees.insert {entered : Ledger} (live : entered.live = ledger.live.insert address size)
    (bytes : entered.counters.liveBytes = ledger.counters.liveBytes + size)
    (count : entered.counters.liveBlocks = ledger.counters.liveBlocks + 1)
    (total : ledger.counters.totalAllocations ≤ entered.counters.totalAllocations) :
    entered.Agrees owner after := by
  have entries := agrees.owned_insert fresh given kept live
  have apart : (address, size) ∉ ledger.owned owner heap := agrees.not_mem_owned fresh
  constructor
  · intro a s recorded
    rw [live, Std.TreeMap.getElem?_insert] at recorded
    split at recorded
    · rename_i same
      cases recorded
      rw [Nat.compare_eq_eq] at same
      obtain ⟨block, found, sized, mine⟩ := given
      exact ⟨block, same ▸ found, sized, .inl mine⟩
    · rcases agrees.placed a s recorded with ⟨block, found, sized, mine | ⟨nobody, full⟩⟩
      · exact ⟨block, kept a block found, sized, .inl mine⟩
      · exact ⟨block, kept a block found, sized, .inr ⟨nobody, by omega⟩⟩
  · calc
      entered.counters.liveBytes = size + ledger.counters.liveBytes := by rw [bytes, Nat.add_comm]
      _ = size + ∑ entry ∈ ledger.owned owner heap, entry.2 := by rw [agrees.bytes]
      _ = ∑ entry ∈ entered.owned owner after, entry.2 := by
        rw [entries, Finset.sum_insert apart]
  · calc
      entered.counters.liveBlocks = (ledger.owned owner heap).card + 1 := by
        rw [count, agrees.count]
      _ = (entered.owned owner after).card := by
        rw [entries, Finset.card_insert_of_notMem apart]

/-- What entering a block comes to. Its bytes always fit, as all blocks lie in one address space;
only the number of allocations can run out. Then the block is recorded and not counted. -/
theorem Agrees.acquire_eq (sound : after.Sound) :
    ledger.acquire address size =
      if ledger.counters.totalAllocations + 1 < wordLimit then
        (ledger.withBlock address size, none)
      else ({ ledger with live := ledger.live.insert address size }, some (.overflow .add)) := by
  have apart : (address, size) ∉ ledger.owned owner heap := agrees.not_mem_owned fresh
  have present := agrees.present_insert given kept
  have bytes := sound.sum_sizes_lt _ present
  have count := sound.card_lt _ present
  rw [Finset.sum_insert apart, ← agrees.bytes, Nat.add_comm] at bytes
  rw [Finset.card_insert_of_notMem apart, ← agrees.count] at count
  rw [acquire, recorded, Counters.record_acquire bytes count]
  by_cases room : ledger.counters.totalAllocations + 1 < wordLimit
  · rw [if_pos room, if_pos room]
    rfl
  · rw [if_neg room, if_neg room]

theorem Agrees.acquired : (ledger.withBlock address size).Agrees owner after :=
  agrees.insert fresh given kept rfl rfl rfl (Nat.le_succ _)

end Acquire

section Listed

variable (agrees : ledger.Agrees owner heap) (lists : ledger.Lists owner heap address size)
include agrees lists

theorem Agrees.positive : 0 < ledger.counters.liveBlocks := by
  rw [agrees.count]
  exact Finset.card_pos.mpr ⟨_, mem_owned.mpr lists⟩

theorem Agrees.struck
    (kept : ∀ a block, a ≠ address → heap.find? a = some block → after.find? a = some block) :
    (ledger.withoutBlock address size).Agrees owner after := by
  have member := mem_owned.mpr lists
  have entries : (ledger.withoutBlock address size).owned owner after =
      (ledger.owned owner heap).erase (address, size) := by
    ext ⟨a, s⟩
    rw [Finset.mem_erase, mem_owned, mem_owned]
    by_cases same : a = address
    · subst same
      constructor
      · intro there
        have recorded := there.recorded
        rw [Ledger.live_withoutBlock, if_pos rfl] at recorded
        cases recorded
      · rintro ⟨unlike, there⟩
        have recorded := there.recorded
        rw [lists.recorded] at recorded
        cases recorded
        exact absurd rfl unlike
    · have live : (ledger.withoutBlock address size).live[a]? = ledger.live[a]? :=
        live_withoutBlock_of_ne same
      constructor
      · intro there
        have recorded := live ▸ there.recorded
        obtain ⟨block, found, -⟩ := agrees.placed a s recorded
        obtain ⟨again, foundThere, mine⟩ := there.owned
        rw [kept a block same found] at foundThere
        cases foundThere
        exact ⟨fun equal => same (congrArg Prod.fst equal), recorded, block, found, mine⟩
      · rintro ⟨-, there⟩
        obtain ⟨block, found, mine⟩ := there.owned
        exact ⟨live.trans there.recorded, block, kept a block same found, mine⟩
  constructor
  · intro a s found
    rw [withoutBlock, Std.TreeMap.getElem?_erase] at found
    split at found
    · cases found
    · rename_i different
      rcases agrees.placed a s found with ⟨block, present, rest⟩
      refine ⟨block, kept a block ?_ present, rest⟩
      intro same
      subst same
      exact different (Nat.compare_eq_eq.mpr rfl)
  · have sum := Finset.add_sum_erase (ledger.owned owner heap) (fun entry => entry.2) member
    rw [← agrees.bytes] at sum
    rw [entries]
    show ledger.counters.liveBytes - size = _
    omega
  · rw [entries, Finset.card_erase_of_mem member, ← agrees.count]
    rfl

variable (sound : heap.Sound)
include sound

theorem release_agrees
    (kept : ∀ a block, a ≠ address → heap.find? a = some block → after.find? a = some block) :
    ledger.release address size = (ledger.withoutBlock address size, none) ∧
      (ledger.withoutBlock address size).Agrees owner after := by
  have count := agrees.count ▸ sound.card_lt _ agrees.present
  have struck := Counters.record_release (agrees.size_le lists) (agrees.liveBytes_lt sound)
    (agrees.positive lists) count
  refine ⟨?_, agrees.struck lists kept⟩
  rw [release, Ledger.recorded, struck]
  rfl

/-- Moving a block that was handed out. Its new bytes always fit; only the number of allocations can
run out. -/
theorem move_agrees {newAddress newSize : Nat} (soundThere : after.Sound)
    (fresh : (heap.erase address).find? newAddress = none)
    (given : ∃ block, after.find? newAddress = some block ∧ block.size = newSize ∧
      block.owner = some owner)
    (kept : ∀ a block, a ≠ address → heap.find? a = some block → after.find? a = some block) :
    ((0 < newSize ∧ wordLimit ≤ ledger.counters.totalAllocations + 1) ∧
      (ledger.move address size newAddress newSize).2 = some (.overflow .add)) ∨
    (¬ (0 < newSize ∧ wordLimit ≤ ledger.counters.totalAllocations + 1) ∧
      ledger.move address size newAddress newSize =
        (ledger.withMoved address size newAddress newSize, none) ∧
      (ledger.withMoved address size newAddress newSize).Agrees owner after) := by
  have remains : ∀ a block, a ≠ address → heap.find? a = some block →
      (heap.erase address).find? a = some block :=
    fun a block different found => (Heap.find?_erase_of_ne different).trans found
  have keptThere : ∀ a block, (heap.erase address).find? a = some block →
      after.find? a = some block := by
    intro a block found
    rw [Heap.find?_erase] at found
    split at found
    · cases found
    · rename_i different
      exact kept a block (Ne.symm different) found
  have struck := agrees.struck lists remains
  have positive := agrees.positive lists
  have count := agrees.count ▸ sound.card_lt _ agrees.present
  have bytes := soundThere.sum_sizes_lt _ (struck.present_insert given keptThere)
  rw [Finset.sum_insert (struck.not_mem_owned fresh), ← struck.bytes, Nat.add_comm] at bytes
  have moved := Counters.record_resize (agrees.size_le lists) bytes count
  by_cases full : 0 < newSize ∧ wordLimit ≤ ledger.counters.totalAllocations + 1
  · rw [if_pos full] at moved
    refine .inl ⟨full, ?_⟩
    rw [move, Ledger.recorded, moved]
  · rw [if_neg full] at moved
    refine .inr ⟨full, ?_, struck.insert fresh given keptThere rfl rfl ?_ ?_⟩
    · rw [move, Ledger.recorded, moved]
      rfl
    · exact (Nat.sub_add_cancel positive).symm
    · show ledger.counters.totalAllocations ≤ if 0 < newSize then _ else _
      split <;> omega

end Listed

end Ledger

end SymbolStore
