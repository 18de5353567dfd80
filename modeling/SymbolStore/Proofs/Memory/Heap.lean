import Mathlib.Algebra.Order.BigOperators.Group.Finset
import Mathlib.Order.Interval.Finset.Nat
import SymbolStore.Proofs.Memory.Header
import SymbolStore.Proofs.PowerOfTwo

/-!
Heaps whose blocks lie apart in the address space, headers included, and what is promised by the
system allocator: it keeps them apart. The ascending allocator does.
-/

namespace SymbolStore

theorem isPowerOfTwo_blockAlign : isPowerOfTwo blockAlign = true := by decide

theorem isPowerOfTwo_headerOffset {align : Nat} (power : isPowerOfTwo align = true) :
    isPowerOfTwo (headerOffset align) = true := by
  unfold headerOffset
  rcases Nat.le_total align blockAlign with small | large
  · rw [Nat.max_eq_right small]
    decide
  · rwa [Nat.max_eq_left large]

theorem Layout.framed_eq {payload whole : Layout} (framed : payload.framed = .ok whole) :
    whole = payload.whole := by
  simp only [Layout.framed, Word.add?] at framed
  split at framed
  · rename_i total sum
    split at sum
    · split at framed
      · cases sum
        cases framed
        rfl
      · cases framed
    · cases sum
  · cases framed

theorem Layout.words_of_framed {payload whole : Layout} (framed : payload.framed = .ok whole) :
    payload.size < wordLimit ∧ payload.align < wordLimit := by
  simp only [Layout.framed, Word.add?] at framed
  split at framed
  · rename_i total sum
    split at sum
    · split at framed
      · rename_i object
        cases sum
        have offset : payload.align ≤ headerOffset payload.align := Nat.le_max_left _ _
        omega
      · cases framed
    · cases sum
  · cases framed

theorem Layout.framed_error {payload : Layout} {cause : MemoryError}
    (failed : payload.framed = .error cause) : cause = .outOfMemory payload.size := by
  simp only [Layout.framed] at failed
  split at failed
  · split at failed
    · cases failed
    · cases failed
      rfl
  · cases failed
    rfl

theorem Layout.arrayBytes_eq_ite (element : Layout) (count : Nat) :
    element.arrayBytes count =
      if element.size * count < wordLimit then .ok (element.size * count)
      else .error (.outOfMemory maxWord) := by
  rw [Layout.arrayBytes, Word.multiply?]
  by_cases fits : element.size * count < wordLimit
  · rw [if_pos fits, if_pos fits]
  · rw [if_neg fits, if_neg fits]

theorem Layout.eq_of_arrayBytes {element : Layout} {count bytes : Nat}
    (counted : element.arrayBytes count = .ok bytes) : bytes = element.size * count := by
  rw [Layout.arrayBytes_eq_ite] at counted
  split at counted
  · cases counted
    rfl
  · cases counted

namespace Heap

/-- Every block has its header in front, its address is aligned, and no block reaches into another
or its header. -/
structure Sound (heap : Heap) : Prop where
  headed : ∀ a block, heap.find? a = some block → block.Headed
  header : ∀ a block, heap.find? a = some block → block.front ≤ a
  aligned : ∀ a block, heap.find? a = some block → a % block.front = 0
  below : ∀ a block, heap.find? a = some block → a + block.size ≤ heap.frontier
  bounded : ∀ a block, heap.find? a = some block → a + block.size < wordLimit
  apart : ∀ a block b other, heap.find? a = some block → heap.find? b = some other → a < b →
    a + block.size + other.front ≤ b

/-- A block of the layout, header included, may start at the base. -/
structure Fits (heap : Heap) (layout : Layout) (base : Nat) : Prop where
  aligned : base % layout.align = 0
  bounded : base + layout.size < wordLimit
  apart : ∀ a block, heap.find? a = some block →
    a + block.size ≤ base ∨ base + layout.size + block.front ≤ a

def placed (heap : Heap) (address : Nat) (payload : Layout) : Heap :=
  (heap.insert address { layout := payload.whole }).writeHeader address payload

def handed (heap : Heap) (address : Nat) (payload : Layout) (owner : Nat) : Heap :=
  (heap.placed address payload).give address owner

def moved (heap : Heap) (address newAddress : Nat) (block : Block) (size : Nat) : Heap :=
  ((heap.erase address).insert newAddress (block.stretch (size + block.front))).writeHeader
    newAddress { size, align := block.align }

theorem find?_empty (address : Nat) : ({} : Heap).find? address = none := by simp [find?]

theorem sound_empty : ({} : Heap).Sound := by
  constructor <;> intro a block
  all_goals simp [find?_empty]

theorem find?_placed (heap : Heap) (address : Nat) (payload : Layout) (a : Nat) :
    (heap.placed address payload).find? a =
      if address = a then some (Block.fresh payload) else heap.find? a := by
  rw [placed, find?_writeHeader, find?_insert]
  split <;> rfl

theorem find?_handed (heap : Heap) (address : Nat) (payload : Layout) (owner a : Nat) :
    (heap.handed address payload owner).find? a =
      if address = a then some (Block.issued payload owner) else heap.find? a := by
  rw [handed, find?_give, find?_placed]
  split <;> rfl

theorem find?_moved (heap : Heap) (address newAddress : Nat) (block : Block) (size a : Nat) :
    (heap.moved address newAddress block size).find? a =
      if newAddress = a then some (block.resize size)
      else if address = a then none else heap.find? a := by
  rw [moved, find?_writeHeader, find?_insert, find?_erase]
  split <;> rfl

variable {heap : Heap} {base : Nat}

/-- Blocks lie apart, so an address inside a block is in no other one. -/
theorem Sound.eq_of_address (sound : heap.Sound) {pointer other : Pointer} {count length : Nat}
    (here : heap.covers pointer count = true) (there : heap.covers other length = true)
    (first : 0 < count) (second : 0 < length) (same : other.address = pointer.address) :
    other = pointer := by
  obtain ⟨a, i⟩ := pointer
  obtain ⟨b, j⟩ := other
  rcases covers_iff.mp here with none | ⟨block, found, inside⟩
  · exact absurd none (Nat.ne_of_gt first)
  rcases covers_iff.mp there with none | ⟨block', found', inside'⟩
  · exact absurd none (Nat.ne_of_gt second)
  dsimp only [Pointer.address] at *
  rcases Nat.lt_trichotomy a b with before | rfl | behind
  · have apart := sound.apart a block b block' found found' before
    omega
  · rw [Nat.add_left_cancel same]
  · have apart := sound.apart b block' a block found' found behind
    omega

section Others

variable {address newAddress a : Nat} {block other : Block}

theorem ne_of_fresh (fresh : heap.find? address = none) (found : heap.find? a = some other) :
    address ≠ a := by
  rintro rfl
  rw [fresh] at found
  cases found

theorem find?_placed_of_some (payload : Layout) (fresh : heap.find? address = none)
    (found : heap.find? a = some other) :
    (heap.placed address payload).find? a = some other := by
  rw [find?_placed, if_neg (ne_of_fresh fresh found), found]

theorem find?_handed_of_some (payload : Layout) (owner : Nat) (fresh : heap.find? address = none)
    (found : heap.find? a = some other) :
    (heap.handed address payload owner).find? a = some other := by
  rw [find?_handed, if_neg (ne_of_fresh fresh found), found]

theorem find?_erase_of_ne (different : a ≠ address) :
    (heap.erase address).find? a = heap.find? a := by
  rw [find?_erase, if_neg (Ne.symm different)]

theorem ne_of_moved (fresh : (heap.erase address).find? newAddress = none) (different : a ≠ address)
    (found : heap.find? a = some other) : newAddress ≠ a := by
  rintro rfl
  rw [find?_erase_of_ne different, found] at fresh
  cases fresh

theorem find?_moved_of_ne {size : Nat} (fresh : (heap.erase address).find? newAddress = none)
    (different : a ≠ address) (found : heap.find? a = some other) :
    (heap.moved address newAddress block size).find? a = some other := by
  rw [find?_moved, if_neg (ne_of_moved fresh different found), if_neg (Ne.symm different), found]

end Others

theorem Fits.fresh {payload : Layout} (fits : heap.Fits payload.whole base) :
    heap.find? (base + headerOffset payload.align) = none := by
  have positive := headerOffset_pos payload.align
  cases found : heap.find? (base + headerOffset payload.align) with
  | none => rfl
  | some block =>
      have behind := block.front_pos
      rcases fits.apart _ _ found with before | after
      · omega
      · simp only [Layout.whole] at after
        omega

theorem Sound.with_block {after : Heap} (sound : heap.Sound) (block : Block) (base : Nat)
    (fits : heap.Fits block.layout base) (headed : block.Headed)
    (found : ∀ a, after.find? a = if base + block.front = a then some block else heap.find? a)
    (frontier : after.frontier = max heap.frontier (base + block.front + block.size)) :
    after.Sound := by
  have positive := block.front_pos
  have bounded := fits.bounded
  have extent : block.layout.size = block.size + block.front := by
    rw [headed.size_eq, headed.front_eq, headed]
    rfl
  have align : block.layout.align = block.front := by
    rw [headed.front_eq, headed]
    rfl
  rw [extent] at bounded
  have one {a : Nat} {other : Block} (there : after.find? a = some other) :
      base + block.front = a ∧ other = block ∨ heap.find? a = some other := by
    rw [found] at there
    split at there
    · rename_i same
      exact .inl ⟨same, (Option.some.inj there).symm⟩
    · exact .inr there
  constructor
  · intro a other there
    rcases one there with ⟨-, rfl⟩ | old
    · exact headed
    · exact sound.headed a other old
  · intro a other there
    rcases one there with ⟨rfl, rfl⟩ | old
    · omega
    · exact sound.header a other old
  · intro a other there
    rcases one there with ⟨rfl, rfl⟩ | old
    · rw [Nat.add_mod_right, ← align]
      exact fits.aligned
    · exact sound.aligned a other old
  · intro a other there
    rw [frontier]
    rcases one there with ⟨rfl, rfl⟩ | old
    · omega
    · have below := sound.below a other old
      omega
  · intro a other there
    rcases one there with ⟨rfl, rfl⟩ | old
    · omega
    · exact sound.bounded a other old
  · intro a first b second here there ordered
    rcases one here with ⟨rfl, rfl⟩ | old
    · rcases one there with ⟨rfl, rfl⟩ | behind
      · omega
      · have positive := second.front_pos
        rcases fits.apart b second behind with before | after
        · omega
        · omega
    · rcases one there with ⟨rfl, rfl⟩ | behind
      · have positive := first.front_pos
        rcases fits.apart a first old with before | after
        · omega
        · omega
      · exact sound.apart a first b second old behind ordered

/-- A heap is sound whose blocks are those of a sound one, but for what is in their payloads. -/
theorem Sound.of_kept {after : Heap} (sound : heap.Sound) (frontier : heap.frontier ≤ after.frontier)
    (kept : ∀ a block, after.find? a = some block → ∃ before, heap.find? a = some before ∧
      block.layout = before.layout ∧ block.header = before.header) : after.Sound := by
  have frames {a : Nat} {block : Block} (found : after.find? a = some block) :
      ∃ before, heap.find? a = some before ∧ block.front = before.front ∧
        block.size = before.size ∧ (before.Headed → block.Headed) := by
    obtain ⟨before, present, layout, header⟩ := kept a block found
    refine ⟨before, present, ?_, ?_, ?_⟩
    · rw [Block.front, Block.front, layout]
    · rw [Block.size, Block.size, Block.front, Block.front, layout]
    · intro headed
      rw [Block.Headed, layout, header]
      exact headed
  constructor
  · intro a block found
    obtain ⟨before, present, -, -, headed⟩ := frames found
    exact headed (sound.headed a before present)
  · intro a block found
    obtain ⟨before, present, front, -, -⟩ := frames found
    rw [front]
    exact sound.header a before present
  · intro a block found
    obtain ⟨before, present, front, -, -⟩ := frames found
    rw [front]
    exact sound.aligned a before present
  · intro a block found
    obtain ⟨before, present, -, size, -⟩ := frames found
    rw [size]
    exact (sound.below a before present).trans frontier
  · intro a block found
    obtain ⟨before, present, -, size, -⟩ := frames found
    rw [size]
    exact sound.bounded a before present
  · intro a block b other here there ordered
    obtain ⟨first, present, -, size, -⟩ := frames here
    obtain ⟨second, behind, front, -, -⟩ := frames there
    rw [size, front]
    exact sound.apart a first b second present behind ordered

theorem sound_erase (sound : heap.Sound) (address : Nat) : (heap.erase address).Sound := by
  refine sound.of_kept (Nat.le_refl _) ?_
  intro a block found
  rw [find?_erase] at found
  split at found
  · cases found
  · exact ⟨block, found, rfl, rfl⟩

theorem sound_placed {payload : Layout} (sound : heap.Sound) (fits : heap.Fits payload.whole base)
    (word : payload.align < wordLimit) :
    (heap.placed (base + headerOffset payload.align) payload).Sound := by
  have bounded := fits.bounded
  simp only [Layout.whole] at bounded
  apply sound.with_block (Block.fresh payload) base
  · rw [Block.layout_fresh]
    exact fits
  · exact Block.headed_fresh ⟨by omega, word⟩
  · intro a
    rw [find?_placed, Block.front_fresh]
  · rw [Block.front_fresh, Block.size_fresh]
    show max heap.frontier (base + headerOffset payload.align + Block.size { layout := _ }) = _
    rw [Block.size_plain]

theorem sound_give (sound : heap.Sound) (address owner : Nat) : (heap.give address owner).Sound := by
  refine sound.of_kept (Nat.le_refl _) ?_
  intro a block found
  rw [find?_give] at found
  split at found
  · obtain ⟨before, present, rfl⟩ := Option.map_eq_some_iff.mp found
    exact ⟨before, present, rfl, rfl⟩
  · exact ⟨block, found, rfl, rfl⟩

theorem sound_moved {address size : Nat} {block : Block} (sound : heap.Sound)
    (headed : block.Headed)
    (fits : (heap.erase address).Fits { size := size + block.front, align := block.front } base) :
    (heap.moved address (base + block.front) block size).Sound := by
  have bounded := fits.bounded
  simp only at bounded
  have layout : (block.resize size).layout =
      { size := size + block.front, align := block.front } := by
    rw [Block.resize, Block.layout_withHeader, Block.stretch, headed.front_eq, headed]
    rfl
  apply (sound_erase sound address).with_block (block.resize size) base
  · rw [layout]
    exact fits
  · exact Block.headed_resize headed (by omega)
  · intro a
    rw [find?_moved, Block.front_resize, find?_erase]
  · rw [Block.front_resize, Block.size_resize]
    show max heap.frontier (base + block.front + (block.stretch _).size) = _
    rw [Block.size_stretch, Nat.add_sub_cancel]
    rfl

theorem find?_write_some {pointer : Pointer} {values : List UInt8} {a : Nat} {block : Block}
    (found : (heap.write pointer values).find? a = some block) :
    ∃ before, heap.find? a = some before ∧ block.size = before.size ∧
      block.align = before.align ∧ block.owner = before.owner := by
  rw [find?_write] at found
  split at found
  · obtain ⟨before, present, rfl⟩ := Option.map_eq_some_iff.mp found
    exact ⟨before, present, rfl, before.align_write _ _, rfl⟩
  · exact ⟨block, found, rfl, rfl, rfl⟩

theorem find?_write_of_some (pointer : Pointer) (values : List UInt8) {a : Nat} {block : Block}
    (found : heap.find? a = some block) :
    ∃ after, (heap.write pointer values).find? a = some after ∧ after.size = block.size ∧
      after.align = block.align ∧ after.owner = block.owner := by
  rw [find?_write]
  split
  · exact ⟨block.write pointer.offset values, by rw [found]; rfl, rfl, block.align_write _ _, rfl⟩
  · exact ⟨block, found, rfl, rfl, rfl⟩

theorem sound_write (sound : heap.Sound) (pointer : Pointer) (values : List UInt8) :
    (heap.write pointer values).Sound := by
  refine sound.of_kept (Nat.le_refl _) ?_
  intro a block found
  rw [find?_write] at found
  split at found
  · obtain ⟨before, present, rfl⟩ := Option.map_eq_some_iff.mp found
    exact ⟨before, present, rfl, before.header_write _ _⟩
  · exact ⟨block, found, rfl, rfl⟩

/-- Blocks of a sound heap share no address and leave some for their headers, so all their bytes
together are fewer than the addresses. -/
theorem Sound.sum_sizes_lt (sound : heap.Sound) (blocks : Finset (Nat × Nat))
    (present : ∀ entry ∈ blocks, ∃ block, heap.find? entry.1 = some block ∧ block.size = entry.2) :
    ∑ entry ∈ blocks, entry.2 < wordLimit := by
  have disjoint : (blocks : Set (Nat × Nat)).PairwiseDisjoint
      fun entry => Finset.Ico entry.1 (entry.1 + entry.2) := by
    intro first here second there different
    rcases present first here with ⟨block, found, size⟩
    rcases present second there with ⟨other, foundThere, otherSize⟩
    rw [Function.onFun, Finset.disjoint_left]
    intro address inFirst inSecond
    rw [Finset.mem_Ico] at inFirst inSecond
    rcases Nat.lt_trichotomy first.1 second.1 with less | equal | greater
    · have apart := sound.apart _ _ _ _ found foundThere less
      omega
    · rw [equal, foundThere] at found
      cases found
      exact different (Prod.ext equal (size.symm.trans otherSize))
    · have apart := sound.apart _ _ _ _ foundThere found greater
      omega
  have inside : blocks.biUnion (fun entry => Finset.Ico entry.1 (entry.1 + entry.2)) ⊆
      Finset.Ico 1 wordLimit := by
    intro address member
    obtain ⟨entry, here, bounds⟩ := Finset.mem_biUnion.mp member
    rcases present entry here with ⟨block, found, size⟩
    rw [Finset.mem_Ico] at bounds ⊢
    have header := sound.header _ _ found
    have positive := block.front_pos
    have bounded := sound.bounded _ _ found
    omega
  have count := Finset.card_le_card inside
  rw [Finset.card_biUnion disjoint, Nat.card_Ico] at count
  simp only [Nat.card_Ico, Nat.add_sub_cancel_left] at count
  have positive : 0 < wordLimit := by decide
  omega

theorem Sound.card_lt (sound : heap.Sound) (blocks : Finset (Nat × Nat))
    (present : ∀ entry ∈ blocks, ∃ block, heap.find? entry.1 = some block ∧ block.size = entry.2) :
    blocks.card < wordLimit := by
  have inside : ∀ entry ∈ blocks, entry.1 ∈ Finset.Ico 1 wordLimit := by
    intro entry here
    rcases present entry here with ⟨block, found, -⟩
    rw [Finset.mem_Ico]
    have header := sound.header _ _ found
    have positive := block.front_pos
    have bounded := sound.bounded _ _ found
    omega
  have injective : Set.InjOn Prod.fst (blocks : Set (Nat × Nat)) := by
    intro first here second there same
    rcases present first here with ⟨block, found, size⟩
    rcases present second there with ⟨other, foundThere, otherSize⟩
    rw [same, foundThere] at found
    cases found
    exact Prod.ext same (size.symm.trans otherSize)
  have count := Finset.card_le_card_of_injOn Prod.fst inside injective
  rw [Nat.card_Ico] at count
  have positive : 0 < wordLimit := by decide
  omega

end Heap

/-- What the system promises: where it puts a block, the block lies inside the address space,
aligned, and apart from all others. A block that is resized may take its own place again. -/
structure Allocator.Lawful (allocator : Allocator) : Prop where
  place : ∀ heap layout base, heap.Sound → isPowerOfTwo layout.align = true →
    allocator.place heap layout = some base → heap.Fits layout base
  move : ∀ heap base block layout size newBase, heap.Sound →
    heap.find? (base + headerOffset layout.align) = some block → block.layout = layout →
    isPowerOfTwo layout.align = true → allocator.move heap base layout size = some newBase →
    (heap.erase (base + headerOffset layout.align)).Fits { layout with size } newBase

namespace Allocator

theorem frontier_le_nextBase (heap : Heap) (layout : Layout)
    (power : isPowerOfTwo layout.align = true) : heap.frontier ≤ nextBase heap layout := by
  unfold nextBase
  split
  · exact le_alignUp _ (by decide)
  · exact le_alignUp _ (isPowerOfTwo_pos power)

theorem nextBase_aligned (heap : Heap) (layout : Layout)
    (power : isPowerOfTwo layout.align = true) : nextBase heap layout % layout.align = 0 := by
  unfold nextBase
  split
  · rename_i small
    have divides : layout.align ∣ pageSize :=
      isPowerOfTwo_dvd power (by decide) (Nat.le_trans small.2 (by decide))
    exact Nat.mod_eq_zero_of_dvd (divides.trans (Nat.dvd_of_mod_eq_zero (alignUp_mod _ _)))
  · exact alignUp_mod _ _

theorem fits_above {heap : Heap} {layout : Layout} {base : Nat} (sound : heap.Sound)
    (power : isPowerOfTwo layout.align = true) (placed : above heap layout = some base) :
    heap.Fits layout base := by
  unfold above at placed
  split at placed
  · cases placed
  · split at placed
    · rename_i bounded
      cases placed
      exact
        { aligned := nextBase_aligned heap layout power
          bounded := bounded
          apart := fun a block found =>
            .inl (Nat.le_trans (sound.below a block found) (frontier_le_nextBase heap layout power)) }
    · cases placed

theorem ascending_lawful : ascending.Lawful where
  place _ _ _ sound power placed := fits_above sound power placed
  move heap _ _ layout size newBase sound _ _ power placed := by
    have fits : heap.Fits { layout with size } newBase := fits_above sound power placed
    refine ⟨fits.aligned, fits.bounded, ?_⟩
    intro a other found
    rw [Heap.find?_erase] at found
    split at found
    · cases found
    · exact fits.apart a other found

end Allocator

end SymbolStore
