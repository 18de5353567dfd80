import SymbolStore.Memory.Manager
import SymbolStore.Proofs.Memory.Access
import SymbolStore.Proofs.Memory.Ledger

/-! Processes whose ledgers agree with the heap, and what they keep of their blocks over time. -/

namespace SymbolStore

/-- The system keeps its promises, and every ledger of a tracked manager agrees with the heap. -/
structure Process.Sound (process : Process) : Prop where
  lawful : process.allocator.Lawful
  heap : process.heap.Sound
  ledgers : ∀ manager : Manager, (manager.ledgerIn process).isTracked = true →
    (manager.ledgerIn process).Agrees manager.id process.heap

namespace Manager

theorem eq_of_id {manager other : Manager} (same : manager.id = other.id) : manager = other := by
  cases manager
  cases other
  exact congrArg Manager.mk same

structure Holds (manager : Manager) (process : Process) (address size : Nat) : Prop where
  present : ∃ block, process.heap.find? address = some block ∧ block.size = size ∧
    block.owner = some manager.id
  recorded : (manager.ledgerIn process).isTracked = true →
    (manager.ledgerIn process).live[address]? = some size

section Holds

variable {manager : Manager} {process : Process} {address size : Nat}
  (holds : manager.Holds process address size)
include holds

theorem Holds.fits (sound : process.Sound) : address + size < wordLimit := by
  rcases holds.present with ⟨block, found, rfl, -⟩
  exact sound.heap.bounded _ _ found

theorem Holds.covers {pointer : Pointer} {count : Nat} (here : pointer.block = address)
    (inside : pointer.offset + count ≤ size) : process.heap.covers pointer count = true := by
  rcases holds.present with ⟨block, found, rfl, -⟩
  exact Heap.covers_of_find? (here ▸ found) inside

theorem Holds.ne_of_fresh {other : Nat} (fresh : process.heap.find? other = none) :
    address ≠ other := by
  intro same
  rcases holds.present with ⟨block, found, -⟩
  rw [same, fresh] at found
  cases found

end Holds

end Manager

theorem Process.modify_elsewhere (ledgers : Std.TreeMap Nat Ledger) (f : Ledger → Ledger)
    {id other : Nat} (different : other ≠ id) : (ledgers.modify id f)[other]? = ledgers[other]? := by
  rw [Std.TreeMap.getElem?_modify, if_neg]
  rw [Nat.compare_eq_eq]
  exact Ne.symm different

theorem Process.modify_here (ledgers : Std.TreeMap Nat Ledger) (f : Ledger → Ledger) (id : Nat) :
    (ledgers.modify id f)[id]? = (ledgers[id]?).map f := by
  rw [Std.TreeMap.getElem?_modify, if_pos (Nat.compare_eq_eq.mpr rfl)]

/-- The later process is sound and has all blocks of the earlier one, byte for byte, except those
that were freed. -/
structure Process.Evolves (before after : Process) (freed : List Nat) : Prop where
  sound : after.Sound
  blocks : ∀ a block, a ∉ freed → before.heap.find? a = some block →
    after.heap.find? a = some block
  held : ∀ (manager : Manager) a size, a ∉ freed → manager.Holds before a size →
    manager.Holds after a size
  config : ∀ manager : Manager,
    (manager.ledgerIn after).config = (manager.ledgerIn before).config

namespace Process

theorem Evolves.trans {first second third : Process} {freed freed' : List Nat}
    (here : first.Evolves second freed) (there : second.Evolves third freed') :
    first.Evolves third (freed ++ freed') where
  sound := there.sound
  blocks a block kept found := by
    rw [List.mem_append, not_or] at kept
    exact there.blocks a block kept.2 (here.blocks a block kept.1 found)
  held manager a size kept holds := by
    rw [List.mem_append, not_or] at kept
    exact there.held manager a size kept.2 (here.held manager a size kept.1 holds)
  config manager := (there.config manager).trans (here.config manager)

theorem Evolves.of_fresh {before after : Process} {address : Nat}
    (evolves : before.Evolves after [address]) (fresh : before.heap.find? address = none) :
    before.Evolves after [] where
  sound := evolves.sound
  blocks a block _ found := by
    apply evolves.blocks a block ?_ found
    intro same
    rw [List.mem_singleton.mp same, fresh] at found
    cases found
  held manager a size _ holds := by
    apply evolves.held manager a size ?_ holds
    intro same
    exact holds.ne_of_fresh fresh (List.mem_singleton.mp same)
  config := evolves.config

theorem Evolves.keeps {before after : Process} {freed : List Nat}
    (evolves : before.Evolves after freed) {pointer : Pointer} (kept : pointer.block ∉ freed)
    (present : ∃ block, before.heap.find? pointer.block = some block) (count : Nat) :
    before.heap.Keeps after.heap pointer count := by
  rcases present with ⟨block, found⟩
  exact Heap.keeps_of_find? ((evolves.blocks _ block kept found).trans found.symm)

theorem Evolves.refl {process : Process} (sound : process.Sound) : process.Evolves process [] where
  sound := sound
  blocks _ _ _ found := found
  held _ _ _ _ holds := holds
  config _ := rfl

theorem evolves_journal {process : Process} (sound : process.Sound) (journal : Journal) :
    process.Evolves { process with journal } [] where
  sound := ⟨sound.lawful, sound.heap, sound.ledgers⟩
  blocks _ _ _ found := found
  held _ _ _ _ holds := ⟨holds.present, holds.recorded⟩
  config _ := rfl

/-- Blocks that come concern no ledger that does not know of them. -/
theorem evolves_grown {process : Process} {heap : Heap} (sound : process.Sound)
    (heapSound : heap.Sound)
    (kept : ∀ a block, process.heap.find? a = some block → heap.find? a = some block) :
    process.Evolves { process with heap } [] where
  sound :=
    { lawful := sound.lawful
      heap := heapSound
      ledgers := fun manager tracked => (sound.ledgers manager tracked).mono
        fun a _ block _ found => ⟨block, kept a block found, rfl, rfl⟩ }
  blocks a block _ found := kept a block found
  held manager a size _ holds := by
    rcases holds.present with ⟨block, found, rest⟩
    exact ⟨⟨block, kept a block found, rest⟩, holds.recorded⟩
  config _ := rfl

theorem Sound.write {process : Process} (sound : process.Sound) (pointer : Pointer)
    (values : List UInt8) :
    Process.Sound { process with heap := process.heap.write pointer values } where
  lawful := sound.lawful
  heap := Heap.sound_write sound.heap pointer values
  ledgers manager tracked := (sound.ledgers manager tracked).mono fun _ _ _ _ found =>
    have ⟨block, present, size, _, owner⟩ := Heap.find?_write_of_some pointer values found
    ⟨block, present, size, owner⟩

theorem holds_write {process : Process} {manager : Manager} {address size : Nat}
    (holds : manager.Holds process address size) (pointer : Pointer) (values : List UInt8) :
    manager.Holds { process with heap := process.heap.write pointer values } address size where
  present := by
    rcases holds.present with ⟨block, found, sized, owner⟩
    rcases Heap.find?_write_of_some pointer values found with
      ⟨after, present, sizeAfter, -, ownerAfter⟩
    exact ⟨after, present, sizeAfter.trans sized, ownerAfter.trans owner⟩
  recorded := holds.recorded

/-- The later process differs from the earlier one in the bytes of these blocks only. -/
structure Overwrites (before after : Process) (blocks : List Nat) : Prop where
  sound : after.Sound
  held : ∀ (manager : Manager) a size, manager.Holds before a size → manager.Holds after a size
  others : ∀ a, a ∉ blocks → after.heap.find? a = before.heap.find? a
  ledgers : after.ledgers = before.ledgers

theorem Overwrites.refl {process : Process} (sound : process.Sound) (blocks : List Nat) :
    process.Overwrites process blocks where
  sound := sound
  held _ _ _ holds := holds
  others _ _ := rfl
  ledgers := rfl

theorem Overwrites.trans {first second third : Process} {blocks others : List Nat}
    (here : first.Overwrites second blocks) (there : second.Overwrites third others) :
    first.Overwrites third (blocks ++ others) where
  sound := there.sound
  held manager a size holds := there.held manager a size (here.held manager a size holds)
  others a untouched := by
    rw [List.mem_append, not_or] at untouched
    exact (there.others a untouched.2).trans (here.others a untouched.1)
  ledgers := there.ledgers.trans here.ledgers

theorem overwrites_write {process : Process} (sound : process.Sound) (pointer : Pointer)
    (values : List UInt8) :
    process.Overwrites { process with heap := process.heap.write pointer values }
      [pointer.block] where
  sound := sound.write pointer values
  held _ _ _ holds := holds_write holds pointer values
  others a untouched := by
    rw [Heap.find?_write, if_neg]
    intro same
    subst same
    exact untouched (List.mem_singleton.mpr rfl)
  ledgers := rfl

theorem Overwrites.logged {before after : Process} {blocks : List Nat}
    (overwrites : before.Overwrites after blocks) (journal : Journal) :
    before.Overwrites { after with journal } blocks where
  sound := ⟨overwrites.sound.lawful, overwrites.sound.heap, overwrites.sound.ledgers⟩
  held manager a size holds :=
    have held := overwrites.held manager a size holds
    ⟨held.present, held.recorded⟩
  others := overwrites.others
  ledgers := overwrites.ledgers

theorem evolves_nextRegion {process : Process} (sound : process.Sound) (nextRegion : Nat) :
    process.Evolves { process with nextRegion } [] where
  sound := ⟨sound.lawful, sound.heap, sound.ledgers⟩
  blocks _ _ _ found := found
  held _ _ _ _ holds := ⟨holds.present, holds.recorded⟩
  config _ := rfl

theorem ledgerIn_set {process : Process} {manager : Manager} (heap : Heap) (ledger : Ledger)
    (known : manager.ledgerIn process ≠ .closed) (other : Manager) :
    other.ledgerIn { process with
      heap, ledgers := process.ledgers.modify manager.id fun _ => ledger } =
      if manager = other then ledger else other.ledgerIn process := by
  unfold Manager.ledgerIn at known ⊢
  rw [Std.TreeMap.getD_modify]
  by_cases same : manager = other
  · subst same
    rw [if_pos rfl, if_pos (Nat.compare_eq_eq.mpr rfl)]
    cases found : process.ledgers[manager.id]? with
    | some earlier => rfl
    | none =>
        rw [Std.TreeMap.getD_eq_getD_getElem?, found] at known
        exact absurd rfl known
  · rw [if_neg same, if_neg]
    rw [Nat.compare_eq_eq]
    exact fun equal => same (Manager.eq_of_id equal)

theorem ledgerIn_modify {process : Process} {manager : Manager} (heap : Heap) (ledger : Ledger)
    (tracked : (manager.ledgerIn process).isTracked = true) (other : Manager) :
    other.ledgerIn { process with
      heap, ledgers := process.ledgers.modify manager.id fun _ => ledger } =
      if manager = other then ledger else other.ledgerIn process := by
  apply ledgerIn_set
  intro closed
  rw [closed] at tracked
  cases tracked

section Change

variable {process : Process} {manager : Manager} {heap : Heap} {freed : List Nat}
  (sound : process.Sound) (heapSound : heap.Sound)
  (kept : ∀ a block, a ∉ freed → process.heap.find? a = some block → heap.find? a = some block)
  (own : ∀ a block, a ∈ freed → process.heap.find? a = some block →
    block.owner = some manager.id)
include sound kept own

theorem agrees_of_kept {other : Manager} (different : manager ≠ other)
    (tracked : (other.ledgerIn process).isTracked = true) :
    (other.ledgerIn process).Agrees other.id heap := by
  have agrees := sound.ledgers other tracked
  apply agrees.mono
  intro a size block recorded found
  refine ⟨block, kept a block ?_ found, rfl, rfl⟩
  intro gone
  rcases agrees.placed a size recorded with ⟨block', found', -, owner⟩
  rw [found] at found'
  cases found'
  rw [own a block gone found] at owner
  rcases owner with same | ⟨nobody, -⟩
  · exact different (Manager.eq_of_id (Option.some.inj same))
  · cases nobody

include heapSound

/-- The heap changes together with the ledger of the tracked manager whose blocks are concerned. -/
theorem evolves_tracked {ledger : Ledger}
    (tracked : (manager.ledgerIn process).isTracked = true) (agrees : ledger.Agrees manager.id heap)
    (config : ledger.config = (manager.ledgerIn process).config)
    (live : ∀ a size : Nat, a ∉ freed → (manager.ledgerIn process).live[a]? = some size →
      ledger.live[a]? = some size) :
    process.Evolves { process with
      heap, ledgers := process.ledgers.modify manager.id fun _ => ledger } freed := by
  have ledgerIn := ledgerIn_modify heap ledger tracked
  constructor
  · refine ⟨sound.lawful, heapSound, ?_⟩
    intro other trackedThere
    rw [ledgerIn] at trackedThere ⊢
    by_cases same : manager = other
    · rw [if_pos same]
      exact same ▸ agrees
    · rw [if_neg same] at trackedThere ⊢
      exact agrees_of_kept sound kept own same trackedThere
  · exact kept
  · intro other a size here holds
    rcases holds.present with ⟨block, found, rest⟩
    refine ⟨⟨block, kept a block here found, rest⟩, ?_⟩
    rw [ledgerIn]
    split
    · rename_i same
      intro _
      exact live a size here (same ▸ holds.recorded (same ▸ tracked))
    · exact holds.recorded
  · intro other
    rw [ledgerIn]
    split
    · rename_i same
      exact same ▸ config
    · rfl

/-- The heap changes under a raw manager, which keeps no ledger of its blocks. -/
theorem evolves_raw (raw : (manager.ledgerIn process).isTracked = false) :
    process.Evolves { process with heap } freed := by
  constructor
  · refine ⟨sound.lawful, heapSound, ?_⟩
    intro other tracked
    have different : manager ≠ other := by
      intro same
      subst same
      exact Bool.false_ne_true (raw.symm.trans tracked)
    exact agrees_of_kept sound kept own different tracked
  · exact kept
  · intro other a size here holds
    rcases holds.present with ⟨block, found, rest⟩
    exact ⟨⟨block, kept a block here found, rest⟩, holds.recorded⟩
  · intro other
    rfl

end Change

end Process

end SymbolStore
