import SymbolStore.Proofs.Memory.Effect

/-!
Managers in a sound process. A block that is handed out is new and a block that is held can be
given back, while all others stay as they are. Nothing but a shortage of memory, or of numbers to
count allocations with, makes a request fail.
-/

namespace SymbolStore

open SymbolStore.Action (Ends)

namespace Manager

/-- How a request for memory may fail: there is none left, or no allocation can be counted any
more. -/
def Denies (manager : Manager) (process : Process) (failure : Failure) : Prop :=
  (∃ requested, failure = .error (.outOfMemory requested)) ∨
    failure = .fault (.overflow .add) ∧ (manager.ledgerIn process).Exhausted

structure Grants (manager : Manager) (before after : Process) (payload : Layout)
    (address : Nat) : Prop where
  evolves : before.Evolves after []
  fresh : before.heap.find? address = none
  block : after.heap.find? address = some (Block.issued payload manager.id)
  holds : manager.Holds after address payload.size

variable {manager : Manager} {process : Process}

theorem HandsOut.grants {after : Process} {payload : Layout} {address : Nat}
    (handed : manager.HandsOut process after payload address) :
    manager.Grants process after payload address := by
  have block : after.heap.find? address = some (Block.issued payload manager.id) := by
    rw [handed.turns.heap_eq, Heap.find?_handed, if_pos rfl]
  have ledger := handed.turns.ledgers manager
  rw [if_pos rfl] at ledger
  refine ⟨handed.evolves, handed.fresh, block, ⟨_, block, Block.size_issued _ _, rfl⟩, ?_⟩
  intro tracked
  rw [ledger] at tracked ⊢
  rw [Ledger.isTracked_acquired] at tracked
  rw [Ledger.acquired, if_pos tracked]
  exact Std.TreeMap.getElem?_insert_self

theorem Moves.block {after : Process} {address newAddress newSize : Nat} {block : Block}
    (moves : manager.Moves process after address block newAddress newSize) :
    after.heap.find? newAddress = some (block.resize newSize) := by
  rw [moves.turns.heap_eq, Heap.find?_moved, if_pos rfl]

theorem Moves.owner {after : Process} {address newAddress newSize : Nat} {block : Block}
    (moves : manager.Moves process after address block newAddress newSize) :
    block.owner = some manager.id := by
  obtain ⟨other, present, -, owner⟩ := moves.holds.present
  rw [moves.found] at present
  cases present
  exact owner

theorem Moves.held {after : Process} {address newAddress newSize : Nat} {block : Block}
    (moves : manager.Moves process after address block newAddress newSize) :
    manager.Holds after newAddress newSize := by
  have ledger := moves.turns.ledgers manager
  rw [if_pos rfl] at ledger
  refine ⟨⟨_, moves.block, Block.size_resize _ _,
    (Block.owner_resize _ _).trans moves.owner⟩, ?_⟩
  intro tracked
  rw [ledger] at tracked ⊢
  rw [Ledger.isTracked_resized] at tracked
  rw [Ledger.resized, if_pos tracked, Ledger.live_withMoved, if_pos rfl]

theorem Refuses.denies {align : Nat} {failure : Failure} {after : Process}
    (refuses : manager.Refuses process align failure after) (sound : process.Sound)
    (power : isPowerOfTwo align = true) :
    process.Evolves after [] ∧ manager.Denies after failure := by
  rcases refuses with ⟨⟨odd, -⟩ | memory, remarks⟩ |
    ⟨overflow, exhausted, evolves, -, address, size, -, -, turns⟩
  · exact absurd (odd.symm.trans power) Bool.false_ne_true
  · exact ⟨remarks.evolves sound, .inl memory⟩
  · refine ⟨evolves, .inr ⟨overflow, ?_⟩⟩
    rw [turns.ledgers, if_pos rfl]
    exact exhausted

theorem allocate_ends (payload : Layout) (sound : process.Sound)
    (power : isPowerOfTwo payload.align = true) :
    Ends (manager.allocate payload) process
      (fun address after => manager.Grants process after payload address)
      fun failure after => process.Evolves after [] ∧ manager.Denies after failure :=
  (allocate_effect payload sound).mono (fun _ _ handed => handed.grants)
    fun _ _ refuses => refuses.denies sound power

theorem allocateArray_ends (element : Layout) (count : Nat) (sound : process.Sound)
    (power : isPowerOfTwo element.align = true) :
    Ends (manager.allocateArray element count) process
      (fun address after => manager.Grants process after
        { size := element.size * count, align := element.align } address)
      fun failure after => process.Evolves after [] ∧ manager.Denies after failure :=
  (allocateArray_effect element count sound).mono (fun _ _ handed => handed.grants)
    fun _ _ refuses => refuses.denies sound power

/-- A block that is held can always be given back. -/
theorem free_takes {address size : Nat} (sound : process.Sound)
    (holds : manager.Holds process address size) :
    Ends (manager.free address) process
      (fun _ after => ∃ size, manager.TakesBack process after address size) fun _ _ => False :=
  (free_effect address sound holds.given).mono (fun _ _ taken => taken) fun _ _ ends =>
    ends.2.unheld size (fun _ claimed => nomatch claimed) holds

theorem free_ends {address size : Nat} (sound : process.Sound)
    (holds : manager.Holds process address size) :
    Ends (manager.free address) process (fun _ after => process.Evolves after [address])
      fun _ _ => False := by
  apply (free_takes sound holds).mono ?_ fun _ _ none => none
  intro _ after ends
  obtain ⟨_, taken⟩ := ends
  exact taken.evolves

theorem freeAll_ends (blocks : List Nat) (sound : process.Sound) (distinct : blocks.Nodup)
    (holds : ∀ block ∈ blocks, ∃ size, manager.Holds process block size) :
    Ends (blocks.forM manager.free) process (fun _ after => process.Evolves after blocks)
      fun _ _ => False := by
  induction blocks generalizing process with
  | nil => exact .refl sound
  | cons block rest ih =>
      obtain ⟨unlike, distinct⟩ := List.nodup_cons.mp distinct
      rcases holds block List.mem_cons_self with ⟨size, held⟩
      rw [List.forM]
      apply (free_ends sound held).bind (fun _ _ none => none)
      intro _ between first
      refine (ih first.sound distinct ?_).mono (fun _ _ others => first.trans others)
        fun _ _ none => none
      intro other member
      rcases holds other (List.mem_cons_of_mem _ member) with ⟨sizeThere, heldThere⟩
      refine ⟨sizeThere, first.held _ _ _ ?_ heldThere⟩
      intro same
      exact unlike (List.mem_singleton.mp same ▸ member)

theorem ledgerIn_holders (manager : Manager) (process : Process) (count : Nat) (other : Manager) :
    ∃ holders, other.ledgerIn { process with
      ledgers := process.ledgers.modify manager.id fun _ =>
        { manager.ledgerIn process with holders := count } } =
      { other.ledgerIn process with holders } := by
  simp only [ledgerIn, Std.TreeMap.getD_eq_getD_getElem?, Std.TreeMap.getElem?_modify]
  split
  · rename_i same
    rw [Nat.compare_eq_eq] at same
    rw [same]
    cases process.ledgers[other.id]? <;> exact ⟨_, rfl⟩
  · exact ⟨_, rfl⟩

theorem evolves_holders (sound : process.Sound) (count : Nat) :
    process.Evolves { process with
      ledgers := process.ledgers.modify manager.id fun _ =>
        { manager.ledgerIn process with holders := count } } [] := by
  have same := manager.ledgerIn_holders process count
  refine ⟨⟨sound.lawful, sound.heap, ?_⟩, ?_, ?_, ?_⟩
  · intro other tracked
    rcases same other with ⟨holders, equal⟩
    rw [equal] at tracked ⊢
    have agrees := sound.ledgers other tracked
    exact ⟨agrees.placed, agrees.bytes, agrees.count⟩
  · intro a block _ found
    exact found
  · intro other a size _ holds
    refine ⟨holds.present, ?_⟩
    rcases same other with ⟨holders, equal⟩
    rw [equal]
    exact holds.recorded
  · intro other
    rcases same other with ⟨holders, equal⟩
    rw [equal]

theorem retain_ends (sound : process.Sound) :
    Ends manager.retain process
      (fun _ after => process.Evolves after [] ∧ after.heap = process.heap) fun _ _ => False := by
  rw [retain, Action.ends_bind, ends_ledger, ends_setLedger]
  exact ⟨evolves_holders sound _, rfl⟩

theorem release_heap (manager : Manager) (process : Process) :
    Ends manager.release process (fun _ after => after.heap = process.heap) fun _ _ => False := by
  simp only [release, Action.ends_bind, ends_ledger]
  split
  · rfl
  · split
    · rfl
    · rfl

theorem ledgerIn_create (config : Config) (process : Process) (other : Manager) :
    other.ledgerIn ((create config).runFrom process).2 =
      if process.nextManager = other.id then { config } else other.ledgerIn process := by
  show (process.ledgers.insert process.nextManager { config }).getD other.id .closed = _
  rw [Std.TreeMap.getD_insert]
  simp only [Nat.compare_eq_eq]
  rfl

theorem sound_created (sound : process.Sound) (config : Config) :
    ((create config).runFrom process).2.Sound where
  lawful := sound.lawful
  heap := sound.heap
  ledgers other tracked := by
    rw [ledgerIn_create] at tracked ⊢
    split
    · exact Ledger.agrees_unused config 1 _ _
    · rename_i different
      rw [if_neg different] at tracked
      exact sound.ledgers other tracked

theorem ledgerIn_erase (manager : Manager) (process : Process) (journal : Journal)
    (other : Manager) :
    other.ledgerIn { process with journal, ledgers := process.ledgers.erase manager.id } =
      if manager = other then .closed else other.ledgerIn process := by
  show (process.ledgers.erase manager.id).getD other.id .closed = _
  rw [Std.TreeMap.getD_erase]
  by_cases equal : manager = other
  · rw [if_pos equal, if_pos (by rw [equal]; exact Nat.compare_eq_eq.mpr rfl)]
  · rw [if_neg equal, if_neg]
    · rfl
    · rw [Nat.compare_eq_eq]
      exact fun id => equal (eq_of_id id)

theorem sound_erased (sound : process.Sound) (manager : Manager) (journal : Journal) :
    Process.Sound { process with journal, ledgers := process.ledgers.erase manager.id } where
  lawful := sound.lawful
  heap := sound.heap
  ledgers other tracked := by
    rw [ledgerIn_erase] at tracked ⊢
    split
    · rename_i same
      rw [if_pos same] at tracked
      cases tracked
    · rename_i different
      rw [if_neg different] at tracked
      exact sound.ledgers other tracked

theorem sound_unused {journal : Journal} {config : Config} {allocator : Allocator}
    (lawful : allocator.Lawful) : Process.Sound { journal, config, allocator } where
  lawful := lawful
  heap := Heap.sound_empty
  ledgers manager tracked := by
    have closed : manager.ledgerIn { journal, config, allocator } = .closed := by
      rw [ledgerIn, Std.TreeMap.getD_eq_getD_getElem?, Std.TreeMap.getElem?_emptyc]
      rfl
    rw [closed] at tracked
    cases tracked

theorem sound_create {allocator : Allocator} (lawful : allocator.Lawful) (config : Config) :
    ((create config).runFrom { allocator }).2.Sound :=
  sound_created (sound_unused lawful) config

end Manager

end SymbolStore
