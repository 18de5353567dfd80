import SymbolStore.Proofs.Region.Valid

/-!
The operations of a region in a sound process. Each keeps the region valid and in possession of its
chunks.
-/

namespace SymbolStore

open SymbolStore.Action (Ends)

namespace Chunk

theorem create_ends {manager : Manager} {process : Process} (capacity : Nat)
    (sound : process.Sound) :
    Ends (create manager capacity) process
      (fun chunk after => chunk.used = 0 ∧ process.heap.find? chunk.block = none ∧
        manager.Holds after chunk.block chunk.capacity ∧ process.Evolves after [])
      fun failure after => process.Evolves after [] ∧ manager.Denies after failure := by
  refine (Manager.allocate_ends { size := capacity, align := blockAlign } sound
    isPowerOfTwo_blockAlign).bind (fun _ _ denied => denied) ?_
  intro block after granted
  have logged := Process.evolves_journal granted.evolves.sound
  simp only [Action.ends_bind, Process.ends_log, Action.ends_pure]
  exact ⟨trivial, granted.fresh, (logged _).held _ _ _ List.not_mem_nil granted.holds,
    granted.evolves.trans (logged _)⟩

/-- The chunks lie in blocks of the heap. -/
def Lodged (chunks : List Chunk) (heap : Heap) : Prop :=
  ∀ chunk ∈ chunks, heap.covers { block := chunk.block, offset := 0 } chunk.capacity = true

section Lodged

variable {chunks : List Chunk} {heap : Heap} (lodged : Lodged chunks heap)
include lodged

theorem Lodged.covers {chunk : Chunk} (member : chunk ∈ chunks) {pointer : Pointer} {count : Nat}
    (here : chunk.block = pointer.block) (inside : pointer.offset + count ≤ chunk.capacity) :
    heap.covers pointer count = true := by
  have place : pointer = Pointer.plus { block := chunk.block, offset := 0 } pointer.offset := by
    rw [here, Pointer.plus, Nat.zero_add]
  rw [place]
  exact Heap.covers_plus (lodged chunk member) inside

theorem Lodged.write (pointer : Pointer) (values : List UInt8) :
    Lodged chunks (heap.write pointer values) := fun chunk member =>
  Heap.covers_write.trans (lodged chunk member)

end Lodged

theorem Lodged.ends_erase {chunks : List Chunk} {process : Process} {chunk : Chunk}
    (lodged : Lodged chunks process.heap) (member : chunk ∈ chunks) (used : chunk.used ≤ chunk.capacity)
    {done : Unit → Process → Prop} {failed : Failure → Process → Prop} :
    Ends chunk.erase process done failed ↔
      done () { process with
        heap := process.heap.write { block := chunk.block, offset := 0 }
          (List.replicate chunk.used poison) } := by
  have inside : 0 + (List.replicate chunk.used poison).length ≤ chunk.capacity := by
    rw [List.length_replicate, Nat.zero_add]
    exact used
  rw [erase, Process.ends_store, if_pos (lodged.covers member rfl inside)]

end Chunk

namespace Region

/-- The chunks of a region are live blocks, and no two are one. -/
structure Owns (region : Region) (process : Process) : Prop where
  held : ∀ chunk ∈ region.chunks, region.manager.Holds process chunk.block chunk.capacity
  apart : (region.chunks.map Chunk.block).Nodup

structure SoundIn (region : Region) (process : Process) : Prop where
  memory : process.Sound
  valid : region.Valid
  owns : region.Owns process

variable {region : Region} {process : Process} {range : Layout} {chunk : Chunk}

theorem SoundIn.fits (sound : region.SoundIn process) (member : chunk ∈ region.chunks) :
    chunk.block + chunk.capacity < wordLimit :=
  (sound.owns.held chunk member).fits sound.memory

theorem SoundIn.spared {after : Process} {freed : List Nat} (sound : region.SoundIn process)
    (evolves : process.Evolves after freed)
    (kept : ∀ block ∈ region.chunks.map Chunk.block, block ∉ freed) : region.SoundIn after where
  memory := evolves.sound
  valid := sound.valid
  owns := ⟨fun chunk member =>
    evolves.held _ _ _ (kept _ (List.mem_map_of_mem member)) (sound.owns.held chunk member),
    sound.owns.apart⟩

theorem SoundIn.evolves {after : Process} (sound : region.SoundIn process)
    (evolves : process.Evolves after []) : region.SoundIn after :=
  sound.spared evolves fun _ _ => List.not_mem_nil

theorem SoundIn.overwrites {after : Process} {blocks : List Nat} (sound : region.SoundIn process)
    (overwrites : process.Overwrites after blocks) : region.SoundIn after where
  memory := overwrites.sound
  valid := sound.valid
  owns := ⟨fun chunk member => overwrites.held _ _ _ (sound.owns.held chunk member),
    sound.owns.apart⟩

theorem Covers.mem_blocks {pointer : Pointer} {length : Nat}
    (covered : region.Covers pointer length) : pointer.block ∈ region.chunks.map Chunk.block := by
  rcases covered with ⟨chunk, member, same, -⟩
  exact same ▸ List.mem_map_of_mem member

theorem SoundIn.lodged (sound : region.SoundIn process) :
    Chunk.Lodged region.chunks process.heap := fun chunk member =>
  (sound.owns.held chunk member).covers rfl (Nat.le_of_eq (Nat.zero_add _))

theorem SoundIn.covers (sound : region.SoundIn process) {pointer : Pointer} {length : Nat}
    (covered : region.Covers pointer length) : process.heap.covers pointer length = true := by
  rcases covered with ⟨chunk, member, here, inside⟩
  exact sound.lodged.covers member here (Nat.le_trans inside (sound.valid.used chunk member))

theorem SoundIn.ends_store (sound : region.SoundIn process) {pointer : Pointer}
    {values : List UInt8} {length : Nat} (covered : region.Covers pointer length)
    (size : values.length = length) {done : Unit → Process → Prop}
    {failed : Failure → Process → Prop} :
    Ends (Process.store pointer values) process done failed ↔
      done () { process with heap := process.heap.write pointer values } := by
  rw [Process.ends_store, size, if_pos (sound.covers covered)]

theorem SoundIn.present {block : Nat} (sound : region.SoundIn process)
    (member : block ∈ region.chunks.map Chunk.block) :
    ∃ found, process.heap.find? block = some found := by
  obtain ⟨chunk, there, rfl⟩ := List.mem_map.mp member
  rcases (sound.owns.held chunk there).present with ⟨found, present, -⟩
  exact ⟨found, present⟩

theorem Owns.extended {after : Process} (owns : region.Owns process)
    (evolves : process.Evolves after []) (fresh : process.heap.find? chunk.block = none)
    (holds : region.manager.Holds after chunk.block chunk.capacity) :
    Owns { region with chunks := region.chunks ++ [chunk] } after where
  held := by
    intro other member
    rcases List.mem_append.mp member with old | new
    · exact evolves.held _ _ _ List.not_mem_nil (owns.held other old)
    · rw [List.mem_singleton.mp new]
      exact holds
  apart := by
    have perm : ((region.chunks ++ [chunk]).map Chunk.block).Perm
        (chunk.block :: region.chunks.map Chunk.block) :=
      (List.perm_append_singleton _ _).map _
    refine perm.nodup_iff.mpr (List.nodup_cons.mpr ⟨?_, owns.apart⟩)
    intro member
    obtain ⟨other, there, same⟩ := List.mem_map.mp member
    exact (owns.held other there).ne_of_fresh fresh same

/-- All chunks lie in one address space. -/
theorem SoundIn.capacity_lt (sound : region.SoundIn process) :
    region.usage.totalCapacity < wordLimit := by
  have distinct : (region.chunks.map fun chunk => (chunk.block, chunk.capacity)).Nodup := by
    apply List.Nodup.of_map Prod.fst
    rw [List.map_map]
    exact sound.owns.apart
  have sum := sound.memory.heap.sum_sizes_lt
    (region.chunks.map fun chunk => (chunk.block, chunk.capacity)).toFinset (by
      intro entry member
      obtain ⟨chunk, there, rfl⟩ := List.mem_map.mp (List.mem_toFinset.mp member)
      rcases (sound.owns.held chunk there).present with ⟨block, found, size, -⟩
      exact ⟨block, found, size⟩)
  rw [List.sum_toFinset _ distinct, List.map_map] at sum
  exact sum

theorem Valid.total_le (valid : region.Valid) :
    region.totalAllocated ≤ region.usage.totalCapacity := by
  calc
    region.totalAllocated ≤ Chunk.total Chunk.used region.chunks := valid.total
    _ ≤ Chunk.total Chunk.capacity region.chunks := List.sum_le_sum valid.used

theorem SoundIn.total_lt (sound : region.SoundIn process) :
    region.totalAllocated < wordLimit := by
  calc
    region.totalAllocated ≤ region.usage.totalCapacity := sound.valid.total_le
    _ < wordLimit := sound.capacity_lt

theorem take_eq (size index offset : Nat) (fits : region.totalAllocated + size < wordLimit) :
    region.take size index offset = .ok { region with
      chunks := region.chunks.modify index fun chunk => { chunk with used := offset + size }
      totalAllocated := region.totalAllocated + size } := by
  rw [take, Word.add, if_pos fits]
  rfl

theorem eq_of_take {after : Region} {size index offset : Nat}
    (took : region.take size index offset = .ok after) : ∃ totalAllocated,
    Word.add region.totalAllocated size = .ok totalAllocated ∧ after = { region with
      chunks := region.chunks.modify index fun chunk => { chunk with used := offset + size }
      totalAllocated } := by
  rw [take] at took
  cases counted : Word.add region.totalAllocated size with
  | error fault =>
      rw [counted] at took
      cases took
  | ok total =>
      rw [counted] at took
      cases took
      exact ⟨total, rfl, rfl⟩

theorem take_extended {chunk : Chunk} {offset : Nat} (range : Layout)
    (fits : region.totalAllocated + range.size < wordLimit) :
    Region.take { region with
        chunks := region.chunks ++ [chunk], current := region.chunks.length }
      range.size region.chunks.length offset =
    .ok (region.taken (region.chunks ++ [chunk]) range { chunk := region.chunks.length, offset }) :=
  take_eq range.size _ offset fits

def moved (region : Region) (current : Nat) : Region := { region with current }

theorem SoundIn.moved {current : Nat} (sound : region.SoundIn process)
    (ahead : region.current ≤ current)
    (inside : current < region.chunks.length ∨ region.chunks = [] ∧ current = 0) :
    (region.moved current).SoundIn process where
  memory := sound.memory
  valid :=
    { used := sound.valid.used
      ahead := fun i chunk behind => sound.valid.ahead i chunk (Nat.lt_of_le_of_lt ahead behind)
      current := inside
      total := sound.valid.total }
  owns := ⟨sound.owns.held, sound.owns.apart⟩

theorem SoundIn.taken {chunks : List Chunk} {place : Range} {after : Process}
    (sound : region.SoundIn process) (evolves : process.Evolves after [])
    (extended : region.Extended chunks)
    (owns : Owns { region with chunks } after)
    (present : chunks[place.chunk]? = some chunk) (serves : chunk.Serves range place.offset)
    (ahead : region.current ≤ place.chunk) :
    (region.taken chunks range place).SoundIn after where
  memory := evolves.sound
  valid := extended.valid_taken sound.valid present serves ahead
  owns :=
    { held := by
        intro chunk member
        have extent := List.mem_map_of_mem (f := fun chunk => (chunk.block, chunk.capacity)) member
        rw [extents_taken present] at extent
        obtain ⟨other, there, same⟩ := List.mem_map.mp extent
        rw [Prod.mk.injEq] at same
        have held := owns.held other there
        rw [same.1, same.2] at held
        exact held
      apart := by
        rw [blocks_taken present]
        exact owns.apart }

/-- The blocks of the later region are those of the earlier one and new ones. -/
def Obtains (region after : Region) (process : Process) : Prop :=
  ∀ block ∈ after.chunks.map Chunk.block,
    block ∈ region.chunks.map Chunk.block ∨ process.heap.find? block = none

theorem obtains_taken {chunks : List Chunk} {place : Range}
    (present : chunks[place.chunk]? = some chunk)
    (new : ∀ other ∈ chunks, other ∈ region.chunks ∨ process.heap.find? other.block = none) :
    region.Obtains (region.taken chunks range place) process := by
  intro block member
  rw [blocks_taken present] at member
  obtain ⟨other, there, rfl⟩ := List.mem_map.mp member
  exact (new other there).imp List.mem_map_of_mem fun fresh => fresh

def Refuses (region : Region) (range : Layout) (after : Process) (failure : Failure) : Prop :=
  (failure = .error (.invalidAlignment range.align) ∧ isPowerOfTwo range.align = false) ∨
    region.manager.Denies after failure

theorem grow_ends (range : Layout) (positive : 0 < range.align) (sound : region.SoundIn process) :
    Ends (grow range) (region, process)
      (fun place after => region.Takes after.1 range place ∧ after.1.SoundIn after.2 ∧
        process.Evolves after.2 [] ∧ region.Obtains after.1 process)
      fun failure after => after.1 = region ∧ after.1.SoundIn after.2 ∧
        process.Evolves after.2 [] ∧ region.manager.Denies after.2 failure := by
  simp only [grow, Action.ends_bind, Method.ends_self]
  cases Word.add? range.size (range.align - 1) with
  | none => exact ⟨rfl, sound, .refl sound.memory, .inl ⟨_, rfl⟩⟩
  | some needed =>
      simp only [Action.ends_bind, Method.ends_liftProcess]
      apply (Chunk.create_ends _ sound.memory).mono
      · intro chunk after ends
        rcases ends with ⟨unused, fresh, holds, evolves⟩
        have owns := sound.owns.extended evolves fresh holds
        rcases Chunk.room?_serves positive (unused ▸ Nat.zero_le chunk.capacity)
            (holds.fits evolves.sound) with ⟨room, searched, serves⟩
        simp only [Action.ends_liftFault, searched]
        cases room with
        | none =>
            simp only [Action.ends_bind, Method.ends_liftProcess, Action.ends_fail]
            apply (Manager.free_ends evolves.sound holds).mono ?_ fun _ _ none => none.elim
            intro _ final freed
            have whole := (evolves.trans freed).of_fresh fresh
            exact ⟨trivial, sound.evolves whole, whole, .inl ⟨_, rfl⟩⟩
        | some offset =>
            have extended : region.Extended (region.chunks ++ [chunk]) :=
              .inr ⟨chunk, unused, rfl⟩
            have present : (region.chunks ++ [chunk])[region.chunks.length]? = some chunk := by
              simp
            have ahead : region.current ≤ region.chunks.length := by
              rcases sound.valid.current with inside | ⟨-, first⟩ <;> omega
            have taken : Region.SoundIn (region.taken _ range
                { chunk := region.chunks.length, offset }) after :=
              sound.taken evolves extended owns present (serves offset rfl) ahead
            simp only [Action.ends_bind, Action.ends_liftFault, take_extended range taken.total_lt,
              Method.ends_update, Action.ends_pure]
            refine ⟨⟨_, chunk, extended, present, serves offset rfl, ahead, rfl⟩, taken, evolves,
              obtains_taken present ?_⟩
            intro other member
            rcases List.mem_append.mp member with old | new
            · exact .inl old
            · exact .inr (List.mem_singleton.mp new ▸ fresh)
      · intro failure after ends
        rcases ends with ⟨evolves, denies⟩
        exact ⟨trivial, sound.evolves evolves, evolves, denies⟩

/-- Handing out a range ends at once if the alignment is none. Else it takes a range from a chunk
with room, or moves on to the last chunk and obtains another one. -/
theorem allocate_cases (range : Layout) (sound : region.SoundIn process) :
    (isPowerOfTwo range.align = false ∧ (allocate range).runFrom (region, process) =
      (.error (.error (.invalidAlignment range.align)), (region, process))) ∨
    (∃ place chunk, region.chunks[place.chunk]? = some chunk ∧ chunk.Serves range place.offset ∧
      region.current ≤ place.chunk ∧ (allocate range).runFrom (region, process) =
        (.ok place, (region.taken region.chunks range place, process))) ∨
    ∃ current, region.current ≤ current ∧ current = region.chunks.length - 1 ∧
      (region.moved current).SoundIn process ∧ isPowerOfTwo range.align = true ∧
      (allocate range).runFrom (region, process) =
        (grow range).runFrom (region.moved current, process) := by
  cases power : isPowerOfTwo range.align with
  | false =>
      refine .inl ⟨rfl, ?_⟩
      simp only [allocate, Action.runFrom_bind, Action.require, power]
      rfl
  | true =>
      have positive := isPowerOfTwo_pos power
      rcases seek_sought positive (region.chunks.drop region.current) region.current
          (fun chunk member => sound.valid.used chunk (List.mem_of_mem_drop member))
          (fun chunk member => sound.fits (List.mem_of_mem_drop member)) with
        ⟨j, room, searched, ahead, inside, last, serves⟩
      have within : j < region.chunks.length ∨ region.chunks = [] ∧ j = 0 := by
        rw [List.length_drop, List.drop_eq_nil_iff] at inside
        rcases sound.valid.current with current | ⟨none, first⟩
        · omega
        · rw [none, List.length_nil] at inside
          exact .inr ⟨none, by omega⟩
      have moved := sound.moved ahead within
      cases room with
      | some offset =>
          rcases serves offset rfl with ⟨chunk, present, fits⟩
          rw [List.getElem?_drop, Nat.add_sub_cancel' ahead] at present
          have taken : Region.SoundIn (Region.taken _ _ range { chunk := j, offset }) process :=
            moved.taken (.refl sound.memory) (.inl rfl) moved.owns present fits (Nat.le_refl j)
          have took : (region.moved j).take range.size j offset =
            .ok (region.taken region.chunks range { chunk := j, offset }) :=
            take_eq range.size j offset taken.total_lt
          rw [Region.moved] at took
          refine .inr (.inl ⟨{ chunk := j, offset }, chunk, present, fits, ahead, ?_⟩)
          simp only [allocate, Action.require, power, if_true, Action.runFrom_bind,
            Action.runFrom_pure, Method.runFrom_self, Action.runFrom_liftFault, searched,
            Except.mapError, Method.runFrom_update, took]
      | none =>
          have reached := last rfl
          rw [List.length_drop] at reached
          refine .inr (.inr ⟨j, ahead, by omega, moved, rfl, ?_⟩)
          simp only [allocate, Action.require, power, if_true, Action.runFrom_bind,
            Action.runFrom_pure, Method.runFrom_self, Action.runFrom_liftFault, searched,
            Except.mapError, Method.runFrom_update]
          rfl

/-- Handing out a range. If that fails, at most the search has moved on. -/
theorem allocate_ends (range : Layout) (sound : region.SoundIn process) :
    Ends (allocate range) (region, process)
      (fun place after => region.Takes after.1 range place ∧ after.1.SoundIn after.2 ∧
        process.Evolves after.2 [] ∧ region.Obtains after.1 process)
      fun failure after => (∃ current, after.1 = region.moved current) ∧
        after.1.SoundIn after.2 ∧ process.Evolves after.2 [] ∧
        region.Refuses range after.2 failure := by
  rcases allocate_cases range sound with ⟨power, ran⟩ |
    ⟨place, chunk, present, fits, ahead, ran⟩ | ⟨current, ahead, -, moved, power, ran⟩
  · rw [Ends, ran]
    exact ⟨⟨region.current, rfl⟩, sound, .refl sound.memory, .inl ⟨rfl, power⟩⟩
  · rw [Ends, ran]
    exact ⟨⟨_, chunk, .inl rfl, present, fits, ahead, rfl⟩,
      sound.taken (.refl sound.memory) (.inl rfl) sound.owns present fits ahead,
      .refl sound.memory, obtains_taken present fun _ member => .inl member⟩
  · rw [Ends, ran]
    apply (grow_ends range (isPowerOfTwo_pos power) moved).mono
    · intro place after ends
      rcases ends with ⟨⟨chunks, chunk, extended, present, fits, behind, result⟩, rest⟩
      exact ⟨⟨chunks, chunk, extended, present, fits, Nat.le_trans ahead behind, result⟩, rest⟩
    · intro failure after ends
      rcases ends with ⟨same, there, evolves, denies⟩
      exact ⟨⟨current, same⟩, there, evolves, .inr denies⟩

theorem soundIn_unused (memory : process.Sound) (none : region.chunks = [])
    (first : region.current = 0) (total : region.totalAllocated = 0) : region.SoundIn process where
  memory := memory
  valid :=
    { used := by simp [none]
      ahead := by simp [none]
      current := .inr ⟨none, first⟩
      total := by simp [total] }
  owns :=
    { held := by simp [none]
      apart := by simp [none] }

theorem create_ends {manager : Manager} (chunkSize : Nat) (memory : process.Sound) :
    Ends (create manager chunkSize) process
      (fun region after => region.SoundIn after ∧ region.manager = manager ∧ region.chunks = [] ∧
        region.generation = 0 ∧ region.totalAllocated = 0 ∧ process.Evolves after [])
      fun _ after => after = process := by
  rw [create, Action.ends_bind, Action.ends_require]
  split
  · apply (Manager.retain_ends memory).bind (fun _ _ none => none.elim)
    intro _ after ends
    rcases ends with ⟨retained, -⟩
    have counted := Process.evolves_nextRegion retained.sound (after.nextRegion + 1)
    simp only [Action.ends_bind, Action.ends_get, Action.ends_set, Action.ends_pure]
    exact ⟨soundIn_unused counted.sound rfl rfl rfl, trivial, trivial, trivial, trivial,
      retained.trans counted⟩
  · rfl

def rewound (region : Region) : Region :=
  { region with
    chunks := region.chunks.map fun chunk => { chunk with used := 0 }
    current := 0
    totalAllocated := 0 }

theorem blocks_rewound : region.rewound.chunks.map Chunk.block = region.chunks.map Chunk.block := by
  simp [rewound]

theorem SoundIn.rewound (sound : region.SoundIn process) : region.rewound.SoundIn process where
  memory := sound.memory
  valid :=
    { used := by
        intro chunk member
        obtain ⟨old, -, rfl⟩ := List.mem_map.mp member
        exact Nat.zero_le _
      ahead := by
        intro i chunk _ present
        obtain ⟨old, -, rfl⟩ := List.mem_map.mp (List.mem_of_getElem? present)
        rfl
      current := by
        rcases sound.valid.current with inside | ⟨none, -⟩
        · apply Or.inl
          show 0 < (region.chunks.map _).length
          rw [List.length_map]
          omega
        · exact .inr ⟨by simp [Region.rewound, none], rfl⟩
      total := Nat.zero_le _ }
  owns :=
    { held := by
        intro chunk member
        obtain ⟨old, there, rfl⟩ := List.mem_map.mp member
        exact sound.owns.held old there
      apart := by
        rw [blocks_rewound]
        exact sound.owns.apart }

theorem SoundIn.counted (sound : region.SoundIn process) (generation : Nat) :
    SoundIn { region with generation } process where
  memory := sound.memory
  valid := ⟨sound.valid.used, sound.valid.ahead, sound.valid.current, sound.valid.total⟩
  owns := ⟨sound.owns.held, sound.owns.apart⟩

theorem eraseAll_ends (chunks : List Chunk) (memory : process.Sound)
    (used : ∀ chunk ∈ chunks, chunk.used ≤ chunk.capacity)
    (lodged : Chunk.Lodged chunks process.heap) :
    Ends (chunks.forM Chunk.erase) process
      (fun _ after => process.Overwrites after (chunks.map Chunk.block)) fun _ _ => False := by
  induction chunks generalizing process with
  | nil => exact .refl memory []
  | cons chunk rest ih =>
      obtain ⟨first, others⟩ := List.forall_mem_cons.mp used
      have overwritten := Process.overwrites_write memory { block := chunk.block, offset := 0 }
        (List.replicate chunk.used Chunk.poison)
      rw [List.forM, Action.ends_bind, lodged.ends_erase List.mem_cons_self first]
      refine (ih overwritten.sound others fun other member => ?_).mono
        (fun _ _ later => overwritten.trans later) fun _ _ none => none
      exact lodged.write _ _ other (List.mem_cons_of_mem chunk member)

/-- A reset rewinds all chunks. It counts the generation up unless that is the last one. -/
theorem reset_ends (sound : region.SoundIn process) :
    Ends reset (region, process)
      (fun _ after => after.1 = { region.rewound with generation := region.generation + 1 } ∧
        after.1.SoundIn after.2 ∧ process.Overwrites after.2 (region.chunks.map Chunk.block))
      fun _ after => wordLimit ≤ region.generation + 1 ∧ after.1 = region.rewound ∧
        after.1.SoundIn after.2 := by
  simp only [reset, Action.ends_bind, Method.ends_self, Method.ends_ofProcess]
  apply (eraseAll_ends region.chunks sound.memory sound.valid.used sound.lodged).mono ?_
    fun _ _ none => none.elim
  intro _ after overwrites
  have rewound := (sound.overwrites overwrites).rewound
  simp only [Method.ends_update, Action.ends_ensure]
  split
  · simp only [Method.ends_liftProcess, Process.ends_log]
    exact ⟨rfl, (rewound.evolves (Process.evolves_journal rewound.memory _)).counted _,
      overwrites.logged _⟩
  · rename_i last
    exact ⟨by simpa using last, rfl, rewound⟩

end Region

end SymbolStore
