import SymbolStore.Proofs.Region.Stocked

/-!
Handles of a region: what they resolve to, and that the bytes behind them stay until the region is
reset.
-/

namespace SymbolStore

namespace Region

variable {region : Region} {process : Process}

theorem resolve_foreign (region : Region) (heap : Heap) {handle : Handle}
    (foreign : handle.region ≠ region.id) :
    region.resolve heap handle =
      .error (.error (.invalidArgument "region handle does not belong to this region")) := by
  rw [resolve, if_neg foreign]
  rfl

theorem resolve_stale (heap : Heap) {handle : Handle} (own : handle.region = region.id)
    (stale : handle.generation ≠ region.generation) :
    region.resolve heap handle =
      .error (.error (.staleHandle handle.generation region.generation)) := by
  rw [resolve, if_pos own, if_neg stale]
  rfl

theorem resolve_current (heap : Heap) {handle : Handle} (own : handle.region = region.id)
    (current : handle.generation = region.generation) :
    region.resolve heap handle =
      match region.chunks[handle.chunk]?, Word.add handle.offset handle.length with
      | none, _ => .error (.fault (.indexOutOfBounds region.chunks.length handle.chunk))
      | some _, .error cause => .error (.fault cause)
      | some chunk, .ok stop =>
        if stop ≤ chunk.used then
          .ok (heap.read { block := chunk.block, offset := handle.offset } handle.length)
        else .error (.fault .handleBeyondChunk) := by
  rw [resolve, if_pos own, if_pos current]
  simp only [bind, Except.bind, pure, Except.pure, throw, throwThe, MonadExceptOf.throw]
  cases region.chunks[handle.chunk]? with
  | none => rfl
  | some chunk =>
      cases Word.add handle.offset handle.length with
      | error cause => rfl
      | ok stop =>
          simp only [Except.mapError]

theorem isMisuse_resolve {heap : Heap} {handle : Handle} {failure : Failure}
    (failed : region.resolve heap handle = .error failure) : failure.isMisuse = false := by
  by_cases own : handle.region = region.id
  · by_cases current : handle.generation = region.generation
    · rw [resolve_current heap own current] at failed
      split at failed
      · cases failed
        rfl
      · rename_i cause summed
        cases failed
        exact Word.isMisuse_add summed
      · split at failed <;> cases failed
        rfl
    · rw [resolve_stale heap own current] at failed
      cases failed
      rfl
  · rw [resolve_foreign region heap own] at failed
    cases failed
    rfl

structure Stores (region : Region) (heap : Heap) (handle : Handle) (bytes : List UInt8) : Prop where
  id : handle.region = region.id
  generation : handle.generation = region.generation
  length : handle.length = bytes.length
  chunk : ∃ chunk, region.chunks[handle.chunk]? = some chunk ∧
    handle.offset + bytes.length ≤ chunk.used ∧
    heap.read { block := chunk.block, offset := handle.offset } bytes.length = bytes

variable {heap : Heap} {handle : Handle} {bytes values : List UInt8} {range : Layout}
  {place : Range} {after : Region × Process}

theorem Stores.resolve (stores : region.Stores process.heap handle bytes)
    (sound : region.SoundIn process) : region.resolve process.heap handle = .ok bytes := by
  obtain ⟨chunk, present, inside, read⟩ := stores.chunk
  have member := List.mem_of_getElem? present
  have used := sound.valid.used chunk member
  have fits := sound.fits member
  rw [← stores.length] at inside read
  have word : handle.offset + handle.length < wordLimit := by omega
  simp only [resolve_current process.heap stores.id stores.generation, present, Word.add,
    if_pos word, if_pos inside, read]

theorem Stores.intact {later : Heap} (stores : region.Stores heap handle bytes)
    (intact : ∀ block ∈ region.chunks.map Chunk.block, later.find? block = heap.find? block) :
    region.Stores later handle bytes where
  id := stores.id
  generation := stores.generation
  length := stores.length
  chunk := by
    obtain ⟨chunk, present, inside, read⟩ := stores.chunk
    refine ⟨chunk, present, inside, ?_⟩
    rw [Heap.read_congr (intact _ (List.mem_map_of_mem (List.mem_of_getElem? present)))]
    exact read

theorem Takes.chunk {later : Region} (takes : region.Takes later range place) {index : Nat}
    {chunk : Chunk} (present : region.chunks[index]? = some chunk) :
    ∃ next, later.chunks[index]? = some next ∧ next.block = chunk.block ∧
      chunk.used ≤ next.used := by
  obtain ⟨chunks, old, extended, there, serves, -, rfl⟩ := takes
  have still : chunks[index]? = some chunk := by
    rcases extended with rfl | ⟨fresh, -, rfl⟩
    · exact present
    · rw [List.getElem?_append_left (List.getElem?_eq_some_iff.mp present).1, present]
  change ∃ next, (chunks.modify _ _)[index]? = some next ∧ _
  simp only [List.getElem?_modify, still, Option.map_eq_map, Option.map_some]
  by_cases same : place.chunk = index
  · rw [same, still] at there
    cases there
    rw [if_pos same]
    exact ⟨_, rfl, rfl, Nat.le_trans serves.behind (Nat.le_add_right _ _)⟩
  · rw [if_neg same]
    exact ⟨chunk, rfl, rfl, Nat.le_refl _⟩

/-- Later bytes are written behind all that the region has. -/
theorem Stores.writes (stores : region.Stores process.heap handle bytes)
    (sound : region.SoundIn process)
    (writes : region.Writes process range values place after) :
    after.1.Stores after.2.heap handle bytes where
  id := stores.id.trans writes.takes.id_eq.symm
  generation := stores.generation.trans writes.takes.generation_eq.symm
  length := stores.length
  chunk := by
    obtain ⟨chunk, present, inside, read⟩ := stores.chunk
    obtain ⟨next, there, block, grown⟩ := writes.takes.chunk present
    obtain ⟨middle, evolves, granted, written⟩ := writes.written
    refine ⟨next, there, Nat.le_trans inside grown, ?_⟩
    have member := List.mem_of_getElem? present
    have covered : region.Covers { block := chunk.block, offset := handle.offset } bytes.length :=
      ⟨chunk, member, rfl, inside⟩
    have apart := writes.takes.apart granted.owns.apart covered
    obtain ⟨found, before⟩ := sound.present (List.mem_map_of_mem member)
    have behind : Pointer.Apart { block := chunk.block, offset := handle.offset } bytes.length
        (after.1.pointer place) values.length :=
      fun same => .inl (apart.resolve_left fun different => different same)
    rw [block, written]
    exact (Heap.read_write_apart behind).trans
      ((Heap.read_congr (evolves.blocks _ _ List.not_mem_nil before |>.trans before.symm)).trans read)

theorem Stores.misses (stores : region.Stores process.heap handle bytes)
    (sound : region.SoundIn process) (misses : region.Misses process after) :
    after.1.Stores after.2.heap handle bytes := by
  obtain ⟨⟨current, moved⟩, evolves⟩ := misses
  rw [moved]
  refine ⟨stores.id, stores.generation, stores.length, (stores.intact ?_).chunk⟩
  intro block member
  obtain ⟨found, before⟩ := sound.present member
  exact (evolves.blocks _ _ List.not_mem_nil before).trans before.symm

inductive Lasts (region : Region) (process : Process) (after : Region × Process) : Prop
  | intact (same : after.1 = region) (intact : ∀ block ∈ region.chunks.map Chunk.block,
      after.2.heap.find? block = process.heap.find? block)
  | writes (range : Layout) (values : List UInt8) (place : Range)
      (writes : region.Writes process range values place after)
  | misses (misses : region.Misses process after)

theorem Lasts.id_eq (lasts : region.Lasts process after) : after.1.id = region.id := by
  cases lasts with
  | intact same => rw [same]
  | writes range values place writes => exact writes.takes.id_eq
  | misses misses => exact misses.same.id

theorem Lasts.generation_eq (lasts : region.Lasts process after) :
    after.1.generation = region.generation := by
  cases lasts with
  | intact same => rw [same]
  | writes range values place writes => exact writes.takes.generation_eq
  | misses misses =>
      obtain ⟨⟨current, moved⟩, -⟩ := misses
      rw [moved]
      rfl

theorem Stores.lasts (stores : region.Stores process.heap handle bytes)
    (sound : region.SoundIn process) (lasts : region.Lasts process after) :
    after.1.Stores after.2.heap handle bytes := by
  cases lasts with
  | intact same intact =>
      rw [same]
      exact stores.intact intact
  | writes range values place writes => exact stores.writes sound writes
  | misses misses => exact stores.misses sound misses

/-- Bytes have just been stored, in a chunk whose index a handle has room for. -/
theorem Writes.stores (writes : region.Writes process { size := bytes.length, align := 1 } bytes
      place after) (few : after.1.chunks.length ≤ indexLimit) :
    after.1.Stores after.2.heap (region.handleFor place bytes.length) bytes where
  id := writes.takes.id_eq.symm
  generation := writes.takes.generation_eq.symm
  length := rfl
  chunk := by
    obtain ⟨chunk, present, block, used, -⟩ := writes.takes.pointer_eq
    obtain ⟨middle, -, granted, written⟩ := writes.written
    have small : place.chunk < indexLimit :=
      Nat.lt_of_lt_of_le (List.getElem?_eq_some_iff.mp present).1 few
    have index : (region.handleFor place bytes.length).chunk = place.chunk :=
      Nat.mod_eq_of_lt small
    have there := granted.present (List.mem_map_of_mem (List.mem_of_getElem? present))
    rw [block] at there
    rw [index]
    refine ⟨chunk, present, Nat.le_of_eq used.symm, ?_⟩
    rw [written, block]
    exact Heap.read_write_same there rfl

end Region

end SymbolStore
