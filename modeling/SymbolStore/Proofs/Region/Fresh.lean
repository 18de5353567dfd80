import SymbolStore.Proofs.Region.Failing

/-!
Chunks that are obtained for one request. Such a chunk is large enough wherever it starts, so it never
has to be given back, and only the manager can fail.
-/

namespace SymbolStore

open SymbolStore.Action (Ends)

namespace Chunk

variable {manager : Manager} {process supplied : Process} {capacity : Nat}

theorem create_ok {block : Nat}
    (ran : (manager.allocate ⟨capacity, blockAlign⟩).runFrom process = (.ok block, supplied)) :
    ∃ journal, (create manager capacity).runFrom process =
      (.ok ⟨block, 0, capacity⟩, { supplied with journal }) := by
  rw [create, Action.runFrom_bind, ran]
  exact ⟨_, rfl⟩

theorem create_error {failure : Failure}
    (ran : (manager.allocate ⟨capacity, blockAlign⟩).runFrom process = (.error failure, supplied)) :
    (create manager capacity).runFrom process = (.error failure, supplied) := by
  rw [create, Action.runFrom_bind, ran]

end Chunk

namespace Region

variable {region : Region} {process : Process} {range : Layout}

/-- What the manager is asked for when the range needs a new chunk. -/
def wanted (region : Region) (range : Layout) : Layout where
  size := max region.chunkSize (range.size + (range.align - 1))
  align := blockAlign

/-- No chunk from the current one on has room for the range. -/
def Full (region : Region) (range : Layout) : Prop :=
  ∀ chunk ∈ region.chunks.drop region.current, chunk.room? range = .ok none

def obtained (region : Region) (range : Layout) (block : Nat) : Chunk :=
  { block, used := 0, capacity := (region.wanted range).size }

theorem obtained_serves {block : Nat} (positive : 0 < range.align)
    (sum : range.size + (range.align - 1) < wordLimit)
    (fits : block + (region.wanted range).size < wordLimit) :
    ∃ offset, (region.obtained range block).room? range = .ok (some offset) ∧
      (region.obtained range block).Serves range offset := by
  have needed : Word.add? range.size (range.align - 1) = some _ := if_pos sum
  have room : (region.obtained range block).room? range = .ok (some _) :=
    Chunk.room?_fresh positive rfl needed (Nat.le_max_right _ _) fits
  have served : ∃ found, (region.obtained range block).room? range = .ok found ∧
      ∀ offset ∈ found, (region.obtained range block).Serves range offset :=
    Chunk.room?_serves positive (Nat.zero_le _) fits
  obtain ⟨found, searched, serves⟩ := served
  rw [room] at searched
  cases searched
  exact ⟨_, room, serves _ rfl⟩

theorem seek_full (chunks : List Chunk) (i : Nat)
    (full : ∀ chunk ∈ chunks, chunk.room? range = .ok none) :
    seek range chunks i = .ok (i + (chunks.length - 1), none) := by
  induction chunks generalizing i with
  | nil => rfl
  | cons chunk rest ih =>
      have later := ih (i + 1) fun chunk member => full chunk (List.mem_cons_of_mem _ member)
      simp only [seek, full chunk List.mem_cons_self, bind, Except.bind]
      cases rest with
      | nil => rfl
      | cons next others =>
          simp only [List.isEmpty_cons, Bool.false_eq_true, if_false, later, List.length_cons]
          congr 2
          omega

/-- Without room anywhere the region goes on to its last chunk and asks for another one. -/
theorem allocate_full (power : isPowerOfTwo range.align = true) (full : region.Full range)
    (valid : region.Valid) :
    (allocate range).runFrom (region, process) =
      (grow range).runFrom (region.moved (region.chunks.length - 1), process) := by
  have last : region.current + ((region.chunks.drop region.current).length - 1) =
      region.chunks.length - 1 := by
    rw [List.length_drop]
    rcases valid.current with inside | ⟨none, first⟩
    · omega
    · rw [none, first]
      rfl
  have searched := seek_full _ region.current full
  rw [last] at searched
  simp only [allocate, Action.require, power, if_true, Action.runFrom_bind, Action.runFrom_pure,
    Method.runFrom_self, Action.runFrom_liftFault, searched, Except.mapError, Method.runFrom_update]
  rfl

/-- Handing out a range from a new chunk does not make the count of bytes overflow. -/
theorem SoundIn.obtained {block : Nat} {offset : Nat} {after : Process}
    (sound : region.SoundIn process) (evolves : process.Evolves after [])
    (fresh : process.heap.find? block = none)
    (holds : region.manager.Holds after block (region.wanted range).size)
    (serves : (region.obtained range block).Serves range offset) :
    region.totalAllocated + range.size < wordLimit := by
  have present : (region.chunks ++ [region.obtained range block])[region.chunks.length]? =
      some (region.obtained range block) := by simp
  have ahead : region.current ≤ region.chunks.length := by
    rcases sound.valid.current with inside | ⟨-, first⟩ <;> omega
  have owns : Owns { region with chunks := region.chunks ++ [region.obtained range block] } after :=
    sound.owns.extended evolves fresh holds
  have taken : Region.SoundIn (region.taken _ range { chunk := region.chunks.length, offset })
      after := sound.taken evolves (.inr ⟨_, rfl, rfl⟩) owns present serves ahead
  exact taken.total_lt

/-- Asking for a chunk ends as the manager does. What it supplies is used. -/
theorem grow_supplied (positive : 0 < range.align)
    (sum : range.size + (range.align - 1) < wordLimit) (sound : region.SoundIn process) :
    Ends (region.manager.allocate (region.wanted range)) process
      (fun block supplied => ∃ offset journal,
        (region.obtained range block).Serves range offset ∧
        (grow range).runFrom (region, process) = (.ok ⟨region.chunks.length, offset⟩,
          (region.taken (region.chunks ++ [region.obtained range block]) range
            ⟨region.chunks.length, offset⟩, { supplied with journal })))
      fun failure refused =>
        (grow range).runFrom (region, process) = (.error failure, (region, refused)) := by
  have needed : Word.add? range.size (range.align - 1) = some _ := if_pos sum
  have chunk : max region.chunkSize (range.size + (range.align - 1)) = (region.wanted range).size :=
    rfl
  refine ((Action.ends_ran _ _).and (Manager.allocate_ends (region.wanted range) sound.memory
    isPowerOfTwo_blockAlign)).mono ?_ ?_
  · rintro block supplied ⟨ran, granted⟩
    obtain ⟨offset, room, serves⟩ :=
      obtained_serves positive sum (granted.holds.fits granted.evolves.sound)
    have total := sound.obtained granted.evolves granted.fresh granted.holds serves
    have took : Region.take { region with
          chunks := region.chunks ++ [region.obtained range block]
          current := region.chunks.length } range.size region.chunks.length offset =
        .ok (region.taken (region.chunks ++ [region.obtained range block]) range
          ⟨region.chunks.length, offset⟩) := take_eq range.size _ offset total
    obtain ⟨journal, created⟩ := Chunk.create_ok ran
    have created : (Chunk.create region.manager (region.wanted range).size).runFrom process =
        (.ok (region.obtained range block), { supplied with journal }) := created
    refine ⟨offset, journal, serves, ?_⟩
    simp only [grow, Action.runFrom_bind, Method.runFrom_self, needed, Method.runFrom_liftProcess,
      chunk, created, Action.runFrom_pure, Action.runFrom_liftFault, room, took, Except.mapError,
      Method.runFrom_update]
  · rintro failure refused ⟨ran, -⟩
    have refusal : (Chunk.create region.manager (region.wanted range).size).runFrom process =
        (.error failure, refused) := Chunk.create_error ran
    simp only [grow, Action.runFrom_bind, Method.runFrom_self, needed, Method.runFrom_liftProcess,
      chunk, refusal]

theorem grow_beyond (beyond : ¬ range.size + (range.align - 1) < wordLimit)
    (state : Region × Process) :
    (grow range).runFrom state = (.error (.error (.outOfMemory range.size)), state) := by
  have none : Word.add? range.size (range.align - 1) = none := if_neg beyond
  simp only [grow, Action.runFrom_bind, Method.runFrom_self, none, Action.runFrom_fail]

theorem SoundIn.last (sound : region.SoundIn process) :
    (region.moved (region.chunks.length - 1)).SoundIn process := by
  have current : region.current < region.chunks.length ∨
      region.chunks = [] ∧ region.current = 0 := sound.valid.current
  apply sound.moved
  · rcases current with inside | ⟨-, first⟩ <;> omega
  · refine current.imp (fun inside => by omega) ?_
    rintro ⟨none, -⟩
    exact ⟨none, by rw [none, List.length_nil]⟩

theorem allocate_faults (sound : region.SoundIn process) {fault : Fault}
    {after : Region × Process}
    (failed : (allocate range).runFrom (region, process) = (.error (.fault fault), after)) :
    (region.manager.allocate (region.wanted range)).runFrom process =
      (.error (.fault fault), after.2) := by
  rcases allocate_cases range sound with ⟨-, ran⟩ | ⟨place, chunk, -, -, -, ran⟩ |
    ⟨current, -, -, moved, power, ran⟩
  · rw [ran] at failed
    cases failed
  · rw [ran] at failed
    cases failed
  · rw [ran] at failed
    by_cases sum : range.size + (range.align - 1) < wordLimit
    · have supplied := grow_supplied (isPowerOfTwo_pos power) sum moved
      rcases asked : ((region.moved current).manager.allocate
          ((region.moved current).wanted range)).runFrom process with ⟨failure | block, later⟩
      · have grown := supplied.of_error asked
        rw [failed] at grown
        cases grown
        exact asked
      · obtain ⟨offset, journal, -, grown⟩ := supplied.of_ok asked
        rw [failed] at grown
        cases grown
    · rw [grow_beyond sum] at failed
      cases failed

/-- A chunk of the size that is asked for when no chunk has room serves the request: it has room for
the range wherever it starts. So, if no chunk has room, a range is handed out from the new chunk
whenever the manager supplies that, and else the request fails as the manager does, before any block
is obtained: no error changes anything of the process, blocks and ledgers included, but what is
printed. No calculation of the region overflows, as a fault is one of the manager. -/
theorem new_chunk_serves (range : Layout) (sound : region.SoundIn process) :
    (isPowerOfTwo range.align = true → range.size + (range.align - 1) < wordLimit →
      ∀ block, block + (region.wanted range).size < wordLimit →
        ∃ offset, (region.obtained range block).room? range = .ok (some offset) ∧
          (region.obtained range block).Serves range offset) ∧
    (isPowerOfTwo range.align = true → region.Full range →
      if range.size + (range.align - 1) < wordLimit then
        Ends (region.manager.allocate (region.wanted range)) process
          (fun block supplied => ∃ offset journal,
            (region.obtained range block).Serves range offset ∧
            (allocate range).runFrom (region, process) = (.ok ⟨region.chunks.length, offset⟩,
              (region.taken (region.chunks ++ [region.obtained range block]) range
                ⟨region.chunks.length, offset⟩, { supplied with journal })))
          fun failure refused => (allocate range).runFrom (region, process) =
            (.error failure, (region.moved (region.chunks.length - 1), refused))
      else (allocate range).runFrom (region, process) = (.error (.error (.outOfMemory range.size)),
        (region.moved (region.chunks.length - 1), process))) ∧
    (∀ cause after, (allocate range).runFrom (region, process) = (.error (.error cause), after) →
      ∃ journal, after.2 = { process with journal }) ∧
    ∀ fault after, (allocate range).runFrom (region, process) = (.error (.fault fault), after) →
      (region.manager.allocate (region.wanted range)).runFrom process =
        (.error (.fault fault), after.2) := by
  refine ⟨?_, ?_, ?_, ?_⟩
  · intro power sum block fits
    exact obtained_serves (isPowerOfTwo_pos power) sum fits
  · intro power full
    rw [allocate_full power full sound.valid]
    split
    · rename_i sum
      exact grow_supplied (isPowerOfTwo_pos power) sum sound.last
    · rename_i beyond
      exact grow_beyond beyond _
  · intro cause after failed
    obtain ⟨-, journal, -, rest⟩ := (allocate_fails range sound).of_error failed cause rfl
    exact ⟨journal, rest⟩
  · intro fault after failed
    exact allocate_faults sound failed

/-- The chunks of the sample pair are in use, so a range of 300 bytes at a multiple of 4096 takes a new
chunk of 4395 bytes. The block that is supplied for it does not start at such a multiple. -/
theorem new_chunk_serves_samplePair :
    samplePair.1.SoundIn samplePair.2 ∧ samplePair.1.Full ⟨300, 4096⟩ ∧
      ((samplePair.1.manager.allocate ⟨4395, blockAlign⟩).runFrom samplePair.2).1 = .ok 73744 ∧
      73744 % 4096 ≠ 0 ∧
      ∃ offset after, (allocate ⟨300, 4096⟩).runFrom samplePair = (.ok ⟨2, offset⟩, after) ∧
        (73744 + offset) % 4096 = 0 ∧ offset + 300 ≤ 4395 := by
  have sound := samplePair_reachable.sound
  have full : samplePair.1.Full ⟨300, 4096⟩ := by
    unfold Full
    decide +kernel
  have wanted : samplePair.1.wanted ⟨300, 4096⟩ = ⟨4395, blockAlign⟩ := by decide +kernel
  have count : samplePair.1.chunks.length = 2 := by decide +kernel
  have supplied : ((samplePair.1.manager.allocate ⟨4395, blockAlign⟩).runFrom samplePair.2).1 =
      .ok 73744 := by decide +kernel
  have served := (new_chunk_serves ⟨300, 4096⟩ sound).2.1 (by decide) full
  rw [if_pos (by decide), wanted, count] at served
  obtain ⟨offset, journal, serves, ran⟩ := served.of_ok (Prod.ext supplied rfl)
  have inside := serves.inside
  rw [obtained, wanted] at inside
  exact ⟨sound, full, supplied, by decide, offset, _, ran, serves.aligned, inside⟩

end Region

end SymbolStore
