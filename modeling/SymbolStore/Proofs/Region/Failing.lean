import SymbolStore.Proofs.Region.Run
import SymbolStore.Proofs.Twin.Journals

/-!
Requests to a region that fail. They hand nothing out and leave the process as it was, but the search
for room has moved on to the last chunk. What is left in the chunks before it is then out of reach
until the next reset.
-/

namespace SymbolStore

open SymbolStore.Action (Ends Respects)

variable {process : Process} {range : Layout}

namespace Chunk

/-- A chunk that was made for the range has room for it, wherever it starts. -/
theorem room?_fresh {chunk : Chunk} {needed : Nat} (positive : 0 < range.align)
    (unused : chunk.used = 0) (sum : Word.add? range.size (range.align - 1) = some needed)
    (large : needed ≤ chunk.capacity) (fits : chunk.block + chunk.capacity < wordLimit) :
    chunk.room? range = .ok (some (chunk.start range.align)) := by
  have total : needed = range.size + (range.align - 1) := by
    rw [Word.add?] at sum
    split at sum
    · exact (Option.some.inj sum).symm
    · cases sum
  have lost : chunk.start range.align ≤ range.align - 1 := by
    have down := alignDown_le (chunk.block + chunk.used + (range.align - 1)) range.align
    rw [start, alignUp, unused]
    rw [unused] at down
    omega
  have room : chunk.HasRoom range := ⟨by omega, by omega⟩
  rw [room?_eq positive (by omega) fits, if_pos room]

theorem create_effect {manager : Manager} (capacity : Nat) (sound : process.Sound) :
    Ends (create manager capacity) process
      (fun chunk _ => chunk.used = 0 ∧ chunk.capacity = capacity ∧
        chunk.block + chunk.capacity < wordLimit)
      fun failure after => ∀ {O : Type} (object : O),
        process.Declines object failure (object, after) := by
  rw [create]
  refine (Manager.allocate_effect _ sound).bind ?_ ?_
  · exact fun _ _ refused => refused.declines
  · intro block _ handed
    simp only [Action.ends_bind, Process.ends_log, Action.ends_pure]
    exact ⟨trivial, trivial, handed.grants.holds.fits handed.evolves.sound⟩

end Chunk

namespace Region

variable {region : Region}

/-- A chunk that is obtained serves the range, so that only the manager can fail. -/
theorem grow_fails (positive : 0 < range.align) (sound : region.SoundIn process) :
    Ends (grow range) (region, process) (fun _ _ => True) (process.Declines region) := by
  simp only [grow, Action.ends_bind, Method.ends_self]
  cases sum : Word.add? range.size (range.align - 1) with
  | none => exact Process.declines_self _
  | some needed =>
      simp only [Action.ends_bind, Method.ends_liftProcess]
      refine (Chunk.create_effect _ sound.memory).mono ?_ ?_
      · rintro chunk after ⟨unused, capacity, fits⟩
        have large : needed ≤ chunk.capacity := capacity ▸ Nat.le_max_right _ _
        rw [Chunk.room?_fresh positive unused sum large fits, Action.ends_liftFault]
        simp only [Action.ends_bind, Action.ends_liftFault]
        split
        · exact trivial
        · exact Process.declines_fault _ _
      · exact fun _ _ declines => declines region

def passed (region : Region) (range : Layout) : Region :=
  if isPowerOfTwo range.align then region.moved (region.chunks.length - 1) else region

theorem allocate_fails (range : Layout) (sound : region.SoundIn process) :
    Ends (allocate range) (region, process) (fun _ _ => True)
      (process.Declines (region.passed range)) := by
  rcases allocate_cases range sound with ⟨power, ran⟩ |
    ⟨place, chunk, present, fits, ahead, ran⟩ | ⟨current, ahead, rfl, moved, power, ran⟩
  · rw [Ends, ran, passed, power]
    exact Process.declines_self _
  · rw [Ends, ran]
    trivial
  · rw [Ends, ran, passed, if_pos power]
    exact grow_fails (isPowerOfTwo_pos power) moved

/-- What is asked for decides, not what is to be stored there. -/
theorem perform_fails {request : Request} (asks : request.layout? = some range)
    (sound : region.SoundIn process) :
    Ends (perform request) (region, process) (fun _ _ => True)
      (process.Declines (region.passed range)) := by
  have allocated := allocate_fails range sound
  cases request with
  | allocate range =>
      cases asks
      rw [perform, Action.ends_map]
      exact allocated
  | store range content =>
      cases asks
      rw [perform, Action.ends_map, store]
      refine (allocated.and (allocate_ends range sound)).bind (fun _ _ failed => failed.1) ?_
      rintro place ⟨after, process⟩ ⟨-, takes, there, -⟩
      simp only [Action.ends_bind, Method.ends_self, Method.ends_liftProcess]
      rw [there.ends_store takes.covers (by simp)]
      trivial
  | storeBytes bytes =>
      cases asks
      rw [perform, Action.ends_map, storeBytes]
      refine (allocated.and (allocate_ends _ sound)).bind (fun _ _ failed => failed.1) ?_
      rintro place ⟨after, process⟩ ⟨-, takes, there, -⟩
      simp only [Action.ends_bind, Method.ends_self, Method.ends_liftProcess]
      rw [there.ends_store takes.covers rfl]
      trivial
  | reset => cases asks

theorem perform_sound (request : Request) (sound : region.SoundIn process) :
    ((perform request).runFrom (region, process)).2.1.SoundIn
      ((perform request).runFrom (region, process)).2.2 := by
  let Sound (_ : Except Failure Response) (after : Region × Process) := after.1.SoundIn after.2
  refine (Action.ends_outcome (P := Sound)).mp ?_
  cases asks : request.layout? with
  | some range =>
      refine (perform_granted asks sound).mono (fun _ _ granted => granted.sound) ?_
      exact fun _ _ denied => denied.2.1
  | none =>
      refine (perform_reset asks sound).mono (fun _ _ ends => ends.2.2) ?_
      exact fun _ _ ends => ends.2.2

/-- The states that a region and its process come to: the region is made, requests are made to it,
and meanwhile the process changes in ways that leave its chunks alone. -/
inductive Reachable : Region × Process → Prop
  | made {manager : Manager} {chunkSize : Nat} {region : Region} {process after : Process}
      (memory : process.Sound)
      (created : (create manager chunkSize).runFrom process = (.ok region, after)) :
      Reachable (region, after)
  | asked {state : Region × Process} (request : Request) (earlier : Reachable state) :
      Reachable ((perform request).runFrom state).2
  | aside {region : Region} {process later : Process} {freed : List Nat}
      (earlier : Reachable (region, process)) (evolves : process.Evolves later freed)
      (spared : ∀ block ∈ region.chunks.map Chunk.block, block ∉ freed) :
      Reachable (region, later)

theorem Reachable.sound {state : Region × Process} (reachable : Reachable state) :
    state.1.SoundIn state.2 := by
  induction reachable with
  | made memory created => exact ((create_ends _ memory).of_ok created).1
  | asked request earlier sound => exact perform_sound request sound
  | aside earlier evolves spared sound => exact sound.spared evolves spared

theorem perform_retold (request : Request) :
    Respects (fun _ => False) (Abreast (fun _ => True) (Process.Retold fun _ _ => True)) 1
      (perform request) := by
  have lasting : Journal.Lasting fun _ _ => True := fun _ _ _ _ _ _ => trivial
  have parallel : Parallel (fun _ => True) (fun _ => False) (Process.Retold fun _ _ => True) :=
    (Process.Retold.congruent lasting).toParallel
  cases request with
  | allocate range => exact Action.respects_map (allocate_respects parallel range)
  | store range content => exact Action.respects_map (store_respects parallel range content)
  | storeBytes bytes => exact Action.respects_map (storeBytes_respects parallel bytes)
  | reset => exact (reset_respects parallel).answers (by decide)

theorem run_retold (requests : List Request) {p q : Process}
    (retold : Process.Retold (fun _ _ => True) 1 p q) :
    (Method.run perform requests (region, q)).map (fun step => (step.outcome, step.after.1)) =
      (Method.run perform requests (region, p)).map fun step => (step.outcome, step.after.1) := by
  induction requests generalizing region p q with
  | nil => rfl
  | cons request requests ih =>
      have step := (perform_retold request 0 (region, p) (region, q) ⟨rfl, trivial, retold⟩).outcomes
        fun _ _ => not_false
      rcases ran : (perform request).runFrom (region, p) with ⟨outcome, after, p'⟩
      rcases ran' : (perform request).runFrom (region, q) with ⟨outcome', after', q'⟩
      rw [ran, ran'] at step
      obtain ⟨rfl, left, -, rfl, -, later⟩ := step
      rw [Method.run_cons, Method.run_cons, ran, ran', List.map_cons, List.map_cons]
      exact congrArg _ (ih later)

theorem passed_eq (region : Region) (range : Layout) :
    region.passed range = { region with
      current := if isPowerOfTwo range.align then region.chunks.length - 1 else region.current } := by
  rw [passed]
  split <;> rfl

/-- At any time, a request for a range that fails changes the chunk
from which ranges are handed out to the last one, unless the alignment is none, and nothing else of
the region, and of the process only what is printed. So the region is as it was if and only if the
alignment is none or no chunk was ahead. Then every later request is answered as if the failed one
had not been made. -/
theorem failed_request_unchanged_iff {after : Region × Process}
    (reachable : Reachable (region, process)) {request : Request}
    (asks : request.layout? = some range) {cause : MemoryError}
    (failed : (perform request).runFrom (region, process) = (.error (.error cause), after)) :
    (after.1 = region ↔
      isPowerOfTwo range.align = false ∨ region.chunks.length ≤ region.current + 1) ∧
    after.1 = { region with
      current := if isPowerOfTwo range.align then region.chunks.length - 1 else region.current } ∧
    (∃ journal, after.2 = { process with journal }) ∧
    (after.1 = region → ∀ later : List Request,
      (Method.run perform later after).map (fun step => (step.outcome, step.after.1)) =
        (Method.run perform later (region, process)).map
          fun step => (step.outcome, step.after.1)) := by
  have current : region.current < region.chunks.length ∨
      region.chunks = [] ∧ region.current = 0 := reachable.sound.valid.current
  obtain ⟨left, process'⟩ := after
  obtain ⟨moved, journal, -, rest⟩ := (perform_fails asks reachable.sound).of_error failed cause rfl
  have moved : left = region.passed range := moved
  have rest : process' = { process with journal } := rest
  rw [passed_eq] at moved
  refine ⟨?_, moved, ⟨journal, rest⟩, fun (same : left = region) later => ?_⟩
  · show left = region ↔ _
    constructor
    · intro same
      have target : (if isPowerOfTwo range.align then region.chunks.length - 1 else region.current) =
          region.current := (congrArg Region.current moved).symm.trans (congrArg Region.current same)
      cases power : isPowerOfTwo range.align with
      | false => exact .inl rfl
      | true =>
          rw [power, if_pos rfl] at target
          right
          omega
    · rintro (none | last)
      · rw [moved, none]
        rfl
      · have target : region.chunks.length - 1 = region.current := by
          rcases current with inside | ⟨none, first⟩
          · omega
          · rw [none, first]
            rfl
        rw [moved, target, ite_self]
  · rw [same, rest]
    exact run_retold later ⟨rfl, trivial⟩

def sample : Region := { id := 1, manager := ⟨0⟩, chunkSize := 256 }

/-- The same region when it has obtained a chunk of 256 bytes and, after it, one of 300. -/
def samplePair : Region × Process :=
  Method.final perform [.allocate ⟨256, 1⟩, .allocate ⟨300, 1⟩]
    (sample, ((create ⟨0⟩ 256).runFrom ((Manager.create .tracked).runFrom {}).2).2)

theorem samplePair_reachable : Reachable samplePair := by
  have created : (create ⟨0⟩ 256).runFrom ((Manager.create .tracked).runFrom {}).2 =
      (.ok sample, ((create ⟨0⟩ 256).runFrom ((Manager.create .tracked).runFrom {}).2).2) :=
    Prod.ext (by decide +kernel) rfl
  have made := Reachable.made (Manager.sound_create Allocator.ascending_lawful .tracked) created
  exact .asked (.allocate ⟨300, 1⟩) (.asked (.allocate ⟨256, 1⟩) made)

theorem failed_request_unchanged_samplePair :
    ((perform (.allocate ⟨2 ^ 62, 1⟩)).runFrom samplePair).1 = .error (.error (.outOfMemory (2 ^ 62))) ∧
      ((perform (.allocate ⟨2 ^ 62, 1⟩)).runFrom samplePair).2.1 = samplePair.1 := by
  have failed : ((perform (.allocate ⟨2 ^ 62, 1⟩)).runFrom samplePair).1 =
      .error (.error (.outOfMemory (2 ^ 62))) := by decide +kernel
  exact ⟨failed, (failed_request_unchanged_iff samplePair_reachable rfl (Prod.ext failed rfl)).1.mpr
    (.inr (by decide +kernel))⟩

/-- The sample pair, after a reset, forgets its first chunk when a request fails. A later request that
fits there is answered otherwise than without the failure. -/
theorem failed_request_passes_chunk :
    let rewound := ((perform .reset).runFrom samplePair).2
    let after := ((perform (.allocate ⟨2 ^ 62, 1⟩)).runFrom rewound).2
    Reachable rewound ∧
      ((perform (.allocate ⟨2 ^ 62, 1⟩)).runFrom rewound).1 =
        .error (.error (.outOfMemory (2 ^ 62))) ∧
      after.1 ≠ rewound.1 ∧ (rewound.1.remaining = 256 ∧ after.1.remaining = 300) ∧
      ((perform (.allocate ⟨8, 1⟩)).runFrom rewound).1 = .ok (.range ⟨0, 0⟩) ∧
      ((perform (.allocate ⟨8, 1⟩)).runFrom after).1 = .ok (.range ⟨1, 0⟩) := by
  refine ⟨.asked .reset samplePair_reachable, ?_, ?_, ?_, ?_, ?_⟩ <;> decide +kernel

end Region

end SymbolStore
