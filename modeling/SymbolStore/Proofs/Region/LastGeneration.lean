import SymbolStore.Proofs.Region.Epoch
import SymbolStore.Proofs.Region.Resolve

/-!
Resets of a region in its last generation. There is no next one to start, and that is found out only
when every chunk has been overwritten and rewound.
-/

namespace SymbolStore

open SymbolStore.Action (Ends)

namespace Chunk

def erased (chunks : List Chunk) (heap : Heap) : Heap :=
  chunks.foldl (fun heap chunk =>
    heap.write { block := chunk.block, offset := 0 } (List.replicate chunk.used poison)) heap

theorem eraseAll_effect (chunks : List Chunk) (process : Process)
    (used : ∀ chunk ∈ chunks, chunk.used ≤ chunk.capacity) (lodged : Lodged chunks process.heap) :
    Ends (chunks.forM erase) process
      (fun _ after => after = { process with heap := erased chunks process.heap })
      fun _ _ => False := by
  induction chunks generalizing process with
  | nil => exact rfl
  | cons chunk rest ih =>
      obtain ⟨first, others⟩ := List.forall_mem_cons.mp used
      rw [List.forM, Action.ends_bind, lodged.ends_erase List.mem_cons_self first]
      apply ih _ others
      exact fun other member => lodged.write _ _ other (List.mem_cons_of_mem chunk member)

variable {chunks : List Chunk} {chunk : Chunk} {heap : Heap}

theorem find?_erased_apart {block : Nat} (apart : block ∉ chunks.map Chunk.block) :
    (erased chunks heap).find? block = heap.find? block := by
  induction chunks generalizing heap with
  | nil => rfl
  | cons first rest ih =>
      rw [List.map_cons, List.mem_cons, not_or] at apart
      rw [erased, List.foldl_cons]
      refine (ih apart.2).trans ?_
      rw [Heap.find?_write, if_neg (Ne.symm apart.1)]

theorem find?_erased (distinct : (chunks.map Chunk.block).Nodup) (member : chunk ∈ chunks) :
    (erased chunks heap).find? chunk.block =
      (heap.find? chunk.block).map (·.write 0 (List.replicate chunk.used poison)) := by
  induction chunks generalizing heap with
  | nil => cases member
  | cons first rest ih =>
      rw [List.map_cons, List.nodup_cons] at distinct
      rw [erased, List.foldl_cons]
      -- A chunk is overwritten in its own turn and in no other, as no two are one block.
      rcases List.mem_cons.mp member with rfl | later
      · refine (find?_erased_apart distinct.1).trans ?_
        rw [Heap.find?_write, if_pos rfl]
      · have other : first.block ≠ chunk.block := by
          intro same
          exact distinct.1 (same ▸ List.mem_map_of_mem later)
        refine (ih distinct.2 later).trans ?_
        rw [Heap.find?_write, if_neg other]

theorem find?_erased_unused (unused : ∀ chunk ∈ chunks, chunk.used = 0) (block : Nat) :
    (erased chunks heap).find? block = heap.find? block := by
  induction chunks generalizing heap with
  | nil => rfl
  | cons first rest ih =>
      rw [erased, List.foldl_cons, unused first List.mem_cons_self]
      refine (ih fun chunk member => unused chunk (List.mem_cons_of_mem _ member)).trans ?_
      rw [Heap.find?_write]
      split
      · cases heap.find? block <;> rfl
      · rfl

theorem read_erased {offset count : Nat} (distinct : (chunks.map Chunk.block).Nodup)
    (member : chunk ∈ chunks) (present : ∃ block, heap.find? chunk.block = some block)
    (inside : offset + count ≤ chunk.used) :
    (erased chunks heap).read { block := chunk.block, offset } count =
      List.replicate count poison := by
  obtain ⟨block, found⟩ := present
  rw [Heap.read, find?_erased distinct member, found]
  simp only [Option.map_some, Block.read]
  apply List.eq_replicate_iff.mpr
  refine ⟨by simp, ?_⟩
  intro byte read
  obtain ⟨i, range, rfl⟩ := List.mem_map.mp read
  rw [List.mem_range'_1] at range
  have covered : 0 ≤ i ∧ i < 0 + (List.replicate chunk.used poison).length := by
    rw [List.length_replicate]
    omega
  have there : i < chunk.used := by omega
  rw [Block.byte_write, if_pos covered]
  simp [List.getD, there]

end Chunk

namespace Region

variable {region : Region} {process : Process} {handle : Handle} {bytes : List UInt8}
  {after : Region × Process}

def erased (region : Region) (process : Process) : Process :=
  { process with heap := Chunk.erased region.chunks process.heap }

theorem reset_effect (sound : region.SoundIn process) :
    Ends reset (region, process)
      (fun _ after => region.generation + 1 < wordLimit ∧
        after.1.generation = region.generation + 1)
      fun failure after => wordLimit ≤ region.generation + 1 ∧
        failure = .fault .generationsExhausted ∧
        after = (region.rewound, region.erased process) := by
  simp only [reset, Action.ends_bind, Method.ends_self, Method.ends_ofProcess]
  apply (Chunk.eraseAll_effect _ process sound.valid.used sound.lodged).mono ?_
    fun _ _ none => none.elim
  intro _ after erased
  subst erased
  simp only [Method.ends_update, Action.ends_ensure]
  split
  · rename_i next
    simp only [Method.ends_liftProcess, Process.ends_log]
    exact ⟨by simpa using next, trivial⟩
  · rename_i last
    exact ⟨by simpa using last, trivial, rfl⟩

/-- No byte is in use, and ranges are handed out from the first chunk. -/
def Unused (region : Region) : Prop :=
  region.current = 0 ∧ ∀ chunk ∈ region.chunks, chunk.used = 0

instance (region : Region) : Decidable region.Unused := inferInstanceAs (Decidable (_ ∧ _))

theorem rewound_eq_iff (valid : region.Valid) : region.rewound = region ↔ region.Unused := by
  constructor
  · intro same
    refine ⟨congrArg Region.current same.symm, ?_⟩
    intro chunk member
    have chunks : region.chunks.map Chunk.rewound = region.chunks := congrArg Region.chunks same
    rw [← chunks] at member
    obtain ⟨old, -, rfl⟩ := List.mem_map.mp member
    rfl
  · rintro ⟨first, unused⟩
    have chunks : region.chunks.map Chunk.rewound = region.chunks := Chunk.map_rewound unused
    have none : ∀ count ∈ region.chunks.map Chunk.used, count = 0 := List.forall_mem_map.mpr unused
    have total : region.totalAllocated = 0 := by
      apply Nat.le_zero.mp
      calc
        region.totalAllocated ≤ Chunk.total Chunk.used region.chunks := valid.total
        _ = 0 := List.sum_eq_zero none
    obtain ⟨id, manager, blocks, current, chunkSize, generation, totalAllocated⟩ := region
    cases first
    cases total
    exact congrArg (fun chunks => Region.mk id manager chunks 0 chunkSize generation 0) chunks

/-- The region and its bytes are as they were. So handles resolve as before, and what is handed out
until the next reset lies apart from all that was handed out in this generation. -/
structure Unharmed (region : Region) (process : Process) (after : Region × Process) : Prop where
  same : after.1 = region
  bytes : ∀ block, after.2.heap.find? block = process.heap.find? block
  resolves : ∀ handle bytes, region.resolve process.heap handle = .ok bytes →
    after.1.resolve after.2.heap handle = .ok bytes
  apart : ∀ grants, History grants region process →
    ∀ requests : List Request, requests.countP Request.isReset = 0 →
      (grants ++ (Method.run perform requests after).filterMap Grant.ofStep?).Pairwise
        fun first second => first.generation = second.generation → first.Apart second

theorem resolve_congr {before later : Heap} (same : ∀ block, later.find? block = before.find? block)
    (handle : Handle) : region.resolve later handle = region.resolve before handle := by
  have read (pointer : Pointer) (count : Nat) :
      later.read pointer count = before.read pointer count := Heap.read_congr (same _)
  simp only [resolve, read]

/-- What has been handed out does not depend on the bytes. -/
theorem History.inProcess {grants : List Grant} {later : Process}
    (history : History grants region process) (there : region.SoundIn later) :
    History grants region later where
  apart := history.apart
  lies grant member := (history.lies grant member).mono rfl (List.prefix_refl _) there
  past := history.past
  covered := history.covered
  total := history.total

theorem SoundIn.erased (sound : region.SoundIn process) :
    region.SoundIn (region.erased process) := by
  have effect := (Chunk.eraseAll_effect _ process sound.valid.used sound.lodged).and
    (eraseAll_ends region.chunks sound.memory sound.valid.used sound.lodged)
  rcases ran : (region.chunks.forM Chunk.erase).runFrom process with ⟨failure | _, after⟩
  · exact (effect.of_error ran).1.elim
  · obtain ⟨rfl, overwrites⟩ := effect.of_ok ran
    exact sound.overwrites overwrites

theorem unharmed_of_unused (sound : region.SoundIn process) (word : region.generation < wordLimit)
    (unused : region.Unused) :
    region.Unharmed process (region.rewound, region.erased process) := by
  have bytes (block : Nat) :
      (region.erased process).heap.find? block = process.heap.find? block :=
    Chunk.find?_erased_unused unused.2 block
  rw [(rewound_eq_iff sound.valid).mpr unused]
  refine ⟨rfl, bytes, ?_, ?_⟩
  · intro handle stored resolved
    rw [resolve_congr bytes, resolved]
  · intro grants history requests kept
    have there := history.inProcess sound.erased
    exact (history_run requests sound.erased there (by rwa [kept])).1.apart

/-- A reset starts the next generation, or it finds that there is none and does no harm. -/
def ResetsSafely (region : Region) (process : Process) : Prop :=
  Ends reset (region, process) (fun _ after => after.1.generation = region.generation + 1)
    fun failure after => failure = .fault .generationsExhausted ∧ region.Unharmed process after

theorem resetsSafely_iff (sound : region.SoundIn process)
    (word : region.generation < wordLimit) :
    region.ResetsSafely process ↔ region.generation + 1 < wordLimit ∨ region.Unused := by
  have effect := reset_effect sound
  constructor
  · intro safe
    rcases ran : reset.runFrom (region, process) with ⟨failure | _, after⟩
    · have left := congrArg Prod.fst (effect.of_error ran).2.2
      have same := (safe.of_error ran).2.same
      exact .inr ((rewound_eq_iff sound.valid).mp (left.symm.trans same))
    · exact .inl (effect.of_ok ran).1
  · intro spared
    refine effect.mono (fun _ _ counted => counted.2) ?_
    rintro _ _ ⟨last, rfl, rfl⟩
    exact ⟨rfl, unharmed_of_unused sound word (spared.resolve_left (Nat.not_lt.mpr last))⟩

theorem Served.issued {start last : Region × Process} {steps : List (Step Request Response Region)}
    (served : Served start steps last) (sound : start.1.SoundIn start.2) :
    last.1.id = start.1.id ∧ last.1.generation = start.1.generation ∧
      steps.map (placingBy last.1) = steps.map placing := by
  induction served with
  | nothing state => exact ⟨rfl, rfl, rfl⟩
  | @asked state after last request range response steps asks ran later ih =>
      have granted := (perform_granted asks sound).of_ok ran
      obtain ⟨place, takes, -, named⟩ := granted.takes
      obtain ⟨id, generation, rest⟩ := ih granted.sound
      have id := id.trans takes.id_eq
      have generation := generation.trans takes.generation_eq
      have own : response.issuedBy last.1 = response := by
        cases response with
        | handle issued =>
            have made := named issued rfl
            rw [made, Response.issuedBy, id, generation]
        | _ => rfl
      refine ⟨id, generation, ?_⟩
      rw [List.map_cons, List.map_cons, rest, placingBy, Except.map, own]
      rfl
  | aside evolves spared served ih => exact ih (sound.spared evolves spared)

/-- The ranges of the generation are taken back while their handles are good. Their bytes are
overwritten, handles to them find nothing, and what was served since the last reset is served again
from the same places, with the same handles. -/
structure Undone (region : Region) (process : Process) (after : Region × Process) : Prop where
  rewound : after.1 = region.rewound
  overwritten : ∀ chunk ∈ region.chunks, after.2.heap.read { block := chunk.block, offset := 0 }
    chunk.used = List.replicate chunk.used Chunk.poison
  lost : ∀ handle bytes, region.resolve process.heap handle = .ok bytes →
    after.1.resolve after.2.heap handle =
      if handle.offset + handle.length = 0 then .ok [] else .error (.fault .handleBeyondChunk)
  again : ∀ start steps, Epoch start → Served start steps (region, process) →
    (Method.run perform (steps.map Step.request) after).map placing = steps.map placing

theorem of_resolve_ok {heap : Heap} (resolved : region.resolve heap handle = .ok bytes) :
    handle.region = region.id ∧ handle.generation = region.generation ∧
      ∃ chunk, region.chunks[handle.chunk]? = some chunk ∧
        handle.offset + handle.length < wordLimit ∧
        handle.offset + handle.length ≤ chunk.used := by
  by_cases own : handle.region = region.id
  · by_cases current : handle.generation = region.generation
    · refine ⟨own, current, ?_⟩
      rw [resolve_current heap own current] at resolved
      split at resolved
      · cases resolved
      · cases resolved
      · rename_i chunk stop present sum
        rw [Word.add] at sum
        split at sum
        · rename_i word
          cases sum
          split at resolved
          · rename_i inside
            exact ⟨chunk, present, word, inside⟩
          · cases resolved
        · cases sum
    · rw [resolve_stale heap own current] at resolved
      cases resolved
  · rw [resolve_foreign region heap own] at resolved
    cases resolved

/-- In a region that was rewound no byte is in use. -/
theorem resolve_rewound {heap later : Heap} (resolved : region.resolve heap handle = .ok bytes) :
    region.rewound.resolve later handle =
      if handle.offset + handle.length = 0 then .ok [] else .error (.fault .handleBeyondChunk) := by
  obtain ⟨own, current, chunk, present, word, -⟩ := of_resolve_ok resolved
  have own : handle.region = region.rewound.id := own
  have current : handle.generation = region.rewound.generation := current
  have there : region.rewound.chunks[handle.chunk]? = some chunk.rewound := by
    rw [Region.rewound, List.getElem?_map, present]
    rfl
  simp only [resolve_current later own current, there, Word.add, if_pos word, Chunk.rewound,
    Nat.le_zero]
  split
  · rename_i empty
    have nothing : handle.length = 0 := by omega
    have none : later.read { block := chunk.block, offset := handle.offset } 0 = [] := by
      rw [Heap.read]
      split <;> rfl
    rw [nothing, none]
  · rfl

theorem undone_of_last (sound : region.SoundIn process) :
    region.Undone process (region.rewound, region.erased process) where
  rewound := rfl
  overwritten chunk member :=
    Chunk.read_erased sound.owns.apart member (sound.present (List.mem_map_of_mem member))
      (Nat.le_of_eq (Nat.zero_add _))
  lost handle bytes resolved := resolve_rewound resolved
  again start steps epoch served := by
    obtain ⟨there, rewound⟩ := epoch.fresh
    obtain ⟨-, fresh, unused, same, again⟩ := served.again there
    -- As after any reset, the region can do again what it did; but it has no new generation to say so.
    have resumed : region.rewound.replay start.1 (fresh ++ []) = region.rewound := by
      rw [List.append_nil]
      exact rewound_replay rewound unused same
    have lodged : Chunk.Lodged (start.1.chunks ++ fresh) (region.erased process).heap :=
      sound.erased.lodged.rewound same.symm
    have answers := (again region.rewound [] (region.erased process) lodged).1
    rw [resumed] at answers
    exact answers.trans (served.issued there).2.2

theorem reset_last (sound : region.SoundIn process) (last : wordLimit ≤ region.generation + 1) :
    Ends reset (region, process) (fun _ _ => False)
      fun failure after => failure = .fault .generationsExhausted ∧ region.Undone process after := by
  apply (reset_effect sound).mono
  · rintro _ _ ⟨next, -⟩
    exact Nat.not_lt.mpr last next
  · rintro _ _ ⟨-, rfl, rfl⟩
    exact ⟨rfl, undone_of_last sound⟩

def sampleProcess : Process :=
  ((create ⟨0⟩ 256).runFrom ((Manager.create .tracked).runFrom {}).2).2

def sampleIn (generation : Nat) : Region × Process := ({ sample with generation }, sampleProcess)

theorem reset_sampleIn {generation : Nat} (next : generation + 1 < wordLimit) :
    (perform .reset).runFrom (sampleIn generation) = (.ok .done, sampleIn (generation + 1)) := by
  have counts : decide (generation + 1 < wordLimit) = true := decide_eq_true next
  simp only [perform, reset, Action.runFrom_bind, Method.runFrom_self, Method.runFrom_ofProcess,
    Method.runFrom_update, Action.ensure, sampleIn, counts]
  rfl

theorem reachable_sampleIn {generation : Nat} (word : generation < wordLimit) :
    Reachable (sampleIn generation) := by
  induction generation with
  | zero =>
      have created : (create ⟨0⟩ 256).runFrom ((Manager.create .tracked).runFrom {}).2 =
          (.ok sample, sampleProcess) := Prod.ext (by decide +kernel) rfl
      exact .made (Manager.sound_create Allocator.ascending_lawful .tracked) created
  | succ generation ih =>
      have asked := Reachable.asked .reset (ih (Nat.lt_of_succ_lt word))
      rwa [reset_sampleIn word] at asked

def sampleAged : Region × Process :=
  ((perform (.storeBytes [1, 2, 3])).runFrom (sampleIn maxWord)).2

theorem sampleAged_reachable : Reachable sampleAged :=
  .asked (.storeBytes [1, 2, 3]) (reachable_sampleIn (by decide))

end Region

end SymbolStore
