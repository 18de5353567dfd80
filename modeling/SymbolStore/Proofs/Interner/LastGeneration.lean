import SymbolStore.Proofs.Interner.Failing
import SymbolStore.Proofs.Interner.Values
import SymbolStore.Proofs.Region.LastGeneration

/-!
Interners whose region is in its last generation. When such an interner is cleared, its region undoes
itself before it is found that there is no next generation. The buckets are not emptied then, and lead
to entries that are no more.
-/

namespace SymbolStore

open SymbolStore.Action (Ends)

namespace Interner

variable {interner : Interner} {process : Process} {heap : Heap} {content : List UInt8}

theorem clear_effect (sound : interner.region.SoundIn process) :
    Ends clear (interner, process)
      (fun _ after => interner.region.generation + 1 < wordLimit ∧
        after.1.region.generation = interner.region.generation + 1)
      fun failure after => wordLimit ≤ interner.region.generation + 1 ∧
        failure = .fault .generationsExhausted ∧
        after = ({ interner with region := interner.region.rewound },
          interner.region.erased process) := by
  simp only [clear, ofRegion, Action.ends_bind, Method.ends_ofPart]
  apply (Region.reset_effect sound).mono
  · rintro _ ⟨region, later⟩ counted
    simp only [Method.ends_update, Method.ends_self, Method.ends_liftProcess, Process.ends_log]
    exact counted
  · rintro _ _ ⟨last, rfl, rfl⟩
    exact ⟨last, rfl, rfl⟩

structure Finds (interner : Interner) (heap : Heap) (record : Record) : Prop where
  lookup : interner.lookup heap record.2.1 = .ok (some record.1)
  get : interner.get heap record.2.1 = .ok (some record.2.2)
  resolves : interner.Resolves heap record.1 record.2.1 record.2.2

/-- The interner and its region are as they were, and all that was put in is still found. -/
structure Unharmed (interner : Interner) (process : Process) (after : Interner × Process) : Prop where
  same : after.1 = interner
  region : interner.region.Unharmed process (after.1.region, after.2)
  found : ∀ record ∈ interner.toList process.heap, after.1.Finds after.2.heap record

/-- Clearing starts the next generation, or it finds that there is none and does no harm. -/
def ClearsSafely (interner : Interner) (process : Process) : Prop :=
  Ends clear (interner, process)
    (fun _ after => after.1.region.generation = interner.region.generation + 1)
    fun failure after => failure = .fault .generationsExhausted ∧ interner.Unharmed process after

theorem finds_of_mem {record : Record} (valid : interner.Valid heap)
    (member : record ∈ interner.toList heap) : interner.Finds heap record := by
  have held := valid.distinct_toList.holding_of_mem member
  refine ⟨?_, ?_, resolves_of_mem member⟩
  · rw [lookup_eq valid, held]
    rfl
  · rw [get_eq valid, held]
    rfl

theorem Finds.congr {record : Record} {later : Heap} (finds : interner.Finds heap record)
    (same : later.read = heap.read) : interner.Finds later record := by
  have holds : Entry.holds later = Entry.holds heap := by
    simp only [funext_iff, Entry.holds, Entry.hash, Entry.length, Entry.bytes, Heap.readWord, same,
      implies_true]
  have bytes : Entry.bytes later = Entry.bytes heap := by
    simp only [funext_iff, Entry.length, Entry.bytes, Heap.readWord, same, implies_true]
  have value : Entry.value later = Entry.value heap := by
    simp only [funext_iff, Entry.value, same, implies_true]
  obtain ⟨looked, got, bytesThere, text, valueThere⟩ := finds
  constructor
  · simpa only [Interner.lookup, find, findHashed, holds] using looked
  · simpa only [Interner.get, find, findHashed, holds, value] using got
  · constructor
    · simpa only [bytesOf, bytes] using bytesThere
    · simpa only [textOf, bytesOf, bytes] using text
    · simpa only [valueOf, value] using valueThere

/-- Where the region has nothing in use, no bytes change and so all is found that was found before. -/
theorem unharmed_of_unused (sound : interner.SoundIn process)
    (word : interner.region.generation < wordLimit) (unused : interner.region.Unused) :
    interner.Unharmed process
      ({ interner with region := interner.region.rewound }, interner.region.erased process) := by
  have unharmed := Region.unharmed_of_unused sound.region word unused
  have same : { interner with region := interner.region.rewound } = interner :=
    congrArg (fun region => { interner with region }) unharmed.same
  refine ⟨same, unharmed, ?_⟩
  intro record member
  have read : (interner.region.erased process).heap.read = process.heap.read := by
    funext pointer count
    exact Heap.read_congr (unharmed.bytes _)
  rw [same]
  exact (finds_of_mem sound.valid member).congr read

theorem clearsSafely_iff (sound : interner.SoundIn process)
    (word : interner.region.generation < wordLimit) :
    interner.ClearsSafely process ↔
      interner.region.generation + 1 < wordLimit ∨ interner.region.Unused := by
  have effect := clear_effect sound.region
  constructor
  · intro safe
    rcases ran : clear.runFrom (interner, process) with ⟨failure | _, after⟩
    · have left := congrArg (fun after => after.1.region) (effect.of_error ran).2.2
      have same := (safe.of_error ran).2.region.same
      exact .inr ((Region.rewound_eq_iff sound.region.valid).mp (left.symm.trans same))
    · exact .inl (effect.of_ok ran).1
  · intro spared
    refine effect.mono (fun _ _ counted => counted.2) ?_
    rintro _ _ ⟨last, rfl, rfl⟩
    have unused : interner.region.Unused := spared.resolve_left (Nat.not_lt.mpr last)
    exact ⟨rfl, unharmed_of_unused sound word unused⟩

/-- The region has been undone under the buckets, which are as they were. Every entry now has a length
that no object has, and so no bytes are found. -/
structure Undone (interner : Interner) (process : Process) (after : Interner × Process) : Prop where
  kept : after.1 = { interner with region := interner.region.rewound }
  region : interner.region.Undone process (after.1.region, after.2)
  misread : ∀ entry ∈ interner.entries, maxObjectSize < Entry.length after.2.heap entry
  lost : ∀ content, content.length ≤ maxObjectSize →
    after.1.lookup after.2.heap content = .ok none

theorem length_erased {entry : Pointer} (sound : interner.SoundIn process)
    (member : entry ∈ interner.entries) :
    maxObjectSize < Entry.length (interner.region.erased process).heap entry := by
  have offset := Entry.valueOffset_ge (isPowerOfTwo_pos sound.align)
  have header := Entry.value_inside interner.value
  obtain ⟨chunk, there, block, inside⟩ := sound.valid.covered entry member
  unfold span Entry.span at inside
  have fits : entry.offset + 8 + 8 ≤ chunk.used := by omega
  -- The second word of the header is in use, and so it is overwritten.
  have read : (interner.region.erased process).heap.read (entry.plus 8) 8 =
      List.replicate 8 Chunk.poison := by
    rw [Pointer.plus, ← block]
    exact Chunk.read_erased sound.region.owns.apart there
      (sound.region.present (List.mem_map_of_mem there)) fits
  rw [Entry.length, Heap.readWord, read]
  decide

theorem lookup_of_unmatched (size : TableSize interner.capacity)
    (unmatched : ∀ entry ∈ interner.entries,
      Entry.holds heap interner.value content (interner.hasher content) entry = false) :
    interner.lookup heap content = .ok none := by
  obtain ⟨outcome, searched⟩ := search_total (interner.hasher content)
    (Entry.holds heap interner.value content (interner.hasher content)) size
  have missed (index : Nat) : outcome.finding ≠ .found index := by
    intro finding
    obtain ⟨entry, stored, hit⟩ := search_found size searched finding
    rw [unmatched entry (mem_entries.mpr ⟨index, stored⟩)] at hit
    cases hit
  simp only [lookup, find, findHashed, searched, bind, Except.bind]
  cases finding : outcome.finding with
  | found index => exact absurd finding (missed index)
  | vacant index => rfl
  | exhausted => rfl

theorem undone_of_last (sound : interner.SoundIn process) :
    interner.Undone process
      ({ interner with region := interner.region.rewound }, interner.region.erased process) where
  kept := rfl
  region := Region.undone_of_last sound.region
  misread _ member := length_erased sound member
  lost content small := by
    refine lookup_of_unmatched sound.valid.size fun entry member => ?_
    have large := length_erased sound member
    have other : Entry.length (interner.region.erased process).heap entry ≠ content.length := by
      omega
    simp only [Entry.holds, beq_false_of_ne other, Bool.and_false, Bool.false_and]

theorem clear_last (sound : interner.SoundIn process)
    (last : wordLimit ≤ interner.region.generation + 1) :
    Ends clear (interner, process) (fun _ _ => False)
      fun failure after => failure = .fault .generationsExhausted ∧
        interner.Undone process after := by
  apply (clear_effect sound.region).mono
  · rintro _ _ ⟨next, -⟩
    exact Nat.not_lt.mpr last next
  · rintro _ _ ⟨-, rfl, rfl⟩
    exact ⟨rfl, undone_of_last sound⟩

/-- A reset either starts the next generation or stops because there is none
and leaves everything as it was, if and only if there is a next generation or the region has nothing in
use; and so does the clearing of an interner. In the last generation both stop only when they have
undone the region: its ranges are taken back and overwritten, its handles find nothing or come to be
handles of other data, and the interner, whose buckets are still full, finds none of its strings. -/
theorem reset_safe_iff {region : Region} {memory : Process} (sound : region.SoundIn memory)
    (word : region.generation < wordLimit) (interns : interner.SoundIn process)
    (counts : interner.region.generation < wordLimit) :
    (region.ResetsSafely memory ↔ region.generation + 1 < wordLimit ∨ region.Unused) ∧
    (interner.ClearsSafely process ↔
      interner.region.generation + 1 < wordLimit ∨ interner.region.Unused) ∧
    (wordLimit ≤ region.generation + 1 → Ends Region.reset (region, memory) (fun _ _ => False)
      fun failure after => failure = .fault .generationsExhausted ∧ region.Undone memory after) ∧
    (wordLimit ≤ interner.region.generation + 1 → Ends clear (interner, process) (fun _ _ => False)
      fun failure after => failure = .fault .generationsExhausted ∧
        interner.Undone process after) :=
  ⟨Region.resetsSafely_iff sound word, clearsSafely_iff interns counts, Region.reset_last sound,
    clear_last interns⟩

def sampleIn (generation : Nat) : Interner × Process :=
  ({ sample.1 with region := { sample.1.region with generation } }, sample.2)

theorem clear_sampleIn {generation : Nat} (next : generation + 1 < wordLimit) :
    (perform .clear).runFrom (sampleIn generation) = (.ok .done, sampleIn (generation + 1)) := by
  have counts : decide (generation + 1 < wordLimit) = true := decide_eq_true next
  simp only [perform, clear, ofRegion, Region.reset, Action.runFrom_bind, Method.runFrom_ofPart,
    Method.runFrom_self, Method.runFrom_ofProcess, Method.runFrom_update, Action.ensure, sampleIn,
    counts]
  rfl

theorem reachable_sampleIn {generation : Nat} (word : generation < wordLimit) :
    ∃ known, Reachable (sampleIn generation) known := by
  induction generation with
  | zero =>
      have created : (create ⟨0⟩ 4 ⟨8, 8⟩ fun _ => 0).runFrom limited = (.ok sample.1, sample.2) := rfl
      exact ⟨[], .made (Manager.sound_create Allocator.ascending_lawful _) rfl created⟩
  | succ generation ih =>
      obtain ⟨known, reachable⟩ := ih (Nat.lt_of_succ_lt word)
      have asked := Reachable.asked .clear reachable (by simp [Request.symbol?]) word
      rw [clear_sampleIn word] at asked
      exact ⟨_, asked⟩

def sampleAged : Interner × Process := ((perform (.insert [1] [])).runFrom (sampleIn maxWord)).2

theorem sampleAged_reachable : ∃ known, Reachable sampleAged known := by
  have last : ∃ known, Reachable (sampleIn maxWord) known := reachable_sampleIn (by decide)
  obtain ⟨known, reachable⟩ := last
  exact ⟨_, .asked (.insert [1] []) reachable (by simp [Request.symbol?]) (by decide +kernel)⟩

theorem reset_safe_sampleAged :
    ¬ Region.sampleAged.1.ResetsSafely Region.sampleAged.2 ∧
      ¬ sampleAged.1.ClearsSafely sampleAged.2 ∧
      (sampleIn maxWord).1.ClearsSafely (sampleIn maxWord).2 := by
  obtain ⟨known, reachable⟩ := sampleAged_reachable
  have last : ∃ known, Reachable (sampleIn maxWord) known := reachable_sampleIn (by decide)
  obtain ⟨earlier, empty⟩ := last
  have word : Region.sampleAged.1.generation < wordLimit := by decide +kernel
  have counts : sampleAged.1.region.generation < wordLimit := by decide +kernel
  have used : ¬ (Region.sampleAged.1.generation + 1 < wordLimit ∨ Region.sampleAged.1.Unused) := by
    decide +kernel
  have filled : ¬ (sampleAged.1.region.generation + 1 < wordLimit ∨ sampleAged.1.region.Unused) := by
    decide +kernel
  have safe := reset_safe_iff Region.sampleAged_reachable.sound word reachable.sound.1 counts
  have vacant := reset_safe_iff Region.sampleAged_reachable.sound word empty.sound.1 (by decide)
  exact ⟨fun resets => used (safe.1.mp resets), fun clears => filled (safe.2.1.mp clears),
    vacant.2.1.mpr (.inr (by decide +kernel))⟩

/-- A region in its last generation stores three bytes and an interner one string. Then both are reset
once more. The stop leaves the handle without its bytes, the next bytes get the same place under the
same generation, and the interner counts one string and finds none. -/
theorem exhausted_reset_undoes :
    let region := Region.sampleAged
    let handle : Region.Handle :=
      { region := 1, generation := maxWord, chunk := 0, offset := 0, length := 3 }
    let left := (Region.reset.runFrom region).2
    let interner := sampleAged
    let cleared := (clear.runFrom interner).2
    (Region.Reachable region ∧ ¬ region.1.ResetsSafely region.2 ∧
      region.1.resolve region.2.heap handle = .ok [1, 2, 3] ∧
      (Region.reset.runFrom region).1 = .error (.fault .generationsExhausted) ∧
      left.1.resolve left.2.heap handle = .error (.fault .handleBeyondChunk) ∧
      ((Region.storeBytes [4, 5, 6]).runFrom left).1 = .ok handle) ∧
    ((∃ known, Reachable interner known) ∧ ¬ interner.1.ClearsSafely interner.2 ∧
      interner.1.contains interner.2.heap [1] = .ok true ∧
      (clear.runFrom interner).1 = .error (.fault .generationsExhausted) ∧
      cleared.1.count = 1 ∧ cleared.1.contains cleared.2.heap [1] = .ok false) := by
  intro region handle left interner cleared
  have stored : region.1.resolve region.2.heap handle = .ok [1, 2, 3] := by decide +kernel
  have stops : (Region.reset.runFrom region).1 = .error (.fault .generationsExhausted) := by
    decide +kernel
  have lost : left.1.resolve left.2.heap handle = .error (.fault .handleBeyondChunk) := by
    decide +kernel
  have put : interner.1.contains interner.2.heap [1] = .ok true := by decide +kernel
  have clears : (clear.runFrom interner).1 = .error (.fault .generationsExhausted) := by
    decide +kernel
  have gone : cleared.1.contains cleared.2.heap [1] = .ok false := by decide +kernel
  refine ⟨⟨Region.sampleAged_reachable, ?_, stored, stops, lost, by decide +kernel⟩,
    sampleAged_reachable, ?_, put, clears, by decide +kernel, gone⟩
  · intro safe
    have still := (safe.of_error (Prod.fst_eq_iff.mp stops)).2.resolves handle _ stored
    cases lost.symm.trans still
  · intro safe
    have moved : cleared.1.region ≠ interner.1.region := by decide +kernel
    exact moved (safe.of_error (Prod.fst_eq_iff.mp clears)).2.region.same

end Interner

end SymbolStore
