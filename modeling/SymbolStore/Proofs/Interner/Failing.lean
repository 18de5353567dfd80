import SymbolStore.Proofs.Bucket.Exchange
import SymbolStore.Proofs.Interner.Refill
import SymbolStore.Proofs.Region.Failing

/-!
Insertions that fail. No entry is lost and none is added. But buckets that were doubled before the
entry was turned down stay doubled, and the region has moved on to its last chunk.
-/

namespace SymbolStore

open SymbolStore.Action (Ends)

namespace Interner

variable {interner : Interner} {process : Process} {content : List UInt8} {hash : UInt64}

/-- The interner has other buckets now. What its manager counts has changed by the difference. -/
structure Rebucketed (interner : Interner) (process : Process) (after : Interner × Process) :
    Prop where
  table : ∃ table, after.1 = interner.withTable table
  exchanges : interner.manager.Exchanges process after.2
    (BucketArray.layout interner.capacity).size (BucketArray.layout after.1.capacity).size

/-- Growing exchanges the bucket array, or fails and does nothing but print. -/
theorem grow_effect (sound : interner.SoundIn process) :
    Ends grow (interner, process) (fun _ after => interner.Rebucketed process after)
      (process.Declines interner) := by
  have size := (grownCapacity_eq sound.valid.size sound.valid.least sound.capacity_lt).2
  apply grow_rehashes sound.valid.size sound.valid.least sound.capacity_lt
  apply (interner.table.rehashed_effect .interner (Entry.hash process.heap) sound.region.memory size
    sound.entries_le).mono
  · intro fresh after ends text
    obtain ⟨handed, replaces⟩ := ends
    apply (Manager.free_exchanges sound.region.memory sound.table handed _).mono ?_
      fun _ _ none => none.elim
    intro _ final exchanges
    refine ⟨⟨fresh, rfl⟩, ?_⟩
    show interner.manager.Exchanges process final _ (BucketArray.layout fresh.capacity).size
    rw [replaces.capacity]
    exact exchanges
  · exact fun _ _ refused => refused.declines interner

def passed (interner : Interner) (content : List UInt8) : Interner :=
  if (Entry.header interner.value).size + content.length < wordLimit then
    { interner with region := interner.region.moved (interner.region.chunks.length - 1) }
  else interner

theorem storeEntry_fails (value : List UInt8) (sound : interner.SoundIn process) :
    Ends (storeEntry content hash value) (interner, process) (fun _ _ => True)
      (process.Declines (interner.passed content)) := by
  simp only [storeEntry, Action.ends_bind, Method.ends_self, Word.add?, passed]
  by_cases fits : (Entry.header interner.value).size + content.length < wordLimit
  · simp only [if_pos fits, ofRegion, Action.ends_bind, Method.ends_ofPart]
    refine ((Region.allocate_fails _ sound.region).and
      (Region.allocate_ends _ sound.region)).mono ?_ ?_
    · rintro place ⟨region, middle⟩ ⟨-, takes, there, -⟩
      simp only [Method.ends_self, Method.ends_liftProcess]
      rw [Entry.ends_store sound.positive (Layout.length_fit _ _) (there.covers takes.covers)]
      trivial
    · rintro failure after ⟨declines, -⟩
      rw [Region.passed, if_pos (Entry.isPowerOfTwo_header sound.align)] at declines
      exact declines.within fun region => { interner with region }
  · simp only [if_neg fits, Action.ends_fail]
    exact Process.declines_self _

theorem insertNew_fails (value : List UInt8) (sound : interner.SoundIn process) :
    Ends (insertNew content hash value) (interner, process) (fun _ _ => True)
      (process.Declines (interner.passed content)) := by
  apply (vacancy_ends sound.valid hash maxGrowths).bind fun _ _ none => none.elim
  rintro index _ ⟨rfl, -⟩
  apply (storeEntry_fails value sound).bind fun _ _ failed => failed
  intro entry after _
  simp only [Action.ends_bind, Method.ends_self, Action.ends_liftFault]
  cases Word.add after.1.count 1 with
  | error fault => exact Process.declines_fault fault _
  | ok count => trivial

/-- An insertion of bytes that are not there begins by doubling the buckets. -/
def Grows (interner : Interner) (process : Process) : Prop :=
  interner.Crowded ∧ (grow.runFrom (interner, process)).1.isOk

/-- What a failed insertion comes to: more buckets are refused; the entry is turned down; or it is
turned down after the buckets were doubled. -/
inductive Unserved (interner : Interner) (process : Process) (content : List UInt8) :
    Interner × Process → Prop
  | refused {after : Process} (crowded : interner.Crowded) (stays : ¬ interner.Grows process)
      (remarks : process.Remarks after) : Unserved interner process content (interner, after)
  | roomy {after : Process} (roomy : ¬ interner.Crowded) (remarks : process.Remarks after) :
      Unserved interner process content (interner.passed content, after)
  | grown {middle : Interner × Process} {after : Process} (grows : interner.Grows process)
      (rebucketed : interner.Rebucketed process middle)
      (doubled : middle.1.capacity = 2 * interner.capacity) (remarks : middle.2.Remarks after) :
      Unserved interner process content (middle.1.passed content, after)

theorem insert_fails (value : List UInt8) (sound : interner.SoundIn process) :
    Ends (insert content value) (interner, process) (fun _ _ => True)
      fun failure after => ∀ cause, failure = .error cause →
        interner.Unserved process content after := by
  rcases find_cases sound.valid content with ⟨entry, member, found, same⟩ | ⟨missed, lacks⟩
  · rw [Ends, insert_of_present value found]
    trivial
  · rw [Ends, insert_of_absent value missed, ← Ends, Action.ends_bind, ends_prepare sound]
    by_cases crowded : interner.Crowded
    · rw [if_pos crowded]
      apply (((grow_effect sound).and (grow_ends sound)).and (Action.ends_ran grow _)).mono
      · rintro _ middle ⟨⟨rebucketed, doubled, continues⟩, ran⟩
        have grows : interner.Grows process := ⟨crowded, by rw [ran]; rfl⟩
        apply (insertNew_fails value continues.sound).bind
        · intro failure _ declines cause same
          obtain ⟨after, remarks, rfl⟩ := declines.exists_eq same
          exact .grown grows rebucketed doubled remarks
        · exact fun _ _ _ => trivial
      · rintro failure middle ⟨⟨declines, -⟩, ran⟩ cause same
        have stays : ¬ interner.Grows process := fun grows => by
          rw [Grows, ran] at grows
          cases grows.2
        obtain ⟨after, remarks, rfl⟩ := declines.exists_eq same
        exact .refused crowded stays remarks
    · rw [if_neg crowded]
      apply (insertNew_fails value sound).bind
      · intro failure _ declines cause same
        obtain ⟨after, remarks, rfl⟩ := declines.exists_eq same
        exact .roomy crowded remarks
      · exact fun _ _ _ => trivial

theorem passed_eq (interner : Interner) (content : List UInt8) : ∃ current,
    interner.passed content = { interner with region := { interner.region with current } } := by
  rw [passed]
  split
  · exact ⟨_, rfl⟩
  · exact ⟨interner.region.current, rfl⟩

theorem passed_eq_self_iff (valid : interner.region.Valid) :
    interner.passed content = interner ↔
      wordLimit ≤ (Entry.header interner.value).size + content.length ∨
        interner.region.chunks.length ≤ interner.region.current + 1 := by
  rw [passed]
  by_cases fits : (Entry.header interner.value).size + content.length < wordLimit
  · rw [if_pos fits]
    constructor
    · intro same
      have target : interner.region.chunks.length - 1 = interner.region.current :=
        congrArg (fun interner => interner.region.current) same
      omega
    · rintro (oversized | last)
      · omega
      · have target : interner.region.chunks.length - 1 = interner.region.current := by
          rcases valid.current with inside | ⟨none, first⟩
          · omega
          · rw [none, first]
            rfl
        rw [Region.moved, target]
  · rw [if_neg fits]
    exact ⟨fun _ => .inl (Nat.not_lt.mp fits), fun _ => rfl⟩

/-- What there is to be said of the interner after a failed insertion. -/
structure Endures (interner : Interner) (process : Process) (after : Interner × Process) : Prop where
  ungrown : ¬ interner.Grows process →
    after.1.table = interner.table ∧ ∃ journal, after.2 = { process with journal }
  grown : interner.Grows process → after.1.capacity = 2 * interner.capacity
  region : ∃ current, after.1.region = { interner.region with current }
  exchanges : interner.manager.Exchanges process after.2
    (BucketArray.layout interner.capacity).size (BucketArray.layout after.1.capacity).size

theorem Unserved.endures {after : Interner × Process}
    (unserved : interner.Unserved process content after) : interner.Endures process after := by
  cases unserved with
  | refused crowded stays remarks =>
      have exchanges := Manager.Exchanges.of_remarks interner.manager remarks
        (BucketArray.layout interner.capacity).size
      obtain ⟨journal, -, same⟩ := remarks
      exact ⟨fun _ => ⟨rfl, journal, same⟩, fun grows => absurd grows stays, ⟨_, rfl⟩, exchanges⟩
  | roomy roomy remarks =>
      have exchanges := Manager.Exchanges.of_remarks interner.manager remarks
        (BucketArray.layout interner.capacity).size
      obtain ⟨journal, -, same⟩ := remarks
      obtain ⟨current, passed⟩ := interner.passed_eq content
      rw [passed]
      exact ⟨fun _ => ⟨rfl, journal, same⟩, fun grows => absurd grows.1 roomy, ⟨current, rfl⟩,
        exchanges⟩
  | @grown middle after grows rebucketed doubled remarks =>
      obtain ⟨⟨table, same⟩, exchanges⟩ := rebucketed
      obtain ⟨current, passed⟩ := middle.1.passed_eq content
      rw [passed]
      refine ⟨fun stays => absurd grows stays, fun _ => doubled, ⟨current, ?_⟩,
        exchanges.remarks remarks⟩
      rw [same]
      rfl

/-- The buckets of an interner tell whether they were doubled. -/
theorem Unserved.eq_self_iff {after : Interner × Process} (sound : interner.SoundIn process)
    (unserved : interner.Unserved process content after) :
    after.1 = interner ↔ ¬ interner.Grows process ∧
      (interner.Crowded ∨ wordLimit ≤ (Entry.header interner.value).size + content.length ∨
        interner.region.chunks.length ≤ interner.region.current + 1) := by
  have least := sound.valid.least
  have endures := unserved.endures
  unfold minBuckets at least
  cases unserved with
  | refused crowded stays remarks => exact ⟨fun _ => ⟨stays, .inl crowded⟩, fun _ => rfl⟩
  | roomy roomy remarks =>
      have stays : ¬ interner.Grows process := fun grows => roomy grows.1
      rw [passed_eq_self_iff sound.region.valid]
      exact ⟨fun same => ⟨stays, .inr same⟩, fun spared => spared.2.resolve_left roomy⟩
  | grown grows rebucketed doubled remarks =>
      have capacity := endures.grown grows
      constructor
      · intro same
        rw [same] at capacity
        omega
      · exact fun spared => absurd grows spared.1

/-- At any time, an insertion that fails has found too little
memory. It leaves the interner as it was if and only if the buckets were not doubled first, and the
region, where the entry was asked for, was at its last chunk. No string is lost or added, and the
region keeps its chunks and all that was handed out. But buckets that were doubled stay so: then the
manager has as many live blocks as before, and if it is tracked, 16 bytes more for each new bucket. -/
theorem failed_insert_unchanged_iff {after : Interner × Process} {known : List Symbol}
    (reachable : Reachable (interner, process) known) {value : List UInt8} {cause : MemoryError}
    (failed : (insert content value).runFrom (interner, process) = (.error (.error cause), after)) :
    (∃ requested, cause = .outOfMemory requested) ∧
      (after.1 = interner ↔ ¬ interner.Grows process ∧
        (interner.Crowded ∨ wordLimit ≤ (Entry.header interner.value).size + content.length ∨
          interner.region.chunks.length ≤ interner.region.current + 1)) ∧
      interner.Endures process after ∧ after.1.count = interner.count ∧
      (after.1.toList after.2.heap).Perm (interner.toList process.heap) := by
  have sound := reachable.sound.1
  have unserved := (insert_fails value sound).of_error failed cause rfl
  obtain ⟨-, denies, continues⟩ := (insert_ends content value sound).of_error failed
  have short : ∃ requested, cause = .outOfMemory requested := by
    rcases denies with ⟨requested, same⟩ | ⟨fault, -⟩
    · exact ⟨requested, Failure.error.inj same⟩
    · cases fault
  exact ⟨short, unserved.eq_self_iff sound, unserved.endures, continues.count sound.valid,
    continues.records⟩

def limited : Process := ((Manager.create (Config.tracked.withByteLimit 8400)).runFrom {}).2

/-- An interner of this manager with four buckets. All bytes have the same hash. -/
def sample : Interner × Process :=
  ({ manager := ⟨0⟩
     region := { id := 1, manager := ⟨0⟩, chunkSize := 8192 }
     table := { block := 65552, buckets := Array.replicate 4 .empty }
     hasher := fun _ => 0
     value := ⟨8, 8⟩ },
    ((create ⟨0⟩ 4 ⟨8, 8⟩ fun _ => 0).runFrom limited).2)

def sampleOne : Interner × Process := ((perform (.insert [1] [])).runFrom sample).2

/-- The same with three strings. The next one is too many for four buckets. -/
def sampleThree : Interner × Process :=
  ((perform (.insert [3] [])).runFrom ((perform (.insert [2] [])).runFrom sampleOne).2).2

/-- Bytes for which the first chunk is too small. The limit has no room for another one. -/
def longString : List UInt8 := List.replicate 8200 0

theorem sample_reachable : (∃ known, Reachable sampleOne known) ∧ ∃ known, Reachable sampleThree known := by
  have created : (create ⟨0⟩ 4 ⟨8, 8⟩ fun _ => 0).runFrom limited = (.ok sample.1, sample.2) := rfl
  have made : Reachable sample [] :=
    .made (Manager.sound_create Allocator.ascending_lawful _) rfl created
  have one := Reachable.asked (.insert [1] []) made (by simp [Request.symbol?]) (by decide +kernel)
  have two := Reachable.asked (.insert [2] []) one (by simp [Request.symbol?]) (by decide +kernel)
  have three := Reachable.asked (.insert [3] []) two (by simp [Request.symbol?]) (by decide +kernel)
  exact ⟨⟨_, one⟩, _, three⟩

theorem failed_insert_unchanged_sampleOne :
    ((insert longString []).runFrom sampleOne).1 = .error (.error (.outOfMemory 8231)) ∧
      ((insert longString []).runFrom sampleOne).2.1 = sampleOne.1 := by
  have failed : ((insert longString []).runFrom sampleOne).1 =
      .error (.error (.outOfMemory 8231)) := by decide +kernel
  obtain ⟨known, reachable⟩ := sample_reachable.1
  have roomy : ¬ sampleOne.1.Crowded := by decide +kernel
  have last : sampleOne.1.region.chunks.length ≤ sampleOne.1.region.current + 1 := by
    decide +kernel
  generalize sampleOne = state at *
  rcases state with ⟨interner, process⟩
  have spared := (failed_insert_unchanged_iff reachable (Prod.fst_eq_iff.mp failed)).2.1.mpr
    ⟨fun grows => roomy grows.1, .inr (.inr last)⟩
  exact ⟨failed, spared⟩

/-- The fourth string is turned down when the buckets have been doubled. They stay so. -/
theorem failed_insert_keeps_growth :
    let before := sampleThree
    let ran := (insert longString []).runFrom before
    (∃ known, Reachable before known) ∧ ran.1 = .error (.error (.outOfMemory 8231)) ∧
      (before.1.capacity = 4 ∧ ran.2.1.capacity = 8) ∧ ran.2.1 ≠ before.1 ∧
      (before.1.manager.ledgerIn before.2).counters.liveBytes = 8256 ∧
      (before.1.manager.ledgerIn ran.2.2).counters.liveBytes = 8320 := by
  have capacities : sampleThree.1.capacity = 4 ∧
      ((insert longString []).runFrom sampleThree).2.1.capacity = 8 := by decide +kernel
  refine ⟨sample_reachable.2, by decide +kernel, capacities, ?_, by decide +kernel,
    by decide +kernel⟩
  intro same
  rw [same] at capacities
  omega

end Interner

end SymbolStore
