import SymbolStore.Bucket.Storage
import SymbolStore.Proofs.Bucket.Placement
import SymbolStore.Proofs.Memory.Manager

/-! Bucket arrays in new blocks, empty or with the entries of an old array, and twice as large. -/

namespace SymbolStore

open SymbolStore.Action (Ends)

/-- An array that can be held in memory has room to double, and stays a power of two. -/
theorem grownCapacity_eq {capacity : Nat} (size : TableSize capacity)
    (least : minBuckets ≤ capacity) (small : 16 * capacity < wordLimit) :
    grownCapacity capacity (capacity + 1) = 2 * capacity ∧ TableSize (2 * capacity) := by
  have limit : 16 * 2 ^ 60 = wordLimit := rfl
  have most : maxWord = 16 * 2 ^ 60 - 1 := rfl
  unfold minBuckets at least
  constructor
  · have doubled : Word.multiplySaturating capacity 2 = 2 * capacity := by
      rw [Word.multiplySaturating, Nat.min_eq_left] <;> omega
    have floor : minGrownCapacity = 8 := rfl
    rw [grownCapacity, doubled, floor]
    omega
  · rcases size with ⟨k, -, rfl⟩
    have below : 2 ^ k < 2 ^ 60 := by omega
    have exponent := (Nat.pow_lt_pow_iff_right (by decide)).mp below
    exact ⟨k + 1, by omega, (Nat.pow_succ' ..).symm⟩

theorem overloaded_iff {used capacity : Nat} (small : 16 * capacity < wordLimit) :
    overloaded used capacity = true ↔ 3 * capacity < 4 * used := by
  have most : wordLimit = maxWord + 1 := rfl
  have positive : 0 < maxWord := by decide
  rw [overloaded, decide_eq_true_iff, Word.multiplySaturating, Word.multiplySaturating,
    Nat.min_eq_left (by omega : capacity * 3 ≤ maxWord)]
  omega

theorem load_of_not_overloaded {used capacity : Nat} (small : 16 * capacity < wordLimit)
    (light : ¬ overloaded used capacity = true) : 4 * used ≤ 3 * capacity :=
  Nat.not_lt.mp (light ∘ (overloaded_iff small).mpr)

theorem tableSize_bucketCount {requested count : Nat}
    (counted : bucketCount requested = .ok count) : TableSize count ∧ minBuckets ≤ count := by
  simp only [bucketCount] at counted
  split at counted
  · rename_i small
    cases counted
    have enough := le_nextPowerOfTwo (max requested minBuckets)
    exact ⟨(tableSize_iff _).mpr ⟨isPowerOfTwo_nextPowerOfTwo _, small⟩,
      Nat.le_trans (Nat.le_max_right _ _) enough⟩
  · cases counted

namespace BucketArray

variable {α : Type} {manager : Manager} {process : Process}

def layout (capacity : Nat) : Layout :=
  { size := bucketLayout.size * capacity, align := bucketLayout.align }

theorem capacity_lt {block capacity : Nat} (sound : process.Sound)
    (holds : manager.Holds process block (bucketLayout.size * capacity)) :
    16 * capacity < wordLimit := by
  have fits := holds.fits sound
  have size : bucketLayout.size = 16 := rfl
  rw [size] at fits
  omega

theorem create_ends (capacity : Nat) (sound : process.Sound) :
    Ends (create manager capacity : Action Process (BucketArray α)) process
      (fun table after => manager.Grants process after (layout capacity) table.block ∧
        table.buckets = Array.replicate capacity .empty)
      fun failure after => process.Evolves after [] ∧ manager.Denies after failure := by
  refine (Manager.allocateArray_ends bucketLayout capacity sound rfl).bind
    (fun _ _ denied => denied) ?_
  intro block after granted
  exact ⟨granted, rfl⟩

/-- An array that replaces an old one holds the same entries, each within reach, and no deleted
bucket. -/
structure Replaces (array old : BucketArray α) (hashOf : α → UInt64) (capacity : Nat) : Prop where
  capacity : array.capacity = capacity
  placed : Placed hashOf array.buckets
  undeleted : Bucket.deletedCount array.buckets = 0
  entries : (Bucket.entries array.buckets).Perm (Bucket.entries old.buckets)

theorem rehashed_ends (array : BucketArray α) (table : Rehash) (hashOf : α → UInt64)
    {capacity : Nat} (sound : process.Sound) (size : TableSize capacity)
    (room : (Bucket.entries array.buckets).length ≤ capacity) :
    Ends (array.rehashed manager table hashOf capacity) process
      (fun fresh after => manager.Grants process after (layout capacity) fresh.block ∧
        fresh.Replaces array hashOf capacity)
      fun failure after => process.Evolves after [] ∧ manager.Denies after failure := by
  rcases rehash_placed table hashOf array.buckets size room with
    ⟨buckets, rehashed, sized, placed, undeleted, entries⟩
  refine (Manager.allocateArray_ends bucketLayout capacity sound rfl).bind
    (fun _ _ denied => denied) ?_
  intro block after granted
  rw [Action.ends_bind, Action.ends_liftFault, rehashed]
  exact ⟨granted, sized, placed, undeleted, entries⟩

end BucketArray

end SymbolStore
