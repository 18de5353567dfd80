import SymbolStore.Proofs.Bucket.Storage
import SymbolStore.Proofs.Memory.Houses

/-! Bucket arrays and the accounts of their blocks. -/

namespace SymbolStore

open SymbolStore.Action (Ends)

theorem Bucket.length_entries_le {α : Type} (buckets : Array (Bucket α)) :
    (Bucket.entries buckets).length ≤ buckets.size := by
  rw [Bucket.entries, ← Array.length_toList]
  exact List.length_filterMap_le _ _

theorem isMisuse_bucketCount {requested : Nat} {cause : Fault}
    (failed : bucketCount requested = .error cause) :
    (Failure.fault cause).isMisuse = false := by
  simp only [bucketCount] at failed
  split at failed <;> cases failed
  rfl

namespace BucketArray

variable {α : Type} {manager : Manager} {process : Process} {account : Account}
  {extents : Multiset Extent} {array : BucketArray α}

def extent (manager : Manager) (array : BucketArray α) : Extent :=
  { manager, address := array.block, size := bucketLayout.size * array.capacity }

theorem capacity_put (array : BucketArray α) (index : Nat) (bucket : Bucket α) :
    (array.put index bucket).capacity = array.capacity := Array.size_setIfInBounds

theorem capacity_clear (array : BucketArray α) : array.clear.capacity = array.capacity :=
  Array.size_replicate

theorem extent_put (manager : Manager) (array : BucketArray α) (index : Nat) (bucket : Bucket α) :
    (array.put index bucket).extent manager = array.extent manager := by
  rw [extent, capacity_put]
  rfl

theorem extent_clear (manager : Manager) (array : BucketArray α) :
    array.clear.extent manager = array.extent manager := by
  rw [extent, capacity_clear]
  rfl

/-- An array lies in the address space, so its capacity is far below the greatest word. -/
theorem capacity_lt_of_houses (houses : process.Houses (array.extent manager ::ₘ extents) account) :
    16 * array.capacity < wordLimit := by
  have small := houses.bytes_lt
  rw [Multiset.map_cons, Multiset.sum_cons] at small
  change 16 * array.capacity + _ < wordLimit at small
  omega

theorem create_houses (capacity : Nat) (houses : process.Houses extents account)
    (holder : manager ∈ account.holders) :
    Ends (create manager capacity : Action Process (BucketArray α)) process
      (fun table after => table.buckets = Array.replicate capacity .empty ∧
        after.Houses (table.extent manager ::ₘ extents) account)
      (Process.Spares extents account) := by
  apply (houses.allocateArray holder bucketLayout capacity).bind (fun _ _ spares => spares)
  intro block after granted
  refine ⟨rfl, ?_⟩
  rw [extent, capacity_of_replicate rfl]
  exact granted

theorem rehashed_houses (array : BucketArray α) (table : Rehash) (hashOf : α → UInt64)
    {capacity : Nat} (size : TableSize capacity) (enough : array.capacity ≤ capacity)
    (houses : process.Houses extents account) (holder : manager ∈ account.holders) :
    Ends (array.rehashed manager table hashOf capacity) process
      (fun fresh after => fresh.Replaces array hashOf capacity ∧
        after.Houses (fresh.extent manager ::ₘ extents) account)
      (Process.Spares extents account) := by
  rcases rehash_placed table hashOf array.buckets size
      (Nat.le_trans (Bucket.length_entries_le _) enough) with
    ⟨buckets, rehashed, sized, placed, undeleted, entries⟩
  apply (houses.allocateArray holder bucketLayout capacity).bind (fun _ _ spares => spares)
  intro block after granted
  rw [Action.ends_bind, Action.ends_liftFault, rehashed]
  rw [← sized] at granted
  exact ⟨⟨sized, placed, undeleted, entries⟩, granted⟩

end BucketArray

end SymbolStore
