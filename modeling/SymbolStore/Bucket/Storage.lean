import SymbolStore.Bucket.Search
import SymbolStore.Memory.Manager

/-! Bucket arrays and the blocks that hold them. -/

namespace SymbolStore

structure BucketArray (α : Type) where
  block : Nat
  buckets : Array (Bucket α)
  deriving DecidableEq, Repr

namespace BucketArray

variable {α : Type}

/-- What one bucket takes up: a mark and an address. -/
def bucketLayout : Layout := { size := 16, align := 8 }

def capacity (array : BucketArray α) : Nat := array.buckets.size

theorem capacity_of_replicate {array : BucketArray α} {capacity : Nat}
    (empty : array.buckets = Array.replicate capacity .empty) : array.capacity = capacity := by
  rw [BucketArray.capacity, empty, Array.size_replicate]

def create (manager : Manager) (capacity : Nat) : Action Process (BucketArray α) := do
  let block ← manager.allocateArray bucketLayout capacity
  return { block, buckets := Array.replicate capacity .empty }

def put (array : BucketArray α) (index : Nat) (bucket : Bucket α) : BucketArray α :=
  { array with buckets := array.buckets.setIfInBounds index bucket }

def clear (array : BucketArray α) : BucketArray α :=
  { array with buckets := Array.replicate array.capacity .empty }

/-- Moves the entries into a bucket array of another capacity. The old block is still there. -/
def rehashed (array : BucketArray α) (manager : Manager) (table : Rehash) (hashOf : α → UInt64)
    (capacity : Nat) : Action Process (BucketArray α) := do
  let block ← manager.allocateArray bucketLayout capacity
  return { block, buckets := ← rehash table hashOf array.buckets capacity }

end BucketArray

end SymbolStore
