import SymbolStore.Word

/-! Buckets of an open-addressed table, how many a table has, and when it has too few. -/

namespace SymbolStore

inductive Bucket (α : Type)
  | empty
  | occupied (entry : α)
  /-- Left behind by a removal, so that searches go on past it. -/
  | deleted
  deriving DecidableEq, Repr

namespace Bucket

variable {α : Type}

@[simp] def entry? : Bucket α → Option α
  | occupied entry => some entry
  | _ => none

@[simp] def isEmpty : Bucket α → Bool
  | empty => true
  | _ => false

@[simp] def isDeleted : Bucket α → Bool
  | deleted => true
  | _ => false

def entries (buckets : Array (Bucket α)) : List α := buckets.toList.filterMap entry?

end Bucket

def minBuckets : Nat := 4

/-- The bucket count for a requested capacity: the least power of two that suffices. -/
def bucketCount (requested : Nat) : Except Fault Nat :=
  let count := nextPowerOfTwo (max requested minBuckets)
  if count < wordLimit then .ok count else .error (.overflow .add)

/-- Whether the used buckets, live and deleted, are more than three quarters of all. -/
def overloaded (used capacity : Nat) : Bool :=
  Word.multiplySaturating used 4 > Word.multiplySaturating capacity 3

def minGrownCapacity : Nat := 8

/-- The next capacity of a growing array: twice the current one, if that suffices. -/
def grownCapacity (current required : Nat) : Nat :=
  max (max (Word.multiplySaturating current 2) minGrownCapacity) required

end SymbolStore
