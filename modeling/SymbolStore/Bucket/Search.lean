import SymbolStore.Bucket.Chain

/-! Searching a bucket array for an entry, or for a place to put one. -/

namespace SymbolStore

inductive Finding
  /-- The bucket of a matching entry. -/
  | found (index : Nat)
  /-- No entry matches, and this bucket is where one would go: the first deleted bucket on the
  way, else the empty one at its end. -/
  | vacant (index : Nat)
  /-- No entry matches and every bucket is occupied. -/
  | exhausted
  deriving DecidableEq, Repr

structure Search (α : Type) where
  finding : Finding
  tested : List α
  deriving DecidableEq, Repr

variable {α : Type}

namespace Search

/-- A search that meets neither a match nor an empty bucket ends at the first deleted one. -/
def atEnd (firstDeleted : Option Nat) : Search α :=
  { finding := (firstDeleted.map .vacant).getD .exhausted, tested := [] }

def along (buckets : Array (Bucket α)) (matching : α → Bool) :
    Nat → Chain → Option Nat → Except Fault (Search α)
  | 0, _, firstDeleted => .ok (atEnd firstDeleted)
  | fuel + 1, chain, firstDeleted => do
    match ← chain.next with
    | none => return atEnd firstDeleted
    | some (index, rest) =>
      match buckets[index]? with
      | none => throw (.indexOutOfBounds buckets.size index)
      | some .empty => return { finding := .vacant (firstDeleted.getD index), tested := [] }
      | some .deleted => along buckets matching fuel rest (firstDeleted.or (some index))
      | some (.occupied entry) =>
        if matching entry then return { finding := .found index, tested := [entry] }
        else
          let search ← along buckets matching fuel rest firstDeleted
          return { search with tested := entry :: search.tested }

end Search

def search (buckets : Array (Bucket α)) (hash : UInt64) (matching : α → Bool) :
    Except Fault (Search α) := do
  Search.along buckets matching buckets.size (← Chain.start hash buckets.size) none

def emptyAlong (buckets : Array (Bucket α)) : Nat → Chain → Except Fault (Option Nat)
  | 0, _ => .ok none
  | fuel + 1, chain => do
    match ← chain.next with
    | none => return none
    | some (index, rest) =>
      match buckets[index]? with
      | none => throw (.indexOutOfBounds buckets.size index)
      | some bucket => if bucket.isEmpty then return some index else emptyAlong buckets fuel rest

def firstEmpty (buckets : Array (Bucket α)) (hash : UInt64) : Except Fault (Option Nat) := do
  emptyAlong buckets buckets.size (← Chain.start hash buckets.size)

/-- Puts an entry known to be new into the first empty bucket on its chain. -/
def enter (table : Rehash) (hashOf : α → UInt64) (buckets : Array (Bucket α)) (entry : α) :
    Except Fault (Array (Bucket α)) := do
  match ← firstEmpty buckets (hashOf entry) with
  | some index => return buckets.setIfInBounds index (.occupied entry)
  | none => throw (.noFreeBucket table)

/-- Enters the occupants of an old bucket array, in bucket order, into `capacity` new buckets. -/
def rehash (table : Rehash) (hashOf : α → UInt64) (old : Array (Bucket α)) (capacity : Nat) :
    Except Fault (Array (Bucket α)) :=
  (Bucket.entries old).foldlM (enter table hashOf) (Array.replicate capacity .empty)

end SymbolStore
