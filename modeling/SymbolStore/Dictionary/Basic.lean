import SymbolStore.Bucket.Storage

/-!
Dictionaries: open-addressed tables whose keys are hashed and compared by a rule that comes with
the table. Each entry has a block of its own, so that entries can go one by one. A removal leaves a
deleted bucket behind; those go when the buckets are rebuilt.
-/

namespace SymbolStore

/-- How keys are hashed and compared. Keys that are the same have to have the same hash. -/
structure KeyRule (K : Type) where
  hash : K → UInt64
  /-- Whether a stored key is the one asked for. -/
  same : (stored asked : K) → Bool

structure Node (K V : Type) where
  block : Nat
  hash : UInt64
  key : K
  value : V
  deriving DecidableEq, Repr

structure Dictionary (K V : Type) where
  manager : Manager
  table : BucketArray (Node K V)
  count : Nat := 0
  /-- How many buckets are deleted. -/
  deleted : Nat := 0
  rule : KeyRule K
  /-- The layout of a node. -/
  node : Layout

namespace Dictionary

variable {K V : Type}

def capacity (dictionary : Dictionary K V) : Nat := dictionary.table.capacity

/-- Looks for a key. Nodes with another hash are passed over without comparing keys. -/
def searchFor (dictionary : Dictionary K V) (key : K) : Except Fault (Search (Node K V)) :=
  let hash := dictionary.rule.hash key
  search dictionary.table.buckets hash fun node =>
    node.hash == hash && dictionary.rule.same node.key key

def find (dictionary : Dictionary K V) (key : K) : Except Fault (Option (Nat × Node K V)) := do
  match (← dictionary.searchFor key).finding with
  | .found index =>
    return ((dictionary.table.buckets[index]?).bind Bucket.entry?).map fun node => (index, node)
  | _ => return none

def get (dictionary : Dictionary K V) (key : K) : Except Fault (Option V) := do
  return (← dictionary.find key).map fun (_, node) => node.value

def contains (dictionary : Dictionary K V) (key : K) : Except Fault Bool := do
  return (← dictionary.find key).isSome

def comparisons (dictionary : Dictionary K V) (key : K) : Except Fault Nat := do
  let hash := dictionary.rule.hash key
  return (← dictionary.searchFor key).tested.countP fun node => node.hash == hash

def toList (dictionary : Dictionary K V) : List (K × V) :=
  (Bucket.entries dictionary.table.buckets).map fun node => (node.key, node.value)

def keys (dictionary : Dictionary K V) : List K := dictionary.toList.map Prod.fst

def values (dictionary : Dictionary K V) : List V := dictionary.toList.map Prod.snd

def describe (dictionary : Dictionary K V) : String :=
  s!"AssocArray \x7b len: {dictionary.count}, tombstones: {dictionary.deleted}, " ++
    s!"capacity: {dictionary.capacity} \x7d"

def create (manager : Manager) (requested : Nat) (rule : KeyRule K) (node : Layout) :
    Action Process (Dictionary K V) := do
  Action.require (requested ≠ 0) (.invalidArgument "assoc array capacity must be non-zero")
  let table ← BucketArray.create manager (← bucketCount requested)
  manager.retain
  return { manager, table, rule, node }

/-- How many buckets a rebuilt array has: twice as many if the entries and one more would take more
than half of the old ones, else as many as before. -/
def rebuiltCapacity (dictionary : Dictionary K V) : Except Fault Nat := do
  let wanted ← Word.multiply (← Word.add dictionary.count 1) 2
  if wanted > dictionary.capacity then
    return grownCapacity dictionary.capacity (← Word.add dictionary.capacity 1)
  else return dictionary.capacity

/-- Moves the entries into fresh buckets, without the deleted ones. -/
def rebuild : Method (Dictionary K V) Unit := do
  let dictionary ← Method.self
  let capacity ← dictionary.rebuiltCapacity
  let table ← dictionary.table.rehashed dictionary.manager .dictionary Node.hash capacity
  Process.log .debug .dictionary fun _ =>
    s!"assoc array rebuilt {dictionary.capacity} -> {capacity} buckets " ++
      s!"({dictionary.count} live, {dictionary.deleted} tombstones dropped)"
  Method.update fun dictionary => { dictionary with table, deleted := 0 }
  dictionary.manager.free dictionary.table.block

def storeAt (index : Nat) (hash : UInt64) (key : K) (value : V) :
    Method (Dictionary K V) Unit := do
  let dictionary ← Method.self
  let block ← dictionary.manager.allocateArray dictionary.node 1
  let reused := ((dictionary.table.buckets[index]?).map Bucket.isDeleted).getD false
  let deleted ← if reused then Word.subtract dictionary.deleted 1 else pure dictionary.deleted
  let count ← Word.add dictionary.count 1
  Method.update fun dictionary => { dictionary with
    table := dictionary.table.put index (.occupied { block, hash, key, value })
    count
    deleted }

/-- Replaces the value in an occupied bucket and answers the old one. The key stays. -/
def replaceAt (index : Nat) (value : V) : Method (Dictionary K V) V := do
  let dictionary ← Method.self
  match (dictionary.table.buckets[index]?).bind Bucket.entry? with
  | some node =>
    Method.update fun dictionary =>
      { dictionary with table := dictionary.table.put index (.occupied { node with value }) }
    return node.value
  | none => Action.stop .foundVacantBucket

def storeRebuilt (hash : UInt64) (key : K) (value : V) : Method (Dictionary K V) Unit := do
  rebuild
  match ← firstEmpty (← Method.self).table.buckets hash with
  | some index => storeAt index hash key value
  | none => Action.stop (.noFreeBucket .dictionary)

/-- Sets the value of a key and answers the one that it had. -/
def set (key : K) (value : V) : Method (Dictionary K V) (Option V) := do
  let dictionary ← Method.self
  let hash := dictionary.rule.hash key
  match (← dictionary.searchFor key).finding with
  | .found index => return some (← replaceAt index value)
  | .vacant index =>
    let used ← Word.add (← Word.add dictionary.count dictionary.deleted) 1
    if overloaded used dictionary.capacity then storeRebuilt hash key value
    else storeAt index hash key value
    return none
  | .exhausted =>
    storeRebuilt hash key value
    return none

def modify (key : K) (f : V → V) : Method (Dictionary K V) (Option V) := do
  match ← (← Method.self).find key with
  | some (index, node) =>
    let _ ← replaceAt index (f node.value)
    return some (f node.value)
  | none => return none

/-- Takes a key out and answers its value. With the last entry all deleted buckets go. -/
def remove (key : K) : Method (Dictionary K V) (Option V) := do
  let dictionary ← Method.self
  match ← dictionary.find key with
  | none => return none
  | some (index, node) =>
    let value := node.value
    let count ← Word.subtract dictionary.count 1
    let deleted ← Word.add dictionary.deleted 1
    if count = 0 then
      Method.update fun dictionary =>
        { dictionary with table := dictionary.table.clear, count, deleted := 0 }
    else
      Method.update fun dictionary =>
        { dictionary with table := dictionary.table.put index .deleted, count, deleted }
    dictionary.manager.free node.block
    return some value

def delete (key : K) : Method (Dictionary K V) Bool := Option.isSome <$> remove key

def blocks (dictionary : Dictionary K V) : List Nat :=
  (Bucket.entries dictionary.table.buckets).map Node.block

def clear : Method (Dictionary K V) Unit := do
  let dictionary ← Method.self
  Method.ofProcess (dictionary.blocks.forM dictionary.manager.free)
  Method.update fun dictionary =>
    { dictionary with table := dictionary.table.clear, count := 0, deleted := 0 }

def discard (dictionary : Dictionary K V) : Action Process Unit := do
  dictionary.blocks.forM dictionary.manager.free
  dictionary.manager.free dictionary.table.block
  dictionary.manager.release

end Dictionary

end SymbolStore
