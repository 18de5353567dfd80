import SymbolStore.Bucket.Storage
import SymbolStore.Digest
import SymbolStore.Interner.Entry
import SymbolStore.Region.Basic

/-!
Interners: tables that keep one copy of every byte string put in, with a value. Equal symbols of an
interner stand for equal strings. The strings lie in a region of the interner; they never move and
go away together.
-/

namespace SymbolStore

structure Interner where
  manager : Manager
  region : Region
  /-- Each entry is the place of an interned string. -/
  table : BucketArray Pointer
  count : Nat := 0
  hasher : List UInt8 → UInt64
  /-- The layout of the values. -/
  value : Layout

structure Symbol where
  interner : Nat
  generation : Nat
  entry : Pointer
  deriving DecidableEq, Repr

/-- Symbols are compared by the address of their entries, whichever block it is in. -/
def Symbol.same (symbol other : Symbol) : Bool :=
  symbol.interner = other.interner ∧ symbol.generation = other.generation ∧
    symbol.entry.address = other.entry.address

def Symbol.feeds (symbol : Symbol) : List Feed :=
  [.ofNat symbol.interner, .ofNat symbol.generation, .ofNat symbol.entry.address]

namespace Interner

def capacity (interner : Interner) : Nat := interner.table.capacity

def symbol (interner : Interner) (entry : Pointer) : Symbol :=
  { interner := interner.region.id, generation := interner.region.generation, entry }

/-- The entry of a symbol, if the interner issued it in the current generation. -/
def resolve? (interner : Interner) (symbol : Symbol) : Option Pointer :=
  if symbol.interner = interner.region.id ∧ symbol.generation = interner.region.generation then
    some symbol.entry
  else none

def findHashed (interner : Interner) (heap : Heap) (content : List UInt8) (hash : UInt64) :
    Except Fault (Option Pointer) := do
  let outcome ← search interner.table.buckets hash (Entry.holds heap interner.value content hash)
  match outcome.finding with
  | .found index => return (interner.table.buckets[index]?).bind Bucket.entry?
  | _ => return none

def find (interner : Interner) (heap : Heap) (content : List UInt8) :
    Except Fault (Option Pointer) :=
  interner.findHashed heap content (interner.hasher content)

def lookup (interner : Interner) (heap : Heap) (content : List UInt8) :
    Except Fault (Option Symbol) := do
  return (← interner.find heap content).map interner.symbol

def get (interner : Interner) (heap : Heap) (content : List UInt8) :
    Except Fault (Option (List UInt8)) := do
  return (← interner.find heap content).map (Entry.value heap interner.value)

def contains (interner : Interner) (heap : Heap) (content : List UInt8) : Except Fault Bool := do
  return (← interner.lookup heap content).isSome

def valueOf (interner : Interner) (heap : Heap) (symbol : Symbol) : Option (List UInt8) :=
  (interner.resolve? symbol).map (Entry.value heap interner.value)

def bytesOf (interner : Interner) (heap : Heap) (symbol : Symbol) : Option (List UInt8) :=
  (interner.resolve? symbol).map (Entry.bytes heap interner.value)

def textOf (interner : Interner) (heap : Heap) (symbol : Symbol) : Option String :=
  (interner.bytesOf heap symbol).bind fun bytes => String.fromUTF8? bytes.toByteArray

def toList (interner : Interner) (heap : Heap) : List (Symbol × List UInt8 × List UInt8) :=
  (Bucket.entries interner.table.buckets).map fun entry =>
    (interner.symbol entry, Entry.bytes heap interner.value entry,
      Entry.value heap interner.value entry)

def describe (interner : Interner) : String :=
  s!"StringTable \x7b len: {interner.count}, capacity: {interner.capacity}, " ++
    s!"generation: {interner.region.generation} \x7d"

def create (manager : Manager) (requested : Nat) (value : Layout)
    (hasher : List UInt8 → UInt64) : Action Process Interner := do
  Action.require (requested ≠ 0) (.invalidArgument "string table capacity must be non-zero")
  let region ← Region.create manager Region.defaultChunkSize
  let buckets : Action Process (BucketArray Pointer) := do
    BucketArray.create manager (← bucketCount requested)
  let table ← buckets.onFailure region.discard
  manager.retain
  return { manager, region, table, hasher, value }

def ofRegion {α : Type} (x : Method Region α) : Method Interner α :=
  Method.ofPart Interner.region (fun region interner => { interner with region }) x

/-- Doubles the buckets. The entries stay where they are. -/
def grow : Method Interner Unit := do
  let interner ← Method.self
  let heap ← Method.heap
  let required ← Word.add interner.capacity 1
  let capacity := grownCapacity interner.capacity required
  let table ← interner.table.rehashed interner.manager .interner (Entry.hash heap) capacity
  Process.log .debug .interner fun _ =>
    s!"string table grew {interner.capacity} -> {capacity} buckets ({interner.count} entries)"
  Method.update fun interner => { interner with table }
  interner.manager.free interner.table.block

/-- An empty bucket for the hash. Where there is none the table grows, at most `fuel` times. -/
def vacancy (hash : UInt64) : Nat → Method Interner Nat
  | 0 => Action.stop (.noFreeBucket .interner)
  | fuel + 1 => do
    match ← firstEmpty (← Method.self).table.buckets hash with
    | some index => return index
    | none =>
      grow
      vacancy hash fuel

/-- A table cannot double its buckets more often than a word has bits. -/
def maxGrowths : Nat := 64

def storeEntry (content : List UInt8) (hash : UInt64) (value : List UInt8) :
    Method Interner Pointer := do
  let interner ← Method.self
  let header := Entry.header interner.value
  match Word.add? header.size content.length with
  | none => Action.fail (.outOfMemory maxWord)
  | some size =>
    let place ← ofRegion (Region.allocate { size, align := header.align })
    let entry := (← Method.self).region.pointer place
    Entry.store interner.value entry content hash (interner.value.fit value)
    return entry

def insertNew (content : List UInt8) (hash : UInt64) (value : List UInt8) :
    Method Interner Symbol := do
  let index ← vacancy hash (maxGrowths + 1)
  let entry ← storeEntry content hash value
  let count ← Word.add (← Method.self).count 1
  Method.update fun interner =>
    { interner with table := interner.table.put index (.occupied entry), count }
  return (← Method.self).symbol entry

/-- Puts the bytes in, unless they are there, and answers their symbol and whether they are new.
Bytes that were there keep their value. -/
def insert (content value : List UInt8) : Method Interner (Symbol × Bool) := do
  let interner ← Method.self
  let hash := interner.hasher content
  match ← interner.findHashed (← Method.heap) content hash with
  | some entry => return (interner.symbol entry, false)
  | none =>
    if overloaded (← Word.add interner.count 1) interner.capacity then grow
    return (← insertNew content hash value, true)

/-- Puts a text in, with the default of the values if it is new. -/
def intern (text : String) (default : List UInt8) : Method Interner Symbol := do
  let (symbol, _) ← insert text.toUTF8.toList default
  return symbol

def setValue (symbol : Symbol) (value : List UInt8) : Method Interner Bool := do
  let interner ← Method.self
  match interner.resolve? symbol with
  | none => return false
  | some entry =>
    Entry.storeValue interner.value entry (interner.value.fit value)
    return true

/-- Takes all entries out and keeps the memory. Earlier symbols are no longer good. -/
def clear : Method Interner Unit := do
  ofRegion Region.reset
  Method.update fun interner => { interner with table := interner.table.clear, count := 0 }
  let interner ← Method.self
  Process.log .trace .interner fun _ =>
    s!"string table cleared ({interner.capacity} buckets kept)"

def discard (interner : Interner) : Action Process Unit := do
  interner.region.discard
  interner.manager.free interner.table.block
  interner.manager.release

end Interner

end SymbolStore
