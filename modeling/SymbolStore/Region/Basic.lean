import SymbolStore.Region.Chunk

/-!
Regions: memory for data that goes away together. Ranges are never given back one by one. A reset
takes back all of them at once and starts a new generation; handles of an earlier generation are
then turned down.
-/

namespace SymbolStore

structure Region where
  id : Nat
  manager : Manager
  /-- In the order in which they were obtained. -/
  chunks : List Chunk := []
  /-- The index of the chunk from which ranges are handed out. -/
  current : Nat := 0
  /-- The least capacity of a new chunk. -/
  chunkSize : Nat
  generation : Nat := 0
  /-- Bytes handed out since the last reset, without those lost to alignment. -/
  totalAllocated : Nat := 0
  deriving DecidableEq, Repr

namespace Region

def minChunkSize : Nat := 256

def defaultChunkSize : Nat := 8192

/-- Handles have room for chunk indices below this bound. -/
def indexLimit : Nat := 0x100000000

/-- A claim to bytes that a region stores. -/
structure Handle where
  region : Nat
  generation : Nat
  /-- The index of the chunk, as a number of 32 bits. -/
  chunk : Nat
  offset : Nat
  length : Nat
  deriving DecidableEq, Repr

structure Range where
  chunk : Nat
  offset : Nat
  deriving DecidableEq, Repr

structure Usage where
  totalAllocated : Nat
  chunkCount : Nat
  totalCapacity : Nat
  deriving DecidableEq, Repr

def Usage.describe (usage : Usage) : String :=
  s!"ArenaStats \x7b total_allocated: {usage.totalAllocated}, " ++
    s!"chunk_count: {usage.chunkCount}, total_capacity: {usage.totalCapacity} \x7d"

def usage (region : Region) : Usage :=
  { totalAllocated := region.totalAllocated
    chunkCount := region.chunks.length
    totalCapacity := Chunk.total Chunk.capacity region.chunks }

def remaining (region : Region) : Nat :=
  ((region.chunks[region.current]?).map Chunk.remaining).getD 0

def pointer (region : Region) (range : Range) : Pointer :=
  { block := ((region.chunks[range.chunk]?).map Chunk.block).getD 0, offset := range.offset }

def create (manager : Manager) (chunkSize : Nat) : Action Process Region := do
  Action.require (chunkSize ≠ 0) (.invalidArgument "region chunk size must be non-zero")
  manager.retain
  let process ← get
  set { process with nextRegion := process.nextRegion + 1 }
  return { id := process.nextRegion, manager, chunkSize := max chunkSize minChunkSize }

/-- Goes along the chunks from index `i` on and stops at the first with room, or at the last. -/
def seek (range : Layout) : List Chunk → Nat → Except Fault (Nat × Option Nat)
  | [], i => .ok (i, none)
  | chunk :: chunks, i => do
    match ← chunk.room? range with
    | some start => return (i, some start)
    | none => if chunks.isEmpty then return (i, none) else seek range chunks (i + 1)

def take (region : Region) (size chunk offset : Nat) : Except Fault Region := do
  let totalAllocated ← Word.add region.totalAllocated size
  return { region with
    chunks := region.chunks.modify chunk fun c => { c with used := offset + size }
    totalAllocated }

/-- Obtains another chunk, large enough for the range wherever it starts, and hands the range out
from it. -/
def grow (range : Layout) : Method Region Range := do
  let region ← Method.self
  match Word.add? range.size (range.align - 1) with
  | none => Action.fail (.outOfMemory range.size)
  | some needed =>
    let chunk ← Chunk.create region.manager (max region.chunkSize needed)
    match ← chunk.room? range with
    | none =>
      region.manager.free chunk.block
      Action.fail (.outOfMemory range.size)
    | some offset =>
      let current := region.chunks.length
      let extended := { region with chunks := region.chunks ++ [chunk], current }
      let taken ← extended.take range.size current offset
      Method.update fun _ => taken
      return { chunk := current, offset }

/-- Hands out a range. Chunks without room for it are left behind until the next reset. -/
def allocate (range : Layout) : Method Region Range := do
  Action.require (isPowerOfTwo range.align) (.invalidAlignment range.align)
  let region ← Method.self
  let (current, room) ← seek range (region.chunks.drop region.current) region.current
  Method.update fun region => { region with current }
  match room with
  | some offset =>
    let taken ← { region with current : Region }.take range.size current offset
    Method.update fun _ => taken
    return { chunk := current, offset }
  | none => grow range

/-- Hands out a range and sets each of its bytes to what `content` says for its index. -/
def store (range : Layout) (content : Nat → UInt8) : Method Region Pointer := do
  let place ← allocate range
  let region ← Method.self
  let pointer := region.pointer place
  Process.store pointer ((List.range range.size).map content)
  return pointer

def storeBytes (bytes : List UInt8) : Method Region Handle := do
  let place ← allocate { size := bytes.length, align := 1 }
  let region ← Method.self
  Process.store (region.pointer place) bytes
  return {
    region := region.id
    generation := region.generation
    chunk := place.chunk % indexLimit
    offset := place.offset
    length := bytes.length }

def resolve (region : Region) (heap : Heap) (handle : Handle) : Except Failure (List UInt8) := do
  unless handle.region = region.id do
    throw (.error (.invalidArgument "region handle does not belong to this region"))
  unless handle.generation = region.generation do
    throw (.error (.staleHandle handle.generation region.generation))
  match region.chunks[handle.chunk]? with
  | none => throw (.fault (.indexOutOfBounds region.chunks.length handle.chunk))
  | some chunk =>
    let stop ← (Word.add handle.offset handle.length).mapError .fault
    unless stop ≤ chunk.used do throw (.fault .handleBeyondChunk)
    return heap.read { block := chunk.block, offset := handle.offset } handle.length

/-- Takes back every range and keeps the chunks. Every chunk is overwritten and rewound before the
generation is counted up. -/
def reset : Method Region Unit := do
  let region ← Method.self
  Method.ofProcess (region.chunks.forM Chunk.erase)
  let rewound := { region with
    chunks := region.chunks.map fun chunk => { chunk with used := 0 }
    current := 0
    totalAllocated := 0 }
  Method.update fun _ => rewound
  Action.ensure (region.generation + 1 < wordLimit) .generationsExhausted
  let generation := region.generation + 1
  Method.update fun _ => { rewound with generation }
  Process.log .trace .region fun _ =>
    s!"region reset to generation {generation} keeping {region.chunks.length} chunks"

def discard (region : Region) : Action Process Unit := do
  region.chunks.forM fun chunk => region.manager.free chunk.block
  region.manager.release

end Region

end SymbolStore
