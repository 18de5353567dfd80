import SymbolStore.Config
import SymbolStore.Memory.Heap

/-! What a manager knows of its blocks. -/

namespace SymbolStore

/-- All zero under the raw strategy. -/
structure Counters where
  liveBlocks : Nat := 0
  /-- Bytes of payload in live blocks. -/
  liveBytes : Nat := 0
  /-- The most live bytes that there ever were. -/
  peakBytes : Nat := 0
  /-- Allocations and reallocations that count as a success. -/
  totalAllocations : Nat := 0
  deriving DecidableEq, Repr

namespace Counters

/-- Enters that bytes were released and acquired and that the number of blocks changed. The total
goes up when bytes or a block were acquired. -/
def record (counters : Counters) (released acquired : Nat) (blocks : Int) :
    Except Fault Counters := do
  let kept ← Word.subtract counters.liveBytes released
  let liveBytes ← Word.add kept acquired
  let totalAllocations ←
    if 0 < acquired ∨ 0 < blocks then Word.add counters.totalAllocations 1
    else pure counters.totalAllocations
  return {
    liveBlocks := Word.addWrapping counters.liveBlocks blocks
    liveBytes
    peakBytes := max counters.peakBytes liveBytes
    totalAllocations }

def describe (counters : Counters) : String :=
  s!"MemStats \x7b live_blocks: {counters.liveBlocks}, live_bytes: {counters.liveBytes}, " ++
    s!"peak_bytes: {counters.peakBytes}, total_allocations: {counters.totalAllocations} \x7d"

end Counters

structure Ledger where
  config : Config
  counters : Counters := {}
  /-- The sizes of the live blocks by address, kept under the tracked strategy only. -/
  live : Std.TreeMap Nat Nat := {}
  /-- How many holders the manager has. It ends with the last of them. -/
  holders : Nat := 1

namespace Ledger

/-- Stands for the ledger of a manager that has ended. -/
def closed : Ledger := { config := .raw, holders := 0 }

def isTracked (ledger : Ledger) : Bool := ledger.config.strategy = .tracked

/-- The live bytes and the limit, if the requested bytes would exceed it once the others are
released. -/
def excess? (ledger : Ledger) (releasing requested : Nat) : Except Fault (Option (Nat × Nat)) :=
  match ledger.config.byteLimit with
  | none => .ok none
  | some limit => do
    let live ← Word.subtract ledger.counters.liveBytes releasing
    return if Word.addSaturating live requested > limit then some (live, limit) else none

/-- Counts what was released and acquired. Counters that cannot be counted up stay as they are. -/
def recorded (ledger : Ledger) (released acquired : Nat) (blocks : Int) :
    Ledger × Option Fault :=
  match ledger.counters.record released acquired blocks with
  | .ok counters => ({ ledger with counters }, none)
  | .error fault => (ledger, some fault)

def acquire (ledger : Ledger) (address size : Nat) : Ledger × Option Fault :=
  recorded { ledger with live := ledger.live.insert address size } 0 size 1

def move (ledger : Ledger) (address oldSize newAddress newSize : Nat) : Ledger × Option Fault :=
  let live := (ledger.live.erase address).insert newAddress newSize
  recorded { ledger with live } oldSize newSize 0

def release (ledger : Ledger) (address size : Nat) : Ledger × Option Fault :=
  recorded { ledger with live := ledger.live.erase address } size 0 (-1)

def describe (ledger : Ledger) : String :=
  s!"MemoryManager \x7b config: {ledger.config.describe}, stats: {ledger.counters.describe} \x7d"

end Ledger

end SymbolStore
