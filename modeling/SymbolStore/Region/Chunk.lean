import SymbolStore.Memory.Manager

/-! Chunks: blocks from which ranges are handed out front to back. -/

namespace SymbolStore

structure Chunk where
  block : Nat
  /-- How many bytes from the start are in use. -/
  used : Nat
  capacity : Nat
  deriving DecidableEq, Repr

namespace Chunk

/-- Where in the chunk a range would start at an aligned address behind the bytes in use, if it
fits. -/
def room? (chunk : Chunk) (range : Layout) : Except Fault (Option Nat) := do
  let current ← Word.add chunk.block chunk.used
  match Word.add? current (range.align - 1) with
  | none => return none
  | some padded =>
    let start ← Word.subtract (alignDown padded range.align) chunk.block
    match Word.add? start range.size with
    | none => return none
    | some stop => return if stop > chunk.capacity then none else some start

def total (measure : Chunk → Nat) (chunks : List Chunk) : Nat :=
  (chunks.map measure).foldr (· + ·) 0

def remaining (chunk : Chunk) : Nat := chunk.capacity - chunk.used

def create (manager : Manager) (capacity : Nat) : Action Process Chunk := do
  let block ← manager.allocate { size := capacity, align := blockAlign }
  Process.log .debug .region fun _ =>
    s!"region chunk of {capacity} bytes at 0x{String.ofList (Nat.toDigits 16 block)}"
  return { block, used := 0, capacity }

/-- The byte that overwrites memory which is up for reuse. -/
def poison : UInt8 := 0xDD

/-- Overwrites the bytes in use, as a debug build does. -/
def erase (chunk : Chunk) : Action Process Unit :=
  Process.store { block := chunk.block, offset := 0 } (List.replicate chunk.used poison)

end Chunk

end SymbolStore
