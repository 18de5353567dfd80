import SymbolStore.Word

/-! Sizes and alignments of values and blocks, and the frame of a block around its payload. -/

namespace SymbolStore

structure Layout where
  size : Nat
  align : Nat
  deriving DecidableEq, Repr

def blockAlign : Nat := 16

/-- The bytes in front of the payload that hold its size and its alignment. -/
def headerSize : Nat := 16

/-- The distance from the base of a block to its payload. -/
def headerOffset (align : Nat) : Nat := max align blockAlign

namespace Layout

def whole (payload : Layout) : Layout :=
  { size := payload.size + headerOffset payload.align, align := headerOffset payload.align }

/-- The same, if it is a word and, rounded up to its alignment, no larger than an object can be. -/
def framed (payload : Layout) : Except MemoryError Layout :=
  let offset := headerOffset payload.align
  match Word.add? payload.size offset with
  | some total =>
    if total + (offset - 1) ≤ maxObjectSize then .ok { size := total, align := offset }
    else .error (.outOfMemory payload.size)
  | none => .error (.outOfMemory payload.size)

def arrayBytes (element : Layout) (count : Nat) : Except MemoryError Nat :=
  match Word.multiply? element.size count with
  | some bytes => .ok bytes
  | none => .error (.outOfMemory maxWord)

/-- The layout of values of the given layouts one after the other. -/
def record (fields : List Layout) : Layout :=
  let align := fields.foldl (fun align field => max align field.align) 1
  let size := fields.foldl (fun size field => alignUp size field.align + field.size) 0
  { size := alignUp size align, align }

/-- The bytes of a value of the layout: cut or filled up with zeros to its size. -/
def fit (layout : Layout) (value : List UInt8) : List UInt8 :=
  (List.range layout.size).map fun i => value.getD i 0

def byte : Layout := { size := 1, align := 1 }

def word : Layout := { size := 8, align := 8 }

end Layout

end SymbolStore
