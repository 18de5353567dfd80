import Std.Data.TreeMap
import SymbolStore.Memory.Layout

/-! The blocks in existence, their contents, and the system allocator that finds room for them. -/

namespace SymbolStore

/-- A place inside the block whose payload starts at address `block`. -/
structure Pointer where
  block : Nat
  offset : Nat
  deriving DecidableEq, Repr

namespace Pointer

def address (pointer : Pointer) : Nat := pointer.block + pointer.offset

def plus (pointer : Pointer) (distance : Nat) : Pointer :=
  { pointer with offset := pointer.offset + distance }

end Pointer

/-- A block as the system gives it out. Bytes that were never written read as zero. -/
structure Block where
  /-- What the system was asked for, header included. -/
  layout : Layout
  /-- The manager that handed the block out, once it has. -/
  owner : Option Nat := none
  /-- The bytes from the base of the block on. -/
  bytes : Array UInt8 := #[]
  deriving DecidableEq, Repr

namespace Block

/-- The distance from the base to the payload. -/
def front (block : Block) : Nat := headerOffset block.layout.align

def size (block : Block) : Nat := block.layout.size - block.front

def byte (block : Block) (index : Nat) : UInt8 := block.bytes.getD (block.front + index) 0

def read (block : Block) (offset count : Nat) : List UInt8 :=
  (List.range' offset count).map block.byte

/-- Puts one byte, with zeros up to it where nothing was written yet. -/
def putByte (bytes : Array UInt8) (index : Nat) (value : UInt8) : Array UInt8 :=
  if index < bytes.size then bytes.setIfInBounds index value
  else (bytes ++ Array.replicate (index - bytes.size) 0).push value

def putBytes (bytes : Array UInt8) (index : Nat) : List UInt8 → Array UInt8
  | [] => bytes
  | value :: values => putBytes (putByte bytes index value) (index + 1) values

def write (block : Block) (offset : Nat) (values : List UInt8) : Block :=
  { block with bytes := putBytes block.bytes (block.front + offset) values }

def headerPlace (block : Block) : Nat := block.front - headerSize

/-- The size and the alignment of the payload, as they stand in the header. -/
def header (block : Block) : Layout :=
  let word (place : Nat) : Nat :=
    (Word.ofBytes ((List.range' place 8).map fun i => block.bytes.getD i 0)).toNat
  { size := word block.headerPlace, align := word (block.headerPlace + 8) }

def align (block : Block) : Nat := block.header.align

def withHeader (block : Block) (payload : Layout) : Block :=
  let words := Word.toBytes payload.size.toUInt64 ++ Word.toBytes payload.align.toUInt64
  { block with bytes := putBytes block.bytes block.headerPlace words }

/-- The block with another size, header included. What lies beyond it is gone for good. -/
def stretch (block : Block) (size : Nat) : Block :=
  { block with layout := { block.layout with size }, bytes := block.bytes.take size }

theorem getD_putByte (bytes : Array UInt8) (index : Nat) (value : UInt8) (i : Nat) :
    (putByte bytes index value).getD i 0 = if i = index then value else bytes.getD i 0 := by
  unfold putByte
  split
  · rename_i inside
    by_cases same : i = index
    · subst same
      simp [Array.getD, inside]
    · by_cases small : i < bytes.size
      · simp [Array.getD, small, same, Ne.symm same]
      · simp [Array.getD, small, same]
  · rename_i outside
    simp only [Array.getD_eq_getD_getElem?, Array.getElem?_push, Array.size_append,
      Array.size_replicate, Array.getElem?_append, Array.getElem?_replicate]
    by_cases same : i = index
    · have : i = bytes.size + (index - bytes.size) := by omega
      simp [same, ← this]
    · have apart : ¬ i = bytes.size + (index - bytes.size) := by omega
      simp only [apart, same, if_false]
      by_cases small : i < bytes.size
      · simp [small]
      · have : bytes[i]? = none := by simp; omega
        rw [this]
        simp only [small, if_false]
        split <;> rfl

theorem getD_putBytes (bytes : Array UInt8) (index : Nat) (values : List UInt8) (i : Nat) :
    (putBytes bytes index values).getD i 0 =
      if index ≤ i ∧ i < index + values.length then values.getD (i - index) 0
      else bytes.getD i 0 := by
  induction values generalizing bytes index with
  | nil =>
    have : ¬ (index ≤ i ∧ i < index + ([] : List UInt8).length) := by simp
    rw [if_neg this]
    rfl
  | cons value values ih =>
    simp only [putBytes, ih, getD_putByte, List.length_cons]
    by_cases first : i = index
    · subst first
      rw [if_neg (by omega), if_pos rfl, if_pos (by omega), Nat.sub_self]
      rfl
    · by_cases covered : index + 1 ≤ i ∧ i < index + 1 + values.length
      · have : index ≤ i ∧ i < index + (values.length + 1) := by omega
        obtain ⟨k, rfl⟩ : ∃ k, i = index + 1 + k := ⟨i - (index + 1), by omega⟩
        rw [if_pos covered, if_pos this]
        have tail : index + 1 + k - (index + 1) = k := by omega
        have whole : index + 1 + k - index = k + 1 := by omega
        simp [tail, whole]
      · have : ¬ (index ≤ i ∧ i < index + (values.length + 1)) := by omega
        rw [if_neg covered, if_neg this, if_neg first]

theorem byte_write (block : Block) (offset : Nat) (values : List UInt8) (i : Nat) :
    (block.write offset values).byte i =
      if offset ≤ i ∧ i < offset + values.length then values.getD (i - offset) 0
      else block.byte i := by
  have place : block.front + i - (block.front + offset) = i - offset := by omega
  have covered : (block.front + offset ≤ block.front + i ∧
      block.front + i < block.front + offset + values.length) ↔
        offset ≤ i ∧ i < offset + values.length := by omega
  show (putBytes _ _ _).getD (block.front + i) 0 = _
  rw [getD_putBytes, place]
  simp only [covered]
  rfl

end Block

structure Heap where
  /-- The blocks by the address of their payload. -/
  blocks : Std.TreeMap Nat Block := {}
  /-- An address above every block that there has ever been. -/
  frontier : Nat := 0x10000
  /-- How many blocks were granted, and how often a block was resized. -/
  granted : Nat := 0

namespace Heap

def find? (heap : Heap) (address : Nat) : Option Block := heap.blocks[address]?

def insert (heap : Heap) (address : Nat) (block : Block) : Heap :=
  { blocks := heap.blocks.insert address block
    frontier := max heap.frontier (address + block.size)
    granted := heap.granted + 1 }

def erase (heap : Heap) (address : Nat) : Heap :=
  { heap with blocks := heap.blocks.erase address }

/-- Reads so many bytes from a place on. There are only zeros where there is no block. -/
def read (heap : Heap) (pointer : Pointer) (count : Nat) : List UInt8 :=
  match heap.find? pointer.block with
  | some block => block.read pointer.offset count
  | none => List.replicate count 0

def write (heap : Heap) (pointer : Pointer) (values : List UInt8) : Heap :=
  { heap with blocks := heap.blocks.modify pointer.block (·.write pointer.offset values) }

def covers (heap : Heap) (pointer : Pointer) (count : Nat) : Bool :=
  count = 0 || (heap.find? pointer.block).any fun block => pointer.offset + count ≤ block.size

def writeHeader (heap : Heap) (address : Nat) (payload : Layout) : Heap :=
  { heap with blocks := heap.blocks.modify address (·.withHeader payload) }

def give (heap : Heap) (address owner : Nat) : Heap :=
  { heap with
    blocks := heap.blocks.modify address fun block => { block with owner := some owner } }

def readWord (heap : Heap) (pointer : Pointer) : UInt64 := Word.ofBytes (heap.read pointer 8)

theorem find?_insert (heap : Heap) (address : Nat) (block : Block) (a : Nat) :
    (heap.insert address block).find? a = if address = a then some block else heap.find? a := by
  simp [find?, insert, Std.TreeMap.getElem?_insert]

theorem find?_erase (heap : Heap) (address a : Nat) :
    (heap.erase address).find? a = if address = a then none else heap.find? a := by
  simp [find?, erase, Std.TreeMap.getElem?_erase]

theorem getElem?_modify (blocks : Std.TreeMap Nat Block) (address : Nat) (f : Block → Block)
    (a : Nat) :
    (blocks.modify address f)[a]? = if address = a then (blocks[a]?).map f else blocks[a]? := by
  simp only [Std.TreeMap.getElem?_modify, Nat.compare_eq_eq]
  split
  · rename_i same
    rw [same]
  · rfl

theorem find?_write (heap : Heap) (pointer : Pointer) (values : List UInt8) (a : Nat) :
    (heap.write pointer values).find? a =
      if pointer.block = a then (heap.find? a).map (·.write pointer.offset values)
      else heap.find? a := getElem?_modify _ _ _ _

theorem find?_writeHeader (heap : Heap) (address : Nat) (payload : Layout) (a : Nat) :
    (heap.writeHeader address payload).find? a =
      if address = a then (heap.find? a).map (·.withHeader payload) else heap.find? a :=
  getElem?_modify _ _ _ _

theorem find?_give (heap : Heap) (address owner a : Nat) :
    (heap.give address owner).find? a =
      if address = a then (heap.find? a).map fun block => { block with owner := some owner }
      else heap.find? a := getElem?_modify _ _ _ _

end Heap

/-- The system allocator: the base of a block of a layout, and the base of a block at a base when it
is resized from a layout to another size. It may refuse either. What it answers may depend on the
blocks that there are and on how many requests it has granted. A refusal leaves no trace, so the same
request is refused again until another one is granted or a block is given back. -/
structure Allocator where
  place : Heap → Layout → Option Nat
  move : Heap → (base : Nat) → Layout → (size : Nat) → Option Nat

namespace Allocator

def refusedSize : Nat := 0x4000000000000000

/-- Blocks from this size on start a page, if they ask for no more than the least alignment. -/
def pageThreshold : Nat := 256

def pageSize : Nat := 4096

def nextBase (heap : Heap) (layout : Layout) : Nat :=
  if pageThreshold ≤ layout.size ∧ layout.align ≤ blockAlign then alignUp heap.frontier pageSize
  else alignUp heap.frontier layout.align

def above (heap : Heap) (layout : Layout) : Option Nat :=
  if refusedSize ≤ layout.size then none
  else if nextBase heap layout + layout.size < wordLimit then some (nextBase heap layout)
  else none

/-- Uses every address once: a block that is resized moves, and nothing takes the place of a block
that is gone. -/
def ascending : Allocator :=
  { place := above, move := fun heap _ layout size => above heap { layout with size } }

end Allocator

end SymbolStore
