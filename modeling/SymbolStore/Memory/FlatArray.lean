import SymbolStore.Memory.Manager

/-! Arrays of elements of one layout, each in a block of its own. -/

namespace SymbolStore

structure FlatArray where
  manager : Manager
  block : Nat
  element : Layout
  length : Nat
  deriving DecidableEq, Repr

namespace FlatArray

def place (array : FlatArray) (index : Nat) : Pointer :=
  { block := array.block, offset := index * array.element.size }

def toList (array : FlatArray) (heap : Heap) : List (List UInt8) :=
  (List.range array.length).map fun i => heap.read (array.place i) array.element.size

def fillFrom (array : FlatArray) (index count : Nat) (value : List UInt8) : Action Process Unit :=
  Process.store (array.place index) (List.replicate count (array.element.fit value)).flatten

def create (manager : Manager) (element : Layout) (length : Nat) (value : List UInt8) :
    Action Process FlatArray := do
  let block ← manager.allocateArray element length
  let array : FlatArray := { manager, block, element, length }
  array.fillFrom 0 length value
  manager.retain
  return array

/-- Changes the length. Elements at the end are lost, or new ones set to `value`. -/
def resize (length : Nat) (value : List UInt8) : Method FlatArray Unit := do
  let array ← Method.self
  let block ← array.manager.reallocateArray array.block array.element array.length length
  let resized : FlatArray := { array with block, length }
  resized.fillFrom array.length (length - array.length) value
  Method.update fun _ => resized

def fill (value : List UInt8) : Method FlatArray Unit := do
  let array ← Method.self
  array.fillFrom 0 array.length value

def get (index : Nat) : Method FlatArray (List UInt8) := do
  let array ← Method.self
  if index < array.length then
    return (← Method.heap).read (array.place index) array.element.size
  else Action.stop (.indexOutOfBounds array.length index)

def set (index : Nat) (value : List UInt8) : Method FlatArray Unit := do
  let array ← Method.self
  if index < array.length then array.fillFrom index 1 value
  else Action.stop (.indexOutOfBounds array.length index)

def discard (array : FlatArray) : Action Process Unit := do
  array.manager.free array.block
  array.manager.release

end FlatArray

end SymbolStore
