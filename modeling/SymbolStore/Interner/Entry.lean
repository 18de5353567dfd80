import SymbolStore.Process

/-!
How an interned string lies in memory: its hash, its length and its value, each at its alignment,
and behind this header its bytes.
-/

namespace SymbolStore

namespace Entry

def header (value : Layout) : Layout := Layout.record [Layout.word, Layout.word, value]

def valueOffset (value : Layout) : Nat := alignUp 16 value.align

def hash (heap : Heap) (entry : Pointer) : UInt64 := heap.readWord entry

def length (heap : Heap) (entry : Pointer) : Nat := (heap.readWord (entry.plus 8)).toNat

def value (heap : Heap) (layout : Layout) (entry : Pointer) : List UInt8 :=
  heap.read (entry.plus (valueOffset layout)) layout.size

def bytes (heap : Heap) (layout : Layout) (entry : Pointer) : List UInt8 :=
  heap.read (entry.plus (header layout).size) (length heap entry)

/-- Whether the entry holds these bytes, whose hash is given. -/
def holds (heap : Heap) (layout : Layout) (content : List UInt8) (contentHash : UInt64)
    (entry : Pointer) : Bool :=
  hash heap entry == contentHash && length heap entry == content.length &&
    bytes heap layout entry == content

def storeValue (layout : Layout) (entry : Pointer) (value : List UInt8) : Action Process Unit :=
  Process.store (entry.plus (valueOffset layout)) value

def store (layout : Layout) (entry : Pointer) (content : List UInt8) (contentHash : UInt64)
    (value : List UInt8) : Action Process Unit := do
  Process.store entry (Word.toBytes contentHash)
  Process.store (entry.plus 8) (Word.toBytes content.length.toUInt64)
  storeValue layout entry value
  Process.store (entry.plus (header layout).size) content

end Entry

end SymbolStore
