import SymbolStore.Interner.Entry
import SymbolStore.Proofs.Memory.Access
import SymbolStore.Proofs.Outcome
import SymbolStore.Proofs.PowerOfTwo

/-!
Entries in memory. What is written for an entry reads back, and stays as long as no one writes into
the range of the entry.
-/

namespace SymbolStore

theorem Word.eq_of_add? {a b sum : Nat} (counted : Word.add? a b = some sum) : sum = a + b := by
  rw [Word.add?] at counted
  split at counted
  · exact (Option.some.inj counted).symm
  · cases counted

theorem Pointer.Apart.part {pointer other : Pointer} {count length distance size : Nat}
    (apart : other.Apart length pointer count) (inside : distance + size ≤ count) :
    other.Apart length (pointer.plus distance) size := by
  intro same
  have far := apart same
  simp only [Pointer.plus]
  omega

namespace Entry

variable {layout : Layout} {heap before after : Heap} {entry other : Pointer}

theorem header_eq (layout : Layout) :
    header layout =
      { size := alignUp (valueOffset layout + layout.size) (max 8 layout.align)
        align := max 8 layout.align } := rfl

theorem valueOffset_ge (positive : 0 < layout.align) : 16 ≤ valueOffset layout :=
  le_alignUp 16 positive

theorem value_inside (layout : Layout) :
    valueOffset layout + layout.size ≤ (header layout).size := by
  rw [header_eq]
  exact le_alignUp _ (Nat.lt_of_lt_of_le (by decide) (Nat.le_max_left 8 layout.align))

theorem isPowerOfTwo_header (power : isPowerOfTwo layout.align = true) :
    isPowerOfTwo (header layout).align = true := by
  rw [header_eq]
  rcases Nat.le_total 8 layout.align with large | small
  · rwa [Nat.max_eq_right large]
  · rw [Nat.max_eq_left small]
    exact isPowerOfTwo_pow 3

def span (heap : Heap) (layout : Layout) (entry : Pointer) : Nat :=
  (header layout).size + length heap entry

@[simp] theorem length_bytes (heap : Heap) (layout : Layout) (entry : Pointer) :
    (bytes heap layout entry).length = length heap entry := by
  rw [bytes, Heap.read]
  split
  · simp [Block.read]
  · simp

def writeValue (heap : Heap) (layout : Layout) (entry : Pointer) (value : List UInt8) : Heap :=
  heap.write (entry.plus (valueOffset layout)) value

def write (heap : Heap) (layout : Layout) (entry : Pointer) (content : List UInt8)
    (contentHash : UInt64) (value : List UInt8) : Heap :=
  let heap := heap.write entry (Word.toBytes contentHash)
  let heap := heap.write (entry.plus 8) (Word.toBytes content.length.toUInt64)
  let heap := writeValue heap layout entry value
  heap.write (entry.plus (header layout).size) content

section Store

open SymbolStore.Action (Ends)

variable {process : Process} {content stored : List UInt8} {contentHash : UInt64}

theorem runFrom_storeValue (size : stored.length = layout.size)
    (room : process.heap.covers entry (header layout).size = true) :
    (storeValue layout entry stored).runFrom process =
      (.ok (), { process with heap := writeValue process.heap layout entry stored }) := by
  have inside := value_inside layout
  exact Process.runFrom_store (Heap.covers_plus room (by omega))

theorem runFrom_store (positive : 0 < layout.align) (size : stored.length = layout.size)
    (room : process.heap.covers entry ((header layout).size + content.length) = true) :
    (store layout entry content contentHash stored).runFrom process =
      (.ok (), { process with
        heap := write process.heap layout entry content contentHash stored }) := by
  have offset := valueOffset_ge positive
  have inside := value_inside layout
  have word (contents : UInt64) : (Word.toBytes contents).length = 8 := Word.length_toBytes contents
  have part (distance : Nat) (values : List UInt8)
      (fits : distance + values.length ≤ (header layout).size + content.length) :
      process.heap.covers (entry.plus distance) values.length = true :=
    Heap.covers_plus room fits
  have first : process.heap.covers entry (Word.toBytes contentHash).length = true :=
    part 0 (Word.toBytes contentHash) (by rw [word]; omega)
  have second := part 8 (Word.toBytes content.length.toUInt64) (by rw [word]; omega)
  have third := part (valueOffset layout) stored (by omega)
  have fourth := part (header layout).size content (Nat.le_refl _)
  simp only [store, Action.runFrom_bind]
  rw [Process.runFrom_store first]
  dsimp only
  rw [Process.runFrom_store (by rw [Heap.covers_write]; exact second)]
  dsimp only
  rw [storeValue, Process.runFrom_store (by
    rw [Heap.covers_write, Heap.covers_write]; exact third)]
  dsimp only
  rw [Process.runFrom_store (by
    rw [Heap.covers_write, Heap.covers_write, Heap.covers_write]; exact fourth)]
  rfl

variable {done : Unit → Process → Prop} {failed : Failure → Process → Prop}

theorem ends_storeValue (size : stored.length = layout.size)
    (room : process.heap.covers entry (header layout).size = true) :
    Ends (storeValue layout entry stored) process done failed ↔
      done () { process with heap := writeValue process.heap layout entry stored } := by
  rw [Ends, runFrom_storeValue size room]

theorem ends_store (positive : 0 < layout.align) (size : stored.length = layout.size)
    (room : process.heap.covers entry ((header layout).size + content.length) = true) :
    Ends (store layout entry content contentHash stored) process done failed ↔
      done () { process with
        heap := write process.heap layout entry content contentHash stored } := by
  rw [Ends, runFrom_store positive size room]

end Store

section Keeps

variable (keeps : before.Keeps after entry (span before layout entry))
include keeps

theorem value_keeps : value after layout entry = value before layout entry := by
  have inside := value_inside layout
  exact keeps _ _ (by unfold span; omega)

variable (positive : 0 < layout.align)
include positive

theorem hash_keeps : hash after entry = hash before entry := by
  have offset := valueOffset_ge positive
  have inside := value_inside layout
  exact congrArg Word.ofBytes (keeps 0 8 (by unfold span; omega))

theorem length_keeps : length after entry = length before entry := by
  have offset := valueOffset_ge positive
  have inside := value_inside layout
  exact congrArg (fun bytes => (Word.ofBytes bytes).toNat) (keeps 8 8 (by unfold span; omega))

theorem bytes_keeps : bytes after layout entry = bytes before layout entry := by
  rw [bytes, length_keeps keeps positive]
  exact keeps _ _ (Nat.le_refl _)

theorem span_keeps : span after layout entry = span before layout entry := by
  rw [span, length_keeps keeps positive, span]

end Keeps

section Write

variable {content stored : List UInt8} {contentHash : UInt64}

theorem keeps_write {count : Nat}
    (apart : other.Apart count entry ((header layout).size + content.length))
    (positive : 0 < layout.align) (size : stored.length = layout.size) :
    heap.Keeps (write heap layout entry content contentHash stored) other count := by
  have offset := valueOffset_ge positive
  have inside := value_inside layout
  have part (h : Heap) (distance : Nat) (values : List UInt8)
      (fits : distance + values.length ≤ (header layout).size + content.length) :
      h.Keeps (h.write (entry.plus distance) values) other count :=
    Heap.keeps_write (apart.part fits)
  have word (contents : UInt64) : (Word.toBytes contents).length = 8 := Word.length_toBytes contents
  have first := part heap 0 (Word.toBytes contentHash) (by rw [word]; omega)
  have second := part (heap.write entry (Word.toBytes contentHash)) 8
    (Word.toBytes content.length.toUInt64) (by rw [word]; omega)
  have third (h : Heap) := part h (valueOffset layout) stored (by omega)
  have fourth (h : Heap) := part h (header layout).size content (Nat.le_refl _)
  exact first.trans (second.trans ((third _).trans (fourth _)))

variable (present : ∃ block, heap.find? entry.block = some block)
include present

theorem value_writeValue (size : stored.length = layout.size) :
    value (writeValue heap layout entry stored) layout entry = stored :=
  Heap.read_write_same present size

theorem value_write (size : stored.length = layout.size) :
    value (write heap layout entry content contentHash stored) layout entry = stored := by
  have inside := value_inside layout
  rw [value, write, Heap.read_write_apart]
  · exact value_writeValue
      (Heap.exists_find?_write _ _ (Heap.exists_find?_write _ _ present)) size
  · intro _
    simp only [Pointer.plus]
    omega

omit present in
theorem read_writeValue {distance count : Nat} (size : stored.length = layout.size)
    (apart : distance + count ≤ valueOffset layout ∨
      valueOffset layout + layout.size ≤ distance) :
    (writeValue heap layout entry stored).read (entry.plus distance) count =
      heap.read (entry.plus distance) count := by
  apply Heap.read_write_apart
  intro _
  simp only [Pointer.plus, size]
  omega

variable (positive : 0 < layout.align) (size : stored.length = layout.size)
include positive size

theorem hash_write : hash (write heap layout entry content contentHash stored) entry = contentHash := by
  have offset := valueOffset_ge positive
  have inside := value_inside layout
  have first : (write heap layout entry content contentHash stored).read (entry.plus 0) 8 =
      Word.toBytes contentHash := by
    rw [write, Heap.read_write_apart, read_writeValue size, Heap.read_write_apart]
    · exact Heap.read_write_same present (Word.length_toBytes _)
    · intro _
      simp only [Pointer.plus]
      omega
    · omega
    · intro _
      simp only [Pointer.plus]
      omega
  calc
    hash (write heap layout entry content contentHash stored) entry =
        Word.ofBytes (Word.toBytes contentHash) := congrArg Word.ofBytes first
    _ = contentHash := Word.ofBytes_toBytes _

theorem length_write (fits : content.length < wordLimit) :
    length (write heap layout entry content contentHash stored) entry = content.length := by
  have offset := valueOffset_ge positive
  have inside := value_inside layout
  have second : (write heap layout entry content contentHash stored).read (entry.plus 8) 8 =
      Word.toBytes content.length.toUInt64 := by
    rw [write, Heap.read_write_apart, read_writeValue size]
    · exact Heap.read_write_same (Heap.exists_find?_write _ _ present) (Word.length_toBytes _)
    · omega
    · intro _
      simp only [Pointer.plus]
      omega
  rw [length, Heap.readWord, second, Word.ofBytes_toBytes]
  exact Nat.mod_eq_of_lt fits

theorem bytes_write (fits : content.length < wordLimit) :
    bytes (write heap layout entry content contentHash stored) layout entry = content := by
  rw [bytes, length_write present positive size fits, write]
  exact Heap.read_write_same (Heap.exists_find?_write _ _
    (Heap.exists_find?_write _ _ (Heap.exists_find?_write _ _ present))) rfl

end Write

section Revalue

variable {stored : List UInt8} (positive : 0 < layout.align) (size : stored.length = layout.size)
include positive size

theorem hash_writeValue : hash (writeValue heap layout entry stored) entry = hash heap entry := by
  have offset := valueOffset_ge positive
  have first : (writeValue heap layout entry stored).read (entry.plus 0) 8 =
      heap.read (entry.plus 0) 8 := read_writeValue size (.inl (by omega))
  exact congrArg Word.ofBytes first

theorem length_writeValue :
    length (writeValue heap layout entry stored) entry = length heap entry := by
  have offset := valueOffset_ge positive
  have second : (writeValue heap layout entry stored).read (entry.plus 8) 8 =
      heap.read (entry.plus 8) 8 := read_writeValue size (.inl (by omega))
  rw [length, Heap.readWord, second, length, Heap.readWord]

theorem bytes_writeValue :
    bytes (writeValue heap layout entry stored) layout entry = bytes heap layout entry := by
  rw [bytes, length_writeValue positive size, bytes]
  exact read_writeValue size (.inr (value_inside layout))

end Revalue

end Entry

end SymbolStore
