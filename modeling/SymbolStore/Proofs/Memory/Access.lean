import SymbolStore.Memory.Heap

/-!
What reads see of writes: the bytes that were written, and elsewhere the bytes of before. Words come
back from their bytes.
-/

namespace SymbolStore

namespace Word

@[simp] theorem length_toBytes (word : UInt64) : (toBytes word).length = 8 := by
  simp [toBytes]

theorem getLsbD_ofBytes (bytes : List UInt8) {i : Nat} (inside : i < 64) :
    (ofBytes bytes).toBitVec.getLsbD i = (bytes.getD (i / 8) 0).toBitVec.getLsbD (i % 8) := by
  induction bytes generalizing i with
  | nil => simp [ofBytes]
  | cons byte rest ih =>
      by_cases low : i < 8
      · have first : i / 8 = 0 := by omega
        have same : i % 8 = i := by omega
        simp [ofBytes, first, same, low, inside]
      · obtain ⟨k, rfl⟩ : ∃ k, i = k + 8 := ⟨i - 8, by omega⟩
        have high : (k + 8) / 8 = k / 8 + 1 := by omega
        have same : (k + 8) % 8 = k % 8 := by omega
        rw [high, same, List.getD_cons_succ, ← ih (by omega)]
        simp [ofBytes, inside, low, BitVec.getLsbD_eq_getElem (by omega : k < 64)]

theorem ofBytes_toBytes (word : UInt64) : ofBytes (toBytes word) = word := by
  apply UInt64.toBitVec_inj.mp
  apply BitVec.eq_of_getLsbD_eq
  intro i inside
  have byte : i / 8 < 8 := by omega
  have bit : i % 8 < 8 := by omega
  have shift : 8 * (i / 8) % 64 + i % 8 = i := by omega
  rw [getLsbD_ofBytes _ inside]
  simp [toBytes, byte, bit, shift]

end Word

namespace Layout

@[simp] theorem length_fit (layout : Layout) (value : List UInt8) :
    (layout.fit value).length = layout.size := by
  simp [fit]

end Layout

namespace Block

variable (block : Block) {offset place count : Nat} {values : List UInt8}

theorem read_write_same (offset : Nat) (values : List UInt8) :
    (block.write offset values).read offset values.length = values := by
  apply List.ext_getElem
  · simp [read]
  · intro i _ inside
    simp [read, byte_write, inside]

theorem read_write_apart (apart : place + count ≤ offset ∨ offset + values.length ≤ place) :
    (block.write offset values).read place count = block.read place count := by
  apply List.map_congr_left
  intro i member
  rw [List.mem_range'_1] at member
  rw [byte_write, if_neg]
  omega

end Block

/-- Two ranges that have no byte in common. -/
def Pointer.Apart (pointer : Pointer) (count : Nat) (other : Pointer) (length : Nat) : Prop :=
  pointer.block = other.block →
    pointer.offset + count ≤ other.offset ∨ other.offset + length ≤ pointer.offset

theorem Pointer.Apart.symm {pointer other : Pointer} {count length : Nat}
    (apart : pointer.Apart count other length) : other.Apart length pointer count :=
  fun same => (apart same.symm).symm

namespace Heap

variable {heap before after : Heap} {pointer other : Pointer} {count length : Nat}
  {values : List UInt8}

theorem read_congr (same : after.find? pointer.block = before.find? pointer.block) :
    after.read pointer count = before.read pointer count := by
  rw [read, read, same]

theorem read_write_same (present : ∃ block, heap.find? pointer.block = some block)
    (size : values.length = count) : (heap.write pointer values).read pointer count = values := by
  rcases present with ⟨block, found⟩
  rw [read, find?_write, if_pos rfl, found, ← size]
  exact block.read_write_same pointer.offset values

theorem read_write_apart (apart : other.Apart count pointer values.length) :
    (heap.write pointer values).read other count = heap.read other count := by
  by_cases same : pointer.block = other.block
  · rw [read, read, find?_write, if_pos same]
    cases heap.find? other.block with
    | none => rfl
    | some block => exact block.read_write_apart (apart same.symm)
  · exact read_congr (by rw [find?_write, if_neg same])

/-- The later heap has the same bytes as the earlier one in this range. -/
def Keeps (before after : Heap) (pointer : Pointer) (count : Nat) : Prop :=
  ∀ distance length, distance + length ≤ count →
    after.read (pointer.plus distance) length = before.read (pointer.plus distance) length

theorem keeps_of_find? (same : after.find? pointer.block = before.find? pointer.block) :
    before.Keeps after pointer count :=
  fun _ _ _ => read_congr same

theorem keeps_write (apart : other.Apart count pointer values.length) :
    heap.Keeps (heap.write pointer values) other count := by
  intro distance length inside
  apply read_write_apart
  intro same
  have behind := apart same
  simp only [Pointer.plus]
  omega

theorem Keeps.trans {last : Heap} (first : before.Keeps after pointer count)
    (second : after.Keeps last pointer count) : before.Keeps last pointer count :=
  fun distance length inside => (second distance length inside).trans (first distance length inside)

theorem exists_find?_write (pointer : Pointer) (values : List UInt8) {a : Nat}
    (present : ∃ block, heap.find? a = some block) :
    ∃ block, (heap.write pointer values).find? a = some block := by
  rcases present with ⟨block, found⟩
  rw [find?_write, found]
  split
  · exact ⟨_, rfl⟩
  · exact ⟨block, rfl⟩

theorem covers_iff : heap.covers pointer count = true ↔ count = 0 ∨
    ∃ block, heap.find? pointer.block = some block ∧ pointer.offset + count ≤ block.size := by
  rw [covers, Bool.or_eq_true, decide_eq_true_iff, Option.any_eq_true]
  simp

theorem covers_of_find? {block : Block} (found : heap.find? pointer.block = some block)
    (inside : pointer.offset + count ≤ block.size) : heap.covers pointer count = true :=
  covers_iff.mpr (.inr ⟨block, found, inside⟩)

theorem covers_plus {distance : Nat} (covers : heap.covers pointer count = true)
    (inside : distance + length ≤ count) :
    heap.covers (pointer.plus distance) length = true := by
  rcases covers_iff.mp covers with none | ⟨block, found, bounds⟩
  · exact covers_iff.mpr (.inl (by omega))
  · refine covers_of_find? found ?_
    simp only [Pointer.plus]
    omega

theorem covers_write : (heap.write pointer values).covers other count = heap.covers other count := by
  rw [covers, covers, find?_write]
  split
  · cases heap.find? other.block <;> rfl
  · rfl

end Heap

end SymbolStore
