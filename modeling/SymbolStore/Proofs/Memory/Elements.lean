import SymbolStore.Proofs.Memory.Contents
import SymbolStore.Proofs.Memory.FlatArray

/-!
An array as the list of its elements. Every operation on an array does to this list what it does to a
list, wherever the elements are moved to, and an operation that fails leaves it as it is.
-/

namespace SymbolStore

open SymbolStore.Action (Ends)

namespace Block

theorem putBytes_append (bytes : Array UInt8) (index : Nat) (first second : List UInt8) :
    putBytes bytes index (first ++ second) =
      putBytes (putBytes bytes index first) (index + first.length) second := by
  induction first generalizing bytes index with
  | nil => rfl
  | cons value values ih =>
      rw [List.cons_append, putBytes, ih, putBytes, List.length_cons, Nat.add_assoc index 1,
        Nat.add_comm 1]

theorem write_append (block : Block) (offset : Nat) (first second : List UInt8) :
    block.write offset (first ++ second) =
      (block.write offset first).write (offset + first.length) second := by
  unfold write
  rw [putBytes_append, Nat.add_assoc block.front offset first.length]
  rfl

/-- Values side by side, each as long as an element: the elements that they cover are these values,
and the others are as they were. -/
theorem read_copies {block : Block} {size : Nat} {value : List UInt8} (sized : value.length = size)
    (index count i : Nat) :
    (block.write (index * size) (List.replicate count value).flatten).read (i * size) size =
      if index ≤ i ∧ i < index + count then value else block.read (i * size) size := by
  induction count generalizing block index with
  | zero =>
      rw [if_neg (by omega)]
      rfl
  | succ count ih =>
      have next : index * size + value.length = (index + 1) * size := by
        rw [sized, Nat.succ_mul]
      rw [List.replicate_succ, List.flatten_cons, write_append, next, ih]
      rcases Nat.lt_trichotomy i index with before | rfl | behind
      · have apart : i * size + size ≤ index * size := by
          rw [← Nat.succ_mul]
          exact Nat.mul_le_mul_right size before
        rw [if_neg (by omega), if_neg (by omega), block.read_write_apart (.inl apart)]
      · rw [if_neg (by omega), if_pos (by omega)]
        have same := block.read_write_same (i * size) value
        rwa [sized] at same
      · have apart : index * size + value.length ≤ i * size := by
          rw [next]
          exact Nat.mul_le_mul_right size behind
        rw [block.read_write_apart (.inr apart)]
        exact if_congr (by omega) rfl rfl

end Block

namespace Process

variable {before middle after : Process}

/-- Every block of the later process was there before, byte for byte. -/
def Erases (before after : Process) : Prop :=
  ∀ a block, after.heap.find? a = some block → before.heap.find? a = some block

theorem erases_of_heap (same : after.heap = before.heap) : before.Erases after :=
  fun _ _ found => same ▸ found

theorem Erases.trans (first : before.Erases middle) (second : middle.Erases after) :
    before.Erases after :=
  fun a block found => first a block (second a block found)

end Process

namespace Manager

variable (manager : Manager) (process : Process)

theorem strikeOut_heap (address : Nat) : Ends (manager.strikeOut address) process
    (fun _ after => after.heap = process.heap) fun _ after => after.heap = process.heap := by
  simp only [strikeOut, recordedSize, checkPromise, Action.ends_bind, ends_ledger]
  split
  · simp only [Action.ends_bind, ends_ledger]
    cases (manager.ledgerIn process).live[address]? with
    | none => rfl
    | some size =>
        rw [Action.ends_pure, ends_enter]
        split <;> rfl
  · simp only [Action.ends_bind, ends_ledger]
    split
    · rfl
    · simp only [Action.ends_bind, Action.ends_get]
      cases process.heap.find? address with
      | none => rfl
      | some block =>
          dsimp only
          split <;> rfl

theorem giveBack_erases (address : Nat) : Ends (giveBack address) process
    (fun _ after => process.Erases after) fun _ after => process.Erases after := by
  have kept : ∀ after, after = process → process.Erases after := by
    rintro _ rfl
    exact Process.erases_of_heap rfl
  apply (readHeader_stays address).bind fun _ => kept
  rintro payload _ rfl
  apply (blockAt_stays _ payload.whole).bind fun _ => kept
  rintro block _ rfl
  rw [Process.ends_updateHeap]
  intro a other found
  rw [Heap.find?_erase] at found
  split at found
  · cases found
  · exact found

theorem free_erases (address : Nat) : Ends (manager.free address) process
    (fun _ after => process.Erases after) fun _ after => process.Erases after := by
  apply (manager.strikeOut_heap process address).bind (fun _ _ => Process.erases_of_heap)
  intro _ middle same
  have struck : process.Erases middle := Process.erases_of_heap same
  exact (giveBack_erases middle address).mono (fun _ _ erases => struck.trans erases)
    fun _ _ erases => struck.trans erases

end Manager

structure Listing where
  element : Layout
  elements : List (List UInt8)
  deriving DecidableEq, Repr

namespace Listing

def copies (element : Layout) (length : Nat) (value : List UInt8) : Listing where
  element
  elements := List.replicate length (element.fit value)

/-- The first elements, followed by new ones if these are fewer than there should be. -/
def resized (listing : Listing) (length : Nat) (value : List UInt8) : Listing :=
  { listing with elements := listing.elements.take length ++
      List.replicate (length - listing.elements.length) (listing.element.fit value) }

def filled (listing : Listing) (value : List UInt8) : Listing :=
  { listing with elements := listing.elements.map fun _ => listing.element.fit value }

def assigned (listing : Listing) (index : Nat) (value : List UInt8) : Listing :=
  { listing with elements := listing.elements.set index (listing.element.fit value) }

theorem getElem?_resized (listing : Listing) (length : Nat) (value : List UInt8) (i : Nat) :
    (listing.resized length value).elements[i]? =
      if i < length then
        if i < listing.elements.length then listing.elements[i]?
        else some (listing.element.fit value)
      else none := by
  simp only [resized, List.getElem?_append, List.length_take, List.getElem?_take,
    List.getElem?_replicate]
  by_cases inside : i < length
  · by_cases earlier : i < listing.elements.length
    · rw [if_pos (lt_min inside earlier), if_pos inside, if_pos inside, if_pos earlier]
    · have behind : ¬ i < min length listing.elements.length := by omega
      rw [if_neg behind, if_pos (by omega), if_pos inside, if_neg earlier]
  · have behind : ¬ i < min length listing.elements.length := by omega
    rw [if_neg behind, if_neg (by omega), if_neg inside]

def item (listing : Listing) (index : Nat) : Except Failure (List UInt8) :=
  match listing.elements[index]? with
  | some bytes => .ok bytes
  | none => .error (.fault (.indexOutOfBounds listing.elements.length index))

end Listing

namespace FlatArray

variable {array : FlatArray} {process : Process} {heap after : Heap}

def listing (array : FlatArray) (heap : Heap) : Listing where
  element := array.element
  elements := array.toList heap

@[simp] theorem length_toList (array : FlatArray) (heap : Heap) :
    (array.toList heap).length = array.length := by
  rw [toList, List.length_map, List.length_range]

theorem getElem?_toList (array : FlatArray) (heap : Heap) (i : Nat) :
    (array.toList heap)[i]? =
      if i < array.length then some (heap.read (array.place i) array.element.size) else none := by
  rw [toList, List.getElem?_map]
  split
  · rename_i inside
    rw [List.getElem?_range inside]
    rfl
  · rename_i outside
    rw [List.getElem?_eq_none (by rw [List.length_range]; omega)]
    rfl

theorem listing_congr (same : after.find? array.block = heap.find? array.block) :
    array.listing after = array.listing heap := by
  have reads (i : Nat) : after.read (array.place i) array.element.size =
      heap.read (array.place i) array.element.size := Heap.read_congr same
  simp only [listing, toList, reads]

theorem getElem?_written (array : FlatArray)
    (present : ∃ block, heap.find? array.block = some block) (index count : Nat)
    (value : List UInt8) (i : Nat) :
    (array.toList (heap.write (array.place index)
        (List.replicate count (array.element.fit value)).flatten))[i]? =
      if i < array.length then
        if index ≤ i ∧ i < index + count then some (array.element.fit value)
        else (array.toList heap)[i]?
      else none := by
  obtain ⟨block, found⟩ := present
  rw [getElem?_toList, getElem?_toList]
  split
  · have reads : (heap.write (array.place index)
          (List.replicate count (array.element.fit value)).flatten).read (array.place i)
            array.element.size =
        if index ≤ i ∧ i < index + count then array.element.fit value
        else heap.read (array.place i) array.element.size := by
      simp only [Heap.read, Heap.find?_write, place, if_pos, found, Option.map_some]
      exact Block.read_copies (array.element.length_fit value) index count i
    rw [reads]
    split <;> rfl
  · rfl

/-- An array is made with copies of its value, which lie inside its block. -/
theorem create_lists {manager : Manager} (element : Layout) (length : Nat) (value : List UInt8)
    (sound : process.Sound) :
    Ends (create manager element length value) process
      (fun array after => array.listing after.heap = .copies element length value)
      fun failure _ => failure ≠ .refused .outsideBlock := by
  rw [create]
  apply (Manager.allocateArray_effect element length sound).bind
  · rintro _ _ (⟨⟨-, rfl⟩ | ⟨_, rfl⟩, -⟩ | ⟨rfl, -⟩) <;> simp
  intro address after handed
  have held : ∃ block, after.heap.find? address = some block ∧
      block.size = element.size * length := by
    rw [handed.turns.heap_eq, Heap.find?_handed, if_pos rfl]
    exact ⟨_, rfl, Block.size_issued _ _⟩
  have present : ∃ block, after.heap.find? address = some block := by
    obtain ⟨block, found, -⟩ := held
    exact ⟨block, found⟩
  rw [Action.ends_bind, ends_fillFrom held (bounds_all _ length)]
  simp only [Manager.retain, Action.ends_bind, Manager.ends_ledger, Manager.ends_setLedger,
    Action.ends_pure]
  refine congrArg (Listing.mk element) (List.ext_getElem? fun i => ?_)
  rw [getElem?_written _ present, List.getElem?_replicate]
  apply if_ctx_congr Iff.rfl ?_ fun _ => rfl
  intro inside
  rw [if_pos ⟨Nat.zero_le i, by rwa [Nat.zero_add]⟩]

/-- A change of the length keeps the first elements, wherever they are moved to, and the new ones
have the value. If there is no memory for it, all stays. There is none if the bytes cannot be
counted. -/
theorem resize_lists (length : Nat) (value : List UInt8)
    (held : array.manager.Holds process array.block (array.element.size * array.length))
    (sound : process.Sound) (powers : process.heap.Powers) :
    Ends (resize length value) (array, process)
      (fun _ after => array.element.size * length < wordLimit ∧
        after.1.listing after.2.heap = (array.listing process.heap).resized length value)
      fun failure after =>
        (∃ requested, failure = .error (.outOfMemory requested) ∧
          (wordLimit ≤ array.element.size * length → requested = maxWord) ∧
          after.1.listing after.2.heap = array.listing process.heap) ∨
        failure = .fault (.overflow .add) ∧ (array.manager.ledgerIn process).Exhausted := by
  simp only [resize, Action.ends_bind, Method.ends_self, Method.ends_liftProcess]
  apply (Manager.reallocateArray_effect array.block array.element array.length length sound
    held.given fun block found _ => powers array.block block found).mono
  · intro address after moved
    obtain ⟨countable, block, sized, moves⟩ := moved
    have there : after.heap.find? address = some (block.resize (array.element.size * length)) := by
      rw [moves.turns.heap_eq, Heap.find?_moved, if_pos rfl]
    -- The elements that stay are inside the block before and after.
    have stays (i : Nat) (inside : i < length) :
        after.heap.read ⟨address, i * array.element.size⟩ array.element.size =
          process.heap.read (array.place i) array.element.size := by
      have fits : i * array.element.size + array.element.size ≤ array.element.size * length := by
        rw [← Nat.succ_mul, Nat.mul_comm array.element.size]
        exact Nat.mul_le_mul_right _ inside
      simp only [Heap.read, place, there, moves.found]
      exact block.read_resize fits
    let longer : FlatArray := { array with block := address, length }
    rw [longer.ends_fillFrom ⟨_, there, block.size_resize _⟩ (bounds_grown _ array.length length)]
    simp only [Method.ends_update]
    refine ⟨countable.2, congrArg (Listing.mk array.element) (List.ext_getElem? fun i => ?_)⟩
    have written := longer.getElem?_written ⟨_, there⟩ array.length (length - array.length) value i
    refine written.trans (Eq.trans ?_ (Listing.getElem?_resized _ length value i).symm)
    simp only [longer, listing, length_toList, getElem?_toList]
    apply if_ctx_congr Iff.rfl ?_ fun _ => rfl
    intro inside
    by_cases earlier : i < array.length
    · rw [if_neg (by omega), if_pos inside, if_pos earlier, if_pos earlier]
      exact congrArg some (stays i inside)
    · rw [if_pos (by omega), if_neg earlier]
  · intro failure after failed
    rcases failed with ⟨-, rejects, -⟩ | ⟨uncountable, rfl, rfl⟩ | ⟨countable, -, leaves⟩
    · refine absurd held (rejects.unheld _ ?_)
      intro size claimed
      exact (Option.mem_some_iff.mp claimed).symm
    · exact .inl ⟨maxWord, rfl, fun _ => rfl, rfl⟩
    · rcases leaves with ⟨⟨requested, rfl⟩, remarks⟩ | ⟨fault, -, exhausted, -⟩
      · refine .inl ⟨requested, rfl, ?_, listing_congr (congrFun (congrArg Heap.find? remarks.heap_eq) _)⟩
        intro beyond
        exact absurd countable.2 (Nat.not_lt.mpr beyond)
      · exact .inr ⟨fault, exhausted⟩

theorem item_listing (array : FlatArray) (heap : Heap) (index : Nat) :
    (array.listing heap).item index =
      if index < array.length then .ok (heap.read (array.place index) array.element.size)
      else .error (.fault (.indexOutOfBounds array.length index)) := by
  have found := array.getElem?_toList heap index
  by_cases inside : index < array.length
  · rw [if_pos inside] at found ⊢
    simp only [Listing.item, listing, found]
  · rw [if_neg inside] at found ⊢
    simp only [Listing.item, listing, found, length_toList]

section Held

variable (held : array.manager.Holds process array.block (array.element.size * array.length))
include held

theorem fill_lists (value : List UInt8) :
    Ends (fill value) (array, process)
      (fun _ after => after.1.listing after.2.heap = (array.listing process.heap).filled value)
      fun _ _ => False := by
  obtain ⟨block, found, size, -⟩ := held.present
  simp only [fill, Action.ends_bind, Method.ends_self, Method.ends_liftProcess]
  rw [ends_fillFrom ⟨block, found, size⟩ (bounds_all _ array.length)]
  refine congrArg (Listing.mk array.element) (List.ext_getElem? fun i => ?_)
  rw [array.getElem?_written ⟨block, found⟩]
  simp only [listing, List.getElem?_map, getElem?_toList]
  split
  · rw [if_pos (by omega)]
    rfl
  · rfl

theorem set_lists (index : Nat) (value : List UInt8) :
    Ends (set index value) (array, process)
      (fun _ after => (∃ old, (array.listing process.heap).item index = .ok old) ∧
        after.1.listing after.2.heap = (array.listing process.heap).assigned index value)
      fun failure after => (array.listing process.heap).item index = .error failure ∧
        after = (array, process) := by
  rw [item_listing]
  simp only [set, Action.ends_bind, Method.ends_self]
  split
  · rename_i inside
    obtain ⟨block, found, size, -⟩ := held.present
    simp only [Method.ends_liftProcess]
    rw [ends_fillFrom ⟨block, found, size⟩ (bounds_one _ inside)]
    refine ⟨⟨_, rfl⟩, congrArg (Listing.mk array.element) (List.ext_getElem? fun i => ?_)⟩
    rw [array.getElem?_written ⟨block, found⟩]
    simp only [listing, List.getElem?_set, length_toList, getElem?_toList]
    by_cases here : index = i
    · rw [if_pos (here ▸ inside), if_pos (by omega), if_pos here, if_pos inside]
    · rw [if_neg (by omega : ¬ (index ≤ i ∧ i < index + 1)), if_neg here]
      split <;> rfl
  · exact ⟨rfl, rfl⟩

end Held

theorem get_lists (index : Nat) :
    Ends (get index) (array, process)
      (fun bytes after => (array.listing process.heap).item index = .ok bytes ∧
        after = (array, process))
      fun failure after => (array.listing process.heap).item index = .error failure ∧
        after = (array, process) := by
  rw [item_listing]
  simp only [get, Action.ends_bind, Method.ends_self]
  split
  · exact ⟨rfl, rfl⟩
  · exact ⟨rfl, rfl⟩

theorem discard_erases (array : FlatArray) (process : Process) : Ends array.discard process
    (fun _ after => process.Erases after) fun _ after => process.Erases after := by
  apply (array.manager.free_erases process array.block).bind (fun _ _ erases => erases)
  intro _ middle erases
  apply (array.manager.release_heap middle).mono ?_ fun _ _ none => none.elim
  exact fun _ _ same => erases.trans (Process.erases_of_heap same)

end FlatArray

end SymbolStore
