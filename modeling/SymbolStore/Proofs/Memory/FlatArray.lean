import SymbolStore.Memory.FlatArray
import SymbolStore.Proofs.Memory.Houses

/-! Arrays and the accounts of their blocks: an array always has exactly one, of its own length. -/

namespace SymbolStore

open SymbolStore.Action (Ends)

namespace FlatArray

def holdings (array : FlatArray) : Multiset Extent :=
  {{ manager := array.manager, address := array.block, size := array.element.size * array.length }}

structure Same (array after : FlatArray) : Prop where
  manager : after.manager = array.manager
  element : after.element = array.element

variable {array : FlatArray} {process : Process} {account : Account}

theorem Same.refl (array : FlatArray) : array.Same array := ⟨rfl, rfl⟩

theorem mem_holdings (array : FlatArray) (index : Nat) :
    (array.place index).block ∈ array.holdings.map Extent.address := by
  rw [holdings, Multiset.map_singleton]
  exact Multiset.mem_singleton_self _

theorem length_filling (element : Layout) (count : Nat) (value : List UInt8) :
    (List.replicate count (element.fit value)).flatten.length = count * element.size := by
  simp

section Bounds

variable (size : Nat) {index length : Nat}

theorem bounds_all (length : Nat) : length = 0 ∨ (0 + length) * size ≤ size * length :=
  .inr (by rw [Nat.zero_add, Nat.mul_comm])

theorem bounds_one (inside : index < length) : 1 = 0 ∨ (index + 1) * size ≤ size * length := by
  rw [Nat.mul_comm]
  exact .inr (Nat.mul_le_mul_left _ inside)

theorem bounds_grown (before length : Nat) :
    length - before = 0 ∨ (before + (length - before)) * size ≤ size * length := by
  rcases Nat.le_total length before with shorter | longer
  · exact .inl (Nat.sub_eq_zero_of_le shorter)
  · exact .inr (by rw [Nat.add_sub_cancel' longer, Nat.mul_comm])

end Bounds

theorem covers_elements {index count size : Nat}
    (held : ∃ block, process.heap.find? array.block = some block ∧ block.size = size)
    (bounds : count = 0 ∨ (index + count) * array.element.size ≤ size) :
    process.heap.covers (array.place index) (count * array.element.size) = true := by
  rw [Heap.covers_iff]
  rcases bounds with none | inside
  · exact .inl (by rw [none, Nat.zero_mul])
  · obtain ⟨block, found, sized⟩ := held
    rw [Nat.add_mul] at inside
    exact .inr ⟨block, found, sized ▸ inside⟩

theorem ends_fillFrom {done : Unit → Process → Prop} {failed : Failure → Process → Prop}
    {index count size : Nat} {value : List UInt8}
    (held : ∃ block, process.heap.find? array.block = some block ∧ block.size = size)
    (bounds : count = 0 ∨ (index + count) * array.element.size ≤ size) :
    Ends (array.fillFrom index count value) process done failed ↔
      done () { process with
        heap := process.heap.write (array.place index)
          (List.replicate count (array.element.fit value)).flatten } := by
  rw [fillFrom, Process.ends_store, length_filling, if_pos (covers_elements held bounds)]

theorem runFrom_fillFrom {index count size : Nat} (value : List UInt8)
    (held : ∃ block, process.heap.find? array.block = some block ∧ block.size = size)
    (bounds : count = 0 ∨ (index + count) * array.element.size ≤ size) :
    (array.fillFrom index count value).runFrom process = (.ok (), { process with
      heap := process.heap.write (array.place index)
        (List.replicate count (array.element.fit value)).flatten }) :=
  Action.Ends.runFrom_eq ((ends_fillFrom held bounds).mpr ⟨rfl, rfl⟩)

theorem fillFrom_houses {extents : Multiset Extent} {extent : Extent} (index count : Nat)
    (value : List UInt8) (houses : process.Houses extents account) (member : extent ∈ extents)
    (here : array.block = extent.address)
    (bounds : count = 0 ∨ (index + count) * array.element.size ≤ extent.size) :
    Ends (array.fillFrom index count value) process
      (fun _ after => after.Houses extents account) fun _ _ => False := by
  have own : (array.place index).block ∈ extents.map Extent.address :=
    Multiset.mem_map.mpr ⟨extent, member, here.symm⟩
  obtain ⟨block, found, size, -⟩ := (houses.held member).present
  rw [← here] at found
  exact (ends_fillFrom ⟨block, found, size⟩ bounds).mpr (houses.writeOwn own _)

theorem create_houses {manager : Manager} (element : Layout) (length : Nat) (value : List UInt8)
    (houses : process.Houses 0 account) (holder : manager ∈ account.holders) :
    Ends (create manager element length value) process
      (fun array after => array.manager = manager ∧
        after.Houses array.holdings (account.joined manager))
      fun failure after => Process.Spares 0 account failure after := by
  rw [create]
  apply (houses.allocateArray holder element length).bind (fun _ _ spares => spares)
  intro block after granted
  apply (fillFrom_houses 0 length value granted (Multiset.mem_cons_self _ _) rfl
    (bounds_all _ length)).bind (fun _ _ none => none.elim)
  intro _ filled there
  apply (there.retain holder).bind (fun _ _ none => none.elim)
  intro _ last retained
  exact ⟨rfl, retained⟩

/-- A change of the length is not stopped by the counting of allocations. -/
def Counted (array : FlatArray) (process : Process) (length : Nat) (value : List UInt8) : Prop :=
  ∀ after, (resize length value).runFrom (array, process) =
    (.error (.fault (.overflow .add)), after) → ¬ (array.manager.ledgerIn process).Exhausted

/-- A change of the length. Where no more allocations can be counted this is not known to end
well. -/
theorem resize_houses (length : Nat) (value : List UInt8)
    (houses : process.Houses array.holdings account) (holder : array.manager ∈ account.holders)
    (counted : array.Counted process length value) :
    Ends (resize length value) (array, process)
      (fun _ after => array.Same after.1 ∧ after.1.length = length ∧
        after.2.Houses after.1.holdings account)
      fun failure after => after.1 = array ∧
        Process.Spares array.holdings account failure after.2 := by
  have resizes : Ends (resize length value) (array, process)
      (fun _ after => array.Same after.1 ∧ after.1.length = length ∧
        after.2.Houses after.1.holdings account)
      fun failure after =>
        (after.1 = array ∧ Process.Spares array.holdings account failure after.2) ∨
          failure = .fault (.overflow .add) ∧ (array.manager.ledgerIn process).Exhausted := by
    rw [holdings, ← Multiset.cons_zero] at houses
    simp only [resize, Action.ends_bind, Method.ends_self, Method.ends_liftProcess]
    apply (houses.reallocateArray holder length).mono
    · intro block after moved
      refine (fillFrom_houses _ _ value moved (Multiset.mem_cons_self _ _) rfl ?_).mono ?_
        fun _ _ none => none.elim
      · exact bounds_grown _ array.length length
      · intro _ last filled
        exact ⟨⟨rfl, rfl⟩, rfl, filled⟩
    · exact fun _ _ failed => failed.imp_left fun spares => ⟨trivial, spares⟩
  apply (resizes.and (Action.ends_ran _ _)).mono (fun _ _ both => both.1)
  intro failure after both
  obtain ⟨spares | ⟨rfl, exhausted⟩, ran⟩ := both
  · exact spares
  · exact absurd exhausted (counted after ran)

theorem fill_houses (value : List UInt8) (houses : process.Houses array.holdings account) :
    Ends (fill value) (array, process)
      (fun _ after => after.1 = array ∧ after.2.Houses array.holdings account)
      fun _ _ => False := by
  simp only [fill, Action.ends_bind, Method.ends_self, Method.ends_liftProcess]
  exact (fillFrom_houses 0 array.length value houses (Multiset.mem_singleton_self _) rfl
    (bounds_all _ array.length)).mono (fun _ _ filled => ⟨trivial, filled⟩) fun _ _ none => none

theorem set_houses (index : Nat) (value : List UInt8)
    (houses : process.Houses array.holdings account) :
    Ends (set index value) (array, process)
      (fun _ after => after.1 = array ∧ after.2.Houses array.holdings account)
      fun failure after => failure.isMisuse = false ∧ after = (array, process) := by
  simp only [set, Action.ends_bind, Method.ends_self]
  split
  · rename_i inside
    rw [Method.ends_liftProcess]
    exact (fillFrom_houses index 1 value houses (Multiset.mem_singleton_self _) rfl
      (bounds_one _ inside)).mono (fun _ _ filled => ⟨rfl, filled⟩) fun _ _ none => none.elim
  · exact ⟨rfl, rfl⟩

theorem discard_houses
    (houses : process.Houses array.holdings (account.joined array.manager)) :
    Ends array.discard process
      (fun _ after => after.Houses 0 (account.parted array.manager)) fun _ _ => False := by
  rw [holdings, ← Multiset.cons_zero] at houses
  exact houses.free.bind (fun _ _ none => none) fun _ _ left => left.release

end FlatArray

end SymbolStore
