import SymbolStore.Proofs.Memory.FlatArray
import SymbolStore.Proofs.Twin.Renaming

/-! Arrays of two processes that stand for each other, with their elements at different addresses. -/

namespace SymbolStore

open SymbolStore.Action (Lockstep)
open SymbolStore.Process (Twins)

variable {allocator : Allocator} {grants : Nat → Bool} {names : Renaming}
  {rest extents : Multiset Extent} {bound room : Nat} {p q : Process}

namespace FlatArray

def rename (names : Renaming) (array : FlatArray) : FlatArray :=
  { array with block := names.block array.block }

variable {array : FlatArray}

abbrev Beside := SymbolStore.Beside holdings rename fun _ _ => True

abbrev Onto := SymbolStore.Onto holdings rename (fun _ _ => True) (fun _ => 0) fun _ => none

theorem beside_of_twins (twins : Twins allocator names
      (⟨array.manager, array.block, array.element.size * array.length⟩ ::ₘ rest) room p q) :
    Beside allocator names rest room (array, p) (array.rename names, q) where
  same := rfl
  level := trivial
  twins := by
    rw [holdings, Multiset.singleton_add]
    exact twins

theorem onto_of_twins (twins : Twins allocator names (array.holdings + rest) room p q) :
    Onto allocator names rest room array (fun _ => True) (array, p) (array.rename names, q) := by
  have beside : Beside allocator names rest room (array, p) (array.rename names, q) :=
    ⟨rfl, trivial, twins⟩
  exact beside.onto trivial

theorem mem_extents (array : FlatArray) (rest : Multiset Extent) :
    { manager := array.manager, address := array.block
      size := array.element.size * array.length } ∈ array.holdings + rest :=
  Multiset.mem_add.mpr (.inl (Multiset.mem_singleton_self _))

theorem fillFrom_tandem {excused pardoned : Failure → Process → Prop} {extent : Extent}
    {index count : Nat} (value : List UInt8) (twins : Twins allocator names extents room p q)
    (member : extent ∈ extents) (here : array.block = extent.address)
    (bounds : count = 0 ∨ (index + count) * array.element.size ≤ extent.size) :
    Lockstep excused pardoned (array.fillFrom index count value)
      ((array.rename names).fillFrom index count value) p q
      (fun _ _ => Twins allocator names extents room) fun _ _ _ => False := by
  have paired := twins.paired extent member
  obtain ⟨block, found, size, -⟩ := paired.here.present
  obtain ⟨block', found', size', -⟩ := paired.there.present
  rw [← here] at found found'
  exact .last (array.runFrom_fillFrom value ⟨block, found, size⟩ bounds)
    ((array.rename names).runFrom_fillFrom value ⟨block', found', size'⟩ bounds)
    (twins.written (array.place index) _)

theorem read_rename (twins : Twins allocator names (array.holdings + rest) room p q) (index : Nat) :
    q.heap.read ((array.rename names).place index) array.element.size =
      p.heap.read (array.place index) array.element.size := by
  refine twins.read (array.place index) ?_ _
  rw [Multiset.map_add]
  exact Multiset.mem_add.mpr (.inl (array.mem_holdings index))

theorem toList_rename (twins : Twins allocator names (array.holdings + rest) room p q) :
    (array.rename names).toList q.heap = array.toList p.heap :=
  List.map_congr_left fun i _ => read_rename twins i

theorem get_tandem {excused pardoned : Failure → FlatArray × Process → Prop} (index : Nat)
    (beside : Beside allocator names rest room (array, p) (array.rename names, q)) :
    Lockstep excused pardoned (get index) (get index) (array, p) (array.rename names, q)
      (fun a b s t => b = a ∧ Onto allocator names rest room array (fun _ => True) s t)
      fun _ => Onto allocator names rest room array fun _ => True := by
  rw [get]
  refine .step (by rfl) (by rfl) ?_
  show Lockstep _ _ (if index < array.length then _ else _) (if index < array.length then _ else _)
    _ _ _ _
  split
  · exact .last (by rfl) (by rfl) ⟨read_rename beside.twins index, beside.onto trivial⟩
  · exact Action.lockstep_stop (beside.onto trivial)

theorem fill_tandem {excused pardoned : Failure → FlatArray × Process → Prop} (value : List UInt8)
    (beside : Beside allocator names rest room (array, p) (array.rename names, q)) :
    Lockstep excused pardoned (fill value) (fill value) (array, p) (array.rename names, q)
      (fun _ _ => Onto allocator names rest room array fun _ => True)
      fun _ => Onto allocator names rest room array fun _ => True := by
  rw [fill]
  refine .step (by rfl) (by rfl) (Method.lockstep_lift ?_)
  exact (fillFrom_tandem value beside.twins (array.mem_extents rest) rfl
    (bounds_all _ array.length)).mono (fun _ _ _ _ => onto_of_twins) fun _ _ _ => False.elim

theorem set_tandem {excused pardoned : Failure → FlatArray × Process → Prop} (index : Nat)
    (value : List UInt8)
    (beside : Beside allocator names rest room (array, p) (array.rename names, q)) :
    Lockstep excused pardoned (set index value) (set index value) (array, p) (array.rename names, q)
      (fun _ _ => Onto allocator names rest room array fun _ => True)
      fun _ => Onto allocator names rest room array fun _ => True := by
  rw [set]
  refine .step (by rfl) (by rfl) ?_
  show Lockstep _ _ (if index < array.length then _ else _) (if index < array.length then _ else _)
    _ _ _ _
  split
  · rename_i inside
    refine Method.lockstep_lift ?_
    exact (fillFrom_tandem value beside.twins (array.mem_extents rest) rfl
      (bounds_one _ inside)).mono (fun _ _ _ _ => onto_of_twins) fun _ _ _ => False.elim
  · exact Action.lockstep_stop (beside.onto trivial)

theorem discard_tandem {excused pardoned : Failure → Process → Prop}
    (twins : Twins allocator names (array.holdings + rest) room p q) :
    Lockstep excused pardoned array.discard (array.rename names).discard p q
      (fun _ _ => Twins allocator names rest room) fun _ _ _ => False := by
  rw [holdings, Multiset.singleton_add] at twins
  rw [discard, discard]
  refine (Manager.free_tandem twins).bind (fun _ _ _ => False.elim) ?_
  exact fun _ _ _ _ twins => twins.release _

variable (bySize : allocator.BySize grants bound)
include bySize

theorem create_tandem (manager : Manager) (element : Layout) (length : Nat) (value : List UInt8)
    (twins : Twins allocator names rest (room + 1) p q) :
    Process.Tandem bound (create manager element length value) (create manager element length value) p q
      (fun array other p q => names.Onward rest fun later =>
        Beside allocator later rest room (array, p) (other, q))
      fun _ => Twins allocator names rest room := by
  rw [create]
  refine (Manager.allocateArray_tandem bySize manager element length twins).bind
    (fun _ _ _ left => left) ?_
  rintro a b p q ⟨keeps, twins⟩
  have renamed : ({ manager, block := b, element, length } : FlatArray) =
      rename (names.assign a b) { manager, block := a, element, length } := by
    rw [rename, Renaming.block_assign]
  dsimp only
  rw [renamed]
  refine (fillFrom_tandem value twins (Multiset.mem_cons_self _ _) rfl
    (bounds_all _ length)).bind (fun _ _ _ => False.elim) ?_
  intro _ _ p q twins
  refine (twins.retain manager).bind (fun _ _ _ => False.elim) ?_
  exact fun _ _ _ _ twins => ⟨_, keeps, beside_of_twins twins.2⟩

theorem resize_tandem (length : Nat) (value : List UInt8)
    (beside : Beside allocator names rest (room + 1) (array, p) (array.rename names, q)) :
    Method.Tandem bound (resize length value) (resize length value) (array, p) (array.rename names, q)
      (fun _ _ => Onto allocator names rest room array fun _ => True)
      fun _ => Onto allocator names rest room array fun _ => True := by
  have own := beside.twins
  rw [holdings, Multiset.singleton_add] at own
  have moves := Manager.reallocateArray_tandem bySize length
    (Eq.refl (array.element.size * array.length)) own
  rw [resize]
  refine .step (by rfl) (by rfl) ?_
  refine Method.lockstep_process moves (fun _ _ _ twins => (beside_of_twins twins).onto trivial) ?_
  rintro a b p q ⟨keeps, twins⟩
  have renamed : ({ array.rename names with block := b, length } : FlatArray) =
      rename (names.assign a b) { array with block := a, length } := by
    simp only [rename, Renaming.block_assign]
  dsimp only
  rw [renamed]
  refine Method.lockstep_process (fillFrom_tandem value twins (Multiset.mem_cons_self _ _) rfl
    (bounds_grown _ array.length length)) (fun _ _ _ => False.elim) ?_
  intro _ _ p q twins
  exact .last (by rfl) (by rfl) ((beside_of_twins twins).moved keeps trivial)

end FlatArray

end SymbolStore
