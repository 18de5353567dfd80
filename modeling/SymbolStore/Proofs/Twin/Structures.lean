import SymbolStore.Dictionary.Basic
import SymbolStore.Interner.Basic
import SymbolStore.Memory.FlatArray
import SymbolStore.Proofs.Twin.Parallel

/-!
Arrays, interners and dictionaries in two processes with the same blocks. Whatever is done to one of
them respects the relation of the processes.
-/

namespace SymbolStore

open SymbolStore.Action (Ends Respects)

variable {known : Manager → Prop} {excused : Failure → Prop}
  {rel : Nat → Process → Process → Prop} {manager : Manager} {process : Process}

namespace BucketArray

variable {α : Type}

theorem create_respects (parallel : Parallel known excused rel) (capacity : Nat)
    (is : known manager) :
    Respects excused rel 1 (create manager capacity : Action Process (BucketArray α)) := by
  rw [create]
  exact (manager.allocateArray_respects parallel _ _ is).andThen fun _ => Action.respects_pure _

theorem rehashed_respects (parallel : Parallel known excused rel) (array : BucketArray α)
    (table : Rehash) (hashOf : α → UInt64) (capacity : Nat) (is : known manager) :
    Respects excused rel 1 (array.rehashed manager table hashOf capacity) := by
  rw [rehashed]
  apply (manager.allocateArray_respects parallel _ _ is).andThen
  exact fun block => Action.respects_ofFault fun buckets _ => Action.respects_pure _

end BucketArray

theorem Region.create_owner (chunkSize : Nat) :
    Ends (create manager chunkSize) process
      (fun region _ => region.chunks = [] ∧ region.manager = manager) fun _ _ => True := by
  rw [create]
  refine Ends.after fun _ _ => Ends.after fun _ _ => ?_
  exact ⟨rfl, rfl⟩

theorem Interner.create_respects (parallel : Parallel known excused rel) (requested : Nat)
    (value : Layout) (hasher : List UInt8 → UInt64) (is : known manager) :
    Respects excused rel 1 (create manager requested value hasher) := by
  rw [create]
  apply (Action.respects_require _ _).seq
  intro _
  refine ((Region.create_respects parallel _ is).knowing (fun process => Region.create_owner _) ?_).mono
    (Nat.le_of_eq (Nat.zero_add 1))
  rintro region ⟨none, rfl⟩
  refine Respects.andThen (Respects.onFailure ?_ ?_) fun table => ?_
  · exact Action.respects_ofFault fun _ _ => BucketArray.create_respects parallel _ is
  · rw [Region.discard, none]
    exact (Action.respects_pure _).seq fun _ => parallel.release is
  · exact ((parallel.retain is).excusing excused).seq fun _ => Action.respects_pure _

theorem Interner.create_owner (requested : Nat) (value : Layout)
    (hasher : List UInt8 → UInt64) :
    Ends (create manager requested value hasher) process
      (fun interner _ => interner.manager = manager ∧ interner.region.manager = manager)
      fun _ _ => True := by
  rw [create]
  refine Ends.after fun _ process => ?_
  apply (Region.create_owner _).bind fun _ _ _ => trivial
  intro region _ owner
  exact Ends.after fun _ _ => Ends.after fun _ _ => ⟨rfl, owner.2⟩

theorem FlatArray.create_owner (element : Layout) (length : Nat) (value : List UInt8) :
    Ends (create manager element length value) process (fun array _ => array.manager = manager)
      fun _ _ => True := by
  rw [create]
  refine Ends.after fun block _ => Ends.after fun _ _ => Ends.after fun _ _ => ?_
  exact rfl

theorem Dictionary.create_owner {K V : Type} (requested : Nat) (rule : KeyRule K) (node : Layout) :
    Ends (create manager requested rule node : Action Process (Dictionary K V)) process
      (fun dictionary _ => dictionary.manager = manager) fun _ _ => True := by
  rw [create]
  refine Ends.after fun _ _ => Ends.after fun _ _ => Ends.after fun _ _ => Ends.after fun _ _ => ?_
  exact rfl

/-- A relation of processes with the same blocks, in which also the calls that resize blocks go
alike. -/
structure Congruent (known : Manager → Prop) (excused : Failure → Prop)
    (rel : Nat → Process → Process → Prop) : Prop extends Parallel known excused rel where
  heap {room : Nat} {p q : Process} : rel room p q → q.heap = p.heap
  reallocate {manager : Manager} (address oldSize newSize : Nat) :
    known manager → Respects excused rel 1 (manager.reallocate address oldSize newSize)
  reallocateArray {manager : Manager} (address : Nat) (element : Layout) (oldCount newCount : Nat) :
    known manager → Respects excused rel 1
      (manager.reallocateArray address element oldCount newCount)

section Congruent

variable (congruent : Congruent known excused rel)
include congruent

namespace Congruent

variable {O α : Type} {P : O → Prop}

theorem respects_heap {f : Heap → Method O α} {cost : Nat}
    (next : ∀ heap, Respects excused (Method.Abreast P rel) cost (f heap)) :
    Respects excused (Method.Abreast P rel) cost (Method.heap >>= f) := by
  rintro room ⟨o, p⟩ ⟨o', q⟩ ⟨same, is, related⟩
  obtain rfl : o = o' := same.symm
  refine .step (by rfl) (by rfl) ?_
  show Action.Lockstep (fun failure _ => excused failure) (fun _ _ => False) (f p.heap) (f q.heap) _ _ _ _
  rw [congruent.heap related]
  exact next _ room (o, p) (o, q) ⟨rfl, is, related⟩

end Congruent

namespace FlatArray

abbrev Abreast (known : Manager → Prop) (rel : Nat → Process → Process → Prop) :=
  Method.Abreast (fun array : FlatArray => known array.manager) rel

theorem create_respects (element : Layout) (length : Nat) (value : List UInt8)
    (is : known manager) : Respects excused rel 1 (create manager element length value) := by
  rw [create]
  apply (manager.allocateArray_respects congruent.toParallel _ _ is).andThen
  intro block
  apply (congruent.stored _ _).seq
  intro _
  exact ((congruent.retain is).excusing excused).seq fun _ => Action.respects_pure _

theorem resize_respects (length : Nat) (value : List UInt8) :
    Respects excused (Abreast known rel) 1 (resize length value) := by
  rw [resize]
  apply Method.respects_self
  intro array is
  apply (Method.respects_lift (congruent.reallocateArray _ _ _ _ is)).andThen
  intro block
  apply (Method.respects_lift (congruent.stored _ _)).seq
  exact fun _ => Method.respects_update fun _ _ => is

theorem fill_respects (value : List UInt8) : Respects excused (Abreast known rel) 0 (fill value) := by
  rw [fill]
  apply Method.respects_self
  exact fun array _ => Method.respects_lift (congruent.stored _ _)

theorem get_respects (index : Nat) : Respects excused (Abreast known rel) 0 (get index) := by
  rw [get]
  apply Method.respects_self
  intro array _
  split
  · exact congruent.respects_heap fun _ => Action.respects_pure _
  · exact Action.respects_stop _

theorem set_respects (index : Nat) (value : List UInt8) :
    Respects excused (Abreast known rel) 0 (set index value) := by
  rw [set]
  apply Method.respects_self
  intro array _
  split
  · exact Method.respects_lift (congruent.stored _ _)
  · exact Action.respects_stop _

theorem discard_respects {array : FlatArray} (is : known array.manager) :
    Respects excused rel 0 array.discard := by
  rw [discard]
  exact (congruent.free _ is).seq fun _ => (congruent.release is).excusing excused

end FlatArray

namespace Interner

def Known (known : Manager → Prop) (interner : Interner) : Prop :=
  known interner.manager ∧ known interner.region.manager

abbrev Abreast (known : Manager → Prop) (rel : Nat → Process → Process → Prop) :=
  Method.Abreast (Interner.Known known) rel

omit congruent in
theorem ofRegion_respects {α : Type} {x : Method Region α} {cost : Nat}
    (respects : Respects excused (Region.Abreast known rel) cost x) :
    Respects excused (Abreast known rel) cost (ofRegion x) :=
  Method.respects_part respects (fun _ is => is.2) fun _ _ is kept => ⟨is.1, kept⟩

theorem grow_respects : Respects excused (Abreast known rel) 1 grow := by
  rw [grow]
  apply Method.respects_self
  intro interner is
  apply congruent.respects_heap
  intro heap
  apply Action.respects_ofFault
  intro required _
  apply (Method.respects_lift
    (BucketArray.rehashed_respects congruent.toParallel _ _ _ _ is.1)).andThen
  intro table
  apply (Method.respects_lift (congruent.logged .interner _ (by decide))).seq
  intro _
  refine (Method.respects_update ?_).seq fun _ => ?_
  · exact fun _ is => is
  · exact Method.respects_lift (congruent.free _ is.1)

theorem vacancy_respects (hash : UInt64) (fuel : Nat) :
    Respects excused (Abreast known rel) fuel (vacancy hash fuel) := by
  induction fuel with
  | zero => exact Action.respects_stop _
  | succ fuel ih =>
      rw [vacancy]
      apply Method.respects_self
      intro interner _
      apply Action.respects_ofFault
      intro found _
      cases found with
      | some index => exact Action.respects_pure _
      | none => exact ((grow_respects congruent).bind fun _ => ih).mono (Nat.le_of_eq (Nat.add_comm 1 fuel))

theorem store_respects (layout : Layout) (entry : Pointer) (content : List UInt8) (hash : UInt64)
    (value : List UInt8) :
    Respects excused rel 0 (Entry.store layout entry content hash value) := by
  rw [Entry.store]
  apply (congruent.stored _ _).seq
  intro _
  apply (congruent.stored _ _).seq
  intro _
  exact (congruent.stored _ _).seq fun _ => congruent.stored _ _

theorem storeEntry_respects (content : List UInt8) (hash : UInt64) (value : List UInt8) :
    Respects excused (Abreast known rel) 1 (storeEntry content hash value) := by
  rw [storeEntry]
  apply Method.respects_self
  intro interner _
  dsimp only
  split
  · exact Action.respects_fail _
  · apply (ofRegion_respects (Region.allocate_respects congruent.toParallel _)).andThen
    intro place
    apply Method.respects_self
    intro later _
    apply (Method.respects_lift (store_respects congruent _ _ _ _ _)).seq
    exact fun _ => Action.respects_pure _

theorem insertNew_respects (content : List UInt8) (hash : UInt64) (value : List UInt8) :
    Respects excused (Abreast known rel) 66 (insertNew content hash value) := by
  rw [insertNew]
  apply (vacancy_respects congruent hash 65).bind (d := 1)
  intro index
  apply (storeEntry_respects congruent content hash value).andThen
  intro entry
  apply Method.respects_self
  intro interner _
  apply Action.respects_ofFault
  intro count _
  refine (Method.respects_update ?_).seq fun _ => ?_
  · exact fun _ is => is
  · exact Method.respects_self fun _ _ => Action.respects_pure _

theorem insert_respects (content value : List UInt8) :
    Respects excused (Abreast known rel) 67 (insert content value) := by
  rw [insert]
  apply Method.respects_self
  intro interner _
  apply congruent.respects_heap
  intro heap
  apply Action.respects_ofFault
  intro found _
  cases found with
  | some entry => exact Action.respects_pure _
  | none =>
      apply Action.respects_ofFault
      intro used _
      have inserts := insertNew_respects congruent content (interner.hasher content) value
      split
      · apply (grow_respects congruent).bind (d := 66)
        exact fun _ => inserts.andThen fun _ => Action.respects_pure _
      · exact (inserts.andThen fun _ => Action.respects_pure _).mono (by decide)

theorem setValue_respects (symbol : Symbol) (value : List UInt8) :
    Respects excused (Abreast known rel) 0 (setValue symbol value) := by
  rw [setValue]
  apply Method.respects_self
  intro interner _
  split
  · exact Action.respects_pure _
  · exact (Method.respects_lift (congruent.stored _ _)).seq fun _ => Action.respects_pure _

theorem clear_respects : Respects excused (Abreast known rel) 0 clear := by
  rw [clear]
  apply (ofRegion_respects (Region.reset_respects congruent.toParallel)).seq
  intro _
  refine (Method.respects_update ?_).seq fun _ => ?_
  · exact fun _ is => is
  · apply Method.respects_self
    exact fun _ _ => Method.respects_lift (congruent.logged .interner _ (by decide))

theorem discard_respects {interner : Interner} (is : interner.Known known) :
    Respects excused rel 0 interner.discard := by
  rw [discard]
  apply (Region.discard_respects congruent.toParallel is.2).seq
  intro _
  exact (congruent.free _ is.1).seq fun _ => (congruent.release is.1).excusing excused

end Interner

end Congruent

variable (parallel : Parallel known excused rel)
include parallel

namespace Dictionary

variable {K V : Type}

abbrev Abreast (known : Manager → Prop) (rel : Nat → Process → Process → Prop) :=
  Method.Abreast (fun dictionary : Dictionary K V => known dictionary.manager) rel

theorem create_respects (requested : Nat) (rule : KeyRule K) (node : Layout) (is : known manager) :
    Respects excused rel 1 (create manager requested rule node : Action Process (Dictionary K V)) := by
  rw [create]
  apply (Action.respects_require _ _).seq
  intro _
  apply Action.respects_ofFault
  intro capacity _
  apply (BucketArray.create_respects parallel _ is).andThen
  intro table
  exact ((parallel.retain is).excusing excused).seq fun _ => Action.respects_pure _

theorem rebuild_respects :
    Respects excused (Abreast known rel) 1 (rebuild : Method (Dictionary K V) Unit) := by
  rw [rebuild]
  apply Method.respects_self
  intro dictionary is
  apply Action.respects_ofFault
  intro capacity _
  apply (Method.respects_lift
    (BucketArray.rehashed_respects parallel _ _ _ _ is)).andThen
  intro table
  apply (Method.respects_lift (parallel.logged .dictionary _ (by decide))).seq
  intro _
  refine (Method.respects_update ?_).seq fun _ => ?_
  · exact fun _ is => is
  · exact Method.respects_lift (parallel.free _ is)

theorem storeAt_respects (index : Nat) (hash : UInt64) (key : K) (value : V) :
    Respects excused (Abreast known rel) 1 (storeAt index hash key value) := by
  rw [storeAt]
  apply Method.respects_self
  intro dictionary is
  apply (Method.respects_lift
    (dictionary.manager.allocateArray_respects parallel _ _ is)).andThen
  intro block
  have enters (deleted : Nat) : Respects excused (Abreast known rel) 0
      (do
        let count ← Word.add dictionary.count 1
        Method.update fun dictionary => { dictionary with
          table := dictionary.table.put index (.occupied { block, hash, key, value })
          count
          deleted } : Method (Dictionary K V) Unit) :=
    Action.respects_ofFault fun count _ => Method.respects_update fun _ is => is
  dsimp only
  split
  · exact Action.respects_ofFault fun deleted _ => enters deleted
  · exact (Action.respects_pure _).seq enters

omit parallel in
theorem replaceAt_respects (index : Nat) (value : V) :
    Respects excused (Abreast known rel) 0 (replaceAt index value : Method (Dictionary K V) V) := by
  rw [replaceAt]
  apply Method.respects_self
  intro dictionary _
  split
  · refine (Method.respects_update ?_).seq fun _ => Action.respects_pure _
    exact fun _ is => is
  · exact Action.respects_stop _

theorem storeRebuilt_respects (hash : UInt64) (key : K) (value : V) :
    Respects excused (Abreast known rel) 2 (storeRebuilt hash key value) := by
  rw [storeRebuilt]
  apply (rebuild_respects parallel).bind (d := 1)
  intro _
  apply Method.respects_self
  intro dictionary _
  apply Action.respects_ofFault
  intro found _
  cases found with
  | some index => exact storeAt_respects parallel index hash key value
  | none => exact Action.respects_stop _

theorem set_respects (key : K) (value : V) :
    Respects excused (Abreast known rel) 2 (set key value) := by
  rw [set]
  apply Method.respects_self
  intro dictionary _
  apply Action.respects_ofFault
  intro searched _
  have rebuilt := storeRebuilt_respects parallel (dictionary.rule.hash key) key value
  split
  · apply Respects.mono (c := 0) _ (by decide)
    exact (replaceAt_respects _ _).seq fun _ => Action.respects_pure _
  · apply Action.respects_ofFault
    intro present _
    apply Action.respects_ofFault
    intro used _
    dsimp only
    split
    · exact rebuilt.andThen fun _ => Action.respects_pure _
    · apply Respects.mono (c := 1) _ (by decide)
      exact (storeAt_respects parallel _ _ _ _).andThen fun _ => Action.respects_pure _
  · exact rebuilt.andThen fun _ => Action.respects_pure _

omit parallel in
theorem modify_respects (key : K) (f : V → V) :
    Respects excused (Abreast known rel) 0 (modify key f) := by
  rw [modify]
  apply Method.respects_self
  intro dictionary _
  apply Action.respects_ofFault
  intro found _
  split
  · exact (replaceAt_respects _ _).seq fun _ => Action.respects_pure _
  · exact Action.respects_pure _

theorem remove_respects (key : K) :
    Respects excused (Abreast known rel) 0 (remove key : Method (Dictionary K V) (Option V)) := by
  rw [remove]
  apply Method.respects_self
  intro dictionary is
  apply Action.respects_ofFault
  intro found _
  split
  · exact Action.respects_pure _
  · apply Action.respects_ofFault
    intro count _
    apply Action.respects_ofFault
    intro deleted _
    have freed (block : Nat) (value : V) (_ : PUnit) : Respects excused (Abreast known rel) 0
        (do
          dictionary.manager.free block
          return some value : Method (Dictionary K V) (Option V)) :=
      (Method.respects_lift (parallel.free _ is)).seq fun _ => Action.respects_pure _
    dsimp only
    split
    · refine (Method.respects_update ?_).seq (freed _ _)
      exact fun _ is => is
    · refine (Method.respects_update ?_).seq (freed _ _)
      exact fun _ is => is

theorem clear_respects :
    Respects excused (Abreast known rel) 0 (clear : Method (Dictionary K V) Unit) := by
  rw [clear]
  apply Method.respects_self
  intro dictionary is
  apply (Method.respects_lift (Action.respects_forM fun _ _ => parallel.free _ is)).seq
  exact fun _ => Method.respects_update fun _ is => is

theorem discard_respects {dictionary : Dictionary K V} (is : known dictionary.manager) :
    Respects excused rel 0 dictionary.discard := by
  rw [discard]
  apply (Action.respects_forM fun _ _ => parallel.free _ is).seq
  intro _
  exact (parallel.free _ is).seq fun _ => (parallel.release is).excusing excused

end Dictionary

end SymbolStore
