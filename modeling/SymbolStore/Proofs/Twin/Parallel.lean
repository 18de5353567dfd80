import SymbolStore.Proofs.Region.Operations
import SymbolStore.Proofs.Respects

/-!
Relations of processes that the calls of managers respect. Whatever regions do respects them too: a
region in one process and the same region in the other stay the same.
-/

namespace SymbolStore

open SymbolStore.Action (Ends Respects)

/-- The calls of the known managers respect the relation, and so do messages other than warnings and
writes to the heap. Handing out a block costs one. -/
structure Parallel (known : Manager → Prop) (excused : Failure → Prop)
    (rel : Nat → Process → Process → Prop) : Prop where
  number {room : Nat} {p q : Process} : rel room p q → q.nextRegion = p.nextRegion
  counted {room : Nat} {p q : Process} : rel room p q →
    rel room { p with nextRegion := p.nextRegion + 1 } { q with nextRegion := q.nextRegion + 1 }
  logged {level : Level} (origin : Origin) (text : Unit → String) : level ≠ .warn →
    Respects excused rel 0 (Process.log level origin text)
  stored (place : Pointer) (values : List UInt8) :
    Respects excused rel 0 (Process.store place values)
  retain {manager : Manager} : known manager → Respects (fun _ => False) rel 0 manager.retain
  release {manager : Manager} : known manager → Respects (fun _ => False) rel 0 manager.release
  allocate {manager : Manager} (payload : Layout) : known manager →
    Respects excused rel 1 (manager.allocate payload)
  free {manager : Manager} (address : Nat) : known manager →
    Respects excused rel 0 (manager.free address)

section

variable {known : Manager → Prop} {excused : Failure → Prop}
  {rel : Nat → Process → Process → Prop} {manager : Manager} (parallel : Parallel known excused rel)
include parallel

theorem Manager.allocateArray_respects (element : Layout) (count : Nat) (is : known manager) :
    Respects excused rel 1 (manager.allocateArray element count) := by
  rw [Manager.allocateArray]
  exact Action.respects_ofError fun bytes _ => parallel.allocate _ is

theorem Chunk.create_respects (capacity : Nat) (is : known manager) :
    Respects excused rel 1 (Chunk.create manager capacity) := by
  rw [Chunk.create]
  apply (parallel.allocate _ is).andThen
  intro block
  exact (parallel.logged .region _ (by decide)).seq fun _ => Action.respects_pure _

namespace Region

theorem create_respects (chunkSize : Nat) (is : known manager) :
    Respects excused rel 0 (create manager chunkSize) := by
  rw [create]
  apply (Action.respects_require _ _).seq
  intro _
  apply ((parallel.retain is).excusing excused).seq
  intro _ room p q related
  refine .step (by rfl) (by rfl) (.step (by rfl) (by rfl) ?_)
  refine ⟨?_, room, Nat.le_refl _, parallel.counted related⟩
  rw [parallel.number related]

omit parallel in
theorem manager_of_take {region taken : Region} {size i offset : Nat}
    (took : region.take size i offset = .ok taken) : taken.manager = region.manager := by
  obtain ⟨total, -, rfl⟩ := eq_of_take took
  rfl

abbrev Abreast (known : Manager → Prop) (rel : Nat → Process → Process → Prop) :=
  Method.Abreast (fun region : Region => known region.manager) rel

theorem grow_respects (range : Layout) :
    Respects excused (Abreast known rel) 1 (grow range) := by
  rw [grow]
  apply Method.respects_self
  intro region is
  dsimp only
  split
  · exact Action.respects_fail _
  · apply (Method.respects_lift (Chunk.create_respects parallel _ is)).andThen
    intro chunk
    apply Action.respects_ofFault
    intro place _
    cases place with
    | none =>
        apply (Method.respects_lift (parallel.free _ is)).seq
        exact fun _ => Action.respects_fail _
    | some offset =>
        apply Action.respects_ofFault
        intro taken took
        apply (Method.respects_update ?_).seq fun _ => Action.respects_pure _
        intro _ _
        rw [manager_of_take took]
        exact is

theorem allocate_respects (range : Layout) :
    Respects excused (Abreast known rel) 1 (allocate range) := by
  rw [allocate]
  apply (Action.respects_require _ _).seq
  intro _
  apply Method.respects_self
  intro region is
  apply Action.respects_ofFault
  rintro ⟨current, place⟩ _
  dsimp only
  refine (Method.respects_update ?_).seq fun _ => ?_
  · exact fun _ is => is
  cases place with
  | none => exact grow_respects parallel range
  | some offset =>
      apply Action.respects_ofFault
      intro taken took
      apply (Method.respects_update ?_).seq fun _ => Action.respects_pure _
      intro _ _
      rw [manager_of_take took]
      exact is

theorem store_respects (range : Layout) (content : Nat → UInt8) :
    Respects excused (Abreast known rel) 1 (store range content) := by
  rw [store]
  apply (allocate_respects parallel range).andThen
  intro place
  apply Method.respects_self
  intro region _
  exact (Method.respects_lift (parallel.stored _ _)).seq fun _ => Action.respects_pure _

theorem storeBytes_respects (bytes : List UInt8) :
    Respects excused (Abreast known rel) 1 (storeBytes bytes) := by
  rw [storeBytes]
  apply (allocate_respects parallel _).andThen
  intro place
  apply Method.respects_self
  intro region _
  exact (Method.respects_lift (parallel.stored _ _)).seq fun _ => Action.respects_pure _

theorem reset_respects : Respects excused (Abreast known rel) 0 reset := by
  rw [reset]
  apply Method.respects_self
  intro region is
  apply (Method.respects_lift (Action.respects_forM fun chunk _ => parallel.stored _ _)).seq
  intro _
  dsimp only
  refine (Method.respects_update ?_).seq fun _ => ?_
  · exact fun _ _ => is
  apply (Action.respects_ensure _ _).seq
  intro _
  refine (Method.respects_update ?_).seq fun _ => ?_
  · exact fun _ _ => is
  exact Method.respects_lift (parallel.logged .region _ (by decide))

theorem discard_respects {region : Region} (is : known region.manager) :
    Respects excused rel 0 region.discard := by
  rw [discard]
  apply (Action.respects_forM fun chunk _ => parallel.free _ is).seq
  exact fun _ => (parallel.release is).excusing excused

end Region

end

end SymbolStore
