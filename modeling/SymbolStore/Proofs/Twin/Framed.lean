import SymbolStore.Proofs.Interner.Entry
import SymbolStore.Proofs.Twin.Calls
import SymbolStore.Proofs.Twin.Parallel

/-!
Processes with the same blocks, in which different bytes may be written. If the system does not look
at the bytes either, the calls of managers go alike in both.
-/

namespace SymbolStore

open SymbolStore.Action (Lockstep Respects)

/-- What the allocator may know of a block. -/
def Block.frame (block : Block) : Layout × Layout × Option Nat :=
  (block.layout, block.header, block.owner)

namespace Block

variable {block other : Block}

theorem size_of_frame (same : other.frame = block.frame) : other.size = block.size := by
  have layout : other.layout = block.layout := congrArg Prod.fst same
  rw [size, front, layout, size, front]

theorem frame_write (block : Block) (offset : Nat) (values : List UInt8) :
    (block.write offset values).frame = block.frame := by
  rw [frame, layout_write, header_write, owner_write, frame]

theorem frame_withHeader (same : other.frame = block.frame) (payload : Layout) :
    (other.withHeader payload).frame = (block.withHeader payload).frame := by
  simp only [frame, Prod.mk.injEq] at same
  simp only [frame, layout_withHeader, header_withHeader_mod, owner_withHeader, same]

end Block

structure Heap.Framed (here there : Heap) : Prop where
  frontier : there.frontier = here.frontier
  granted : there.granted = here.granted
  frames : ∀ address, (there.find? address).map Block.frame = (here.find? address).map Block.frame

/-- The system allocator decides without a look at what is written in blocks. -/
structure Allocator.Blind (allocator : Allocator) : Prop where
  place : ∀ {here there : Heap} (layout : Layout), here.Framed there →
    allocator.place there layout = allocator.place here layout
  move : ∀ {here there : Heap} (base : Nat) (layout : Layout) (size : Nat), here.Framed there →
    allocator.move there base layout size = allocator.move here base layout size

theorem Allocator.ascending_blind : ascending.Blind := by
  have above {here there : Heap} (layout : Layout) (framed : here.Framed there) :
      above there layout = above here layout := by
    rw [Allocator.above, Allocator.above, nextBase, nextBase, framed.frontier]
  exact ⟨above, fun _ layout size => above { layout with size }⟩

namespace Heap.Framed

variable {here there : Heap} {address : Nat}

theorem refl (heap : Heap) : heap.Framed heap := ⟨rfl, rfl, fun _ => rfl⟩

theorem cases (framed : here.Framed there) (address : Nat) :
    (here.find? address = none ∧ there.find? address = none) ∨
      ∃ block other, here.find? address = some block ∧ there.find? address = some other ∧
        other.frame = block.frame := by
  have frames := framed.frames address
  cases first : here.find? address with
  | none =>
      rw [first, Option.map_none, Option.map_eq_none_iff] at frames
      exact .inl ⟨rfl, frames⟩
  | some block =>
      rw [first, Option.map_some, Option.map_eq_some_iff] at frames
      obtain ⟨other, second, same⟩ := frames
      exact .inr ⟨block, other, rfl, second, same⟩

theorem insert (framed : here.Framed there) (address : Nat) (block : Block) :
    (here.insert address block).Framed (there.insert address block) where
  frontier := by rw [Heap.insert, Heap.insert, framed.frontier]
  granted := by rw [Heap.insert, Heap.insert, framed.granted]
  frames a := by
    rw [find?_insert, find?_insert]
    split
    · rfl
    · exact framed.frames a

theorem erase (framed : here.Framed there) (address : Nat) :
    (here.erase address).Framed (there.erase address) where
  frontier := framed.frontier
  granted := framed.granted
  frames a := by
    rw [find?_erase, find?_erase]
    split
    · rfl
    · exact framed.frames a

theorem modify (framed : here.Framed there) (address : Nat) {f g : Block → Block}
    (same : ∀ block other, other.frame = block.frame → (g other).frame = (f block).frame) :
    { here with blocks := here.blocks.modify address f }.Framed
      { there with blocks := there.blocks.modify address g } where
  frontier := framed.frontier
  granted := framed.granted
  frames a := by
    simp only [find?, getElem?_modify]
    split
    · rcases framed.cases a with ⟨first, second⟩ | ⟨block, other, first, second, frames⟩
      · rw [find?] at first second
        rw [first, second]
        rfl
      · rw [find?] at first second
        rw [first, second]
        exact congrArg some (same block other frames)
    · exact framed.frames a

theorem write (framed : here.Framed there) (place : Pointer) (values values' : List UInt8) :
    (here.write place values).Framed (there.write place values') := by
  apply framed.modify
  intro block other same
  rw [Block.frame_write, Block.frame_write, same]

theorem writeHeader (framed : here.Framed there) (address : Nat) (payload : Layout) :
    (here.writeHeader address payload).Framed (there.writeHeader address payload) :=
  framed.modify _ fun _ _ same => Block.frame_withHeader same payload

theorem give (framed : here.Framed there) (address owner : Nat) :
    (here.give address owner).Framed (there.give address owner) := by
  apply framed.modify
  intro block other same
  simp only [Block.frame, Prod.mk.injEq] at same ⊢
  exact ⟨same.1, same.2.1, trivial⟩

theorem covers (framed : here.Framed there) (pointer : Pointer) (count : Nat) :
    there.covers pointer count = here.covers pointer count := by
  unfold Heap.covers
  rcases framed.cases pointer.block with ⟨first, second⟩ | ⟨block, other, first, second, same⟩
  · rw [first, second]
  · rw [first, second, Option.any_some, Option.any_some, Block.size_of_frame same]

theorem trans {last : Heap} (first : here.Framed there) (second : there.Framed last) :
    here.Framed last where
  frontier := second.frontier.trans first.frontier
  granted := second.granted.trans first.granted
  frames a := (second.frames a).trans (first.frames a)

theorem written (heap : Heap) (place : Pointer) (values : List UInt8) :
    heap.Framed (heap.write place values) where
  frontier := rfl
  granted := rfl
  frames a := by
    rw [find?_write]
    split
    · cases heap.find? a with
      | none => rfl
      | some block => exact congrArg some (block.frame_write place.offset values)
    · rfl

theorem writtenEntry (heap : Heap) (layout : Layout) (entry : Pointer) (content : List UInt8)
    (hash : UInt64) (value : List UInt8) :
    heap.Framed (Entry.write heap layout entry content hash value) :=
  (((written heap _ _).trans (written _ _ _)).trans (written _ _ _)).trans (written _ _ _)

end Heap.Framed

/-- The processes differ in the bytes of their blocks only, and the system does not look at those. -/
def Process.Framed (p q : Process) : Prop :=
  p.allocator.Blind ∧ ∃ heap, p.heap.Framed heap ∧ q = { p with heap }

theorem Process.Framed.refl {p : Process} (blind : p.allocator.Blind) : p.Framed p :=
  ⟨blind, p.heap, .refl _, rfl⟩

def Process.Framing (_room : Nat) (p q : Process) : Prop := p.Framed q

theorem Process.Framed.store_lockstep {p q : Process} (framed : p.Framed q) (place : Pointer)
    {values values' : List UInt8} (size : values'.length = values.length) :
    Lockstep (fun _ _ => False) (fun _ _ => False) (Process.store place values)
      (Process.store place values') p q (fun _ _ => Process.Framed) fun _ => Process.Framed := by
  obtain ⟨blind, heap, framed, rfl⟩ := framed
  rw [Process.store, Process.store]
  refine .step (by rfl) (by rfl) ?_
  dsimp only
  rw [size, framed.covers]
  split
  · refine .last (runFrom_updateHeap _ _) (runFrom_updateHeap _ _) ?_
    exact ⟨blind, _, framed.write place values values', rfl⟩
  · exact Action.lockstep_throw ⟨blind, heap, framed, rfl⟩

section

variable {α : Type} {x : Action Process α} {c : Nat}

theorem respects_framing
    (step : ∀ p q, p.Framed q → Lockstep (fun _ _ => False) (fun _ _ => False) x x p q
      (fun a b p q => b = a ∧ p.Framed q) fun _ => Process.Framed) :
    Respects (fun _ => False) Process.Framing c x := by
  intro room p q framed
  refine (step p q framed).mono ?_ ?_
  · exact fun _ _ _ _ ends => ⟨ends.1, room, Nat.le_refl _, ends.2⟩
  · exact fun _ _ _ framed => ⟨room, Nat.le_refl _, framed⟩

theorem Process.Framed.lockstep {p q : Process} (framed : p.Framed q)
    (respects : Respects (fun _ => False) Process.Framing c x) :
    Lockstep (fun _ _ => False) (fun _ _ => False) x x p q (fun a b p q => b = a ∧ p.Framed q)
      fun _ => Process.Framed := by
  refine (respects 0 p q framed).mono ?_ ?_
  · rintro a b p q ⟨same, _, -, framed⟩
    exact ⟨same, framed⟩
  · rintro _ p q ⟨_, -, framed⟩
    exact framed

end

namespace Manager

variable {manager : Manager}

theorem release_framing : Respects (fun _ => False) Process.Framing 0 manager.release := by
  apply respects_framing
  rintro p _ ⟨blind, heap, framed, rfl⟩
  rw [release]
  refine .step (by rfl) (by rfl) ?_
  show Lockstep _ _ (if 1 < (manager.ledgerIn p).holders then _ else _)
    (if 1 < (manager.ledgerIn p).holders then _ else _) _ _ _ _
  split
  · refine .last (by rfl) (by rfl) ?_
    exact ⟨rfl, blind, heap, framed, rfl⟩
  · show Lockstep _ _ (if 0 < (manager.ledgerIn p).counters.liveBlocks then _ else _)
      (if 0 < (manager.ledgerIn p).counters.liveBlocks then _ else _) _ _ _ _
    split
    · refine .step (by rfl) (by rfl) (.last (by rfl) (by rfl) ?_)
      exact ⟨rfl, blind, heap, framed, rfl⟩
    · refine .last (by rfl) (by rfl) ?_
      exact ⟨rfl, blind, heap, framed, rfl⟩

theorem log_framing (level : Level) (origin : Origin) (text : Unit → String) :
    Respects (fun _ => False) Process.Framing 0 (Process.log level origin text) := by
  apply respects_framing
  rintro p _ ⟨blind, heap, framed, rfl⟩
  refine .last (by rfl) (by rfl) ?_
  exact ⟨rfl, blind, heap, framed, rfl⟩

theorem updateHeap_framing {f : Heap → Heap}
    (keeps : ∀ here there, here.Framed there → (f here).Framed (f there)) :
    Respects (fun _ => False) Process.Framing 0 (Process.updateHeap f) := by
  apply respects_framing
  rintro p _ ⟨blind, heap, framed, rfl⟩
  refine .last (by rfl) (by rfl) ?_
  exact ⟨rfl, blind, _, keeps _ _ framed, rfl⟩

theorem setLedger_framing (ledger : Ledger) :
    Respects (fun _ => False) Process.Framing 0 (manager.setLedger ledger) := by
  apply respects_framing
  rintro p _ ⟨blind, heap, framed, rfl⟩
  refine .last (by rfl) (by rfl) ?_
  exact ⟨rfl, blind, heap, framed, rfl⟩

theorem get_framing {f : Process → Action Process α} (same : ∀ p q, p.Framed q → f q = f p)
    (next : ∀ p, Respects (fun _ => False) Process.Framing c (f p)) :
    Respects (fun _ => False) Process.Framing c (get >>= f) := by
  intro room p q framed
  refine .step (by rfl) (by rfl) ?_
  rw [same p q framed]
  exact next p room p q framed

theorem store_framing (place : Pointer) (values : List UInt8) :
    Respects (fun _ => False) Process.Framing 0 (Process.store place values) := by
  apply respects_framing
  intro p q framed
  refine (framed.store_lockstep place rfl).mono ?_ fun _ _ _ left => left
  exact fun _ _ _ _ framed => ⟨rfl, framed⟩

theorem place_framing (payload whole : Layout) :
    Respects (fun _ => False) Process.Framing 0 (place payload whole) := by
  have granted : Respects (fun _ => False) Process.Framing 0 (System.allocate whole) := by
    rw [System.allocate]
    apply get_framing
    · rintro p _ ⟨blind, heap, framed, rfl⟩
      dsimp only
      rw [blind.place whole framed]
    · intro p
      split
      · exact Action.respects_pure _
      · apply (updateHeap_framing fun _ _ framed => framed.insert _ _).seq
        exact fun _ => Action.respects_pure _
  rw [place]
  apply granted.seq
  intro found
  cases found with
  | none => exact (log_framing _ _ _).seq fun _ => Action.respects_fail _
  | some base =>
    dsimp only
    rw [finishBlock]
    apply get_framing
    · rintro p _ ⟨-, heap, framed, rfl⟩
      rcases framed.cases (base + headerOffset payload.align) with
        ⟨here, there⟩ | ⟨block, other, here, there, -⟩ <;> simp only [here, there]
    · intro p
      split
      · apply (updateHeap_framing fun _ _ framed => framed.writeHeader _ _).seq
        exact fun _ => Action.respects_pure _
      · exact Action.respects_throw _

theorem checkPromise_framing (address : Nat) (size : Option Nat) :
    Respects (fun _ => False) Process.Framing 0 (manager.checkPromise address size) := by
  rw [checkPromise]
  apply get_framing (f := fun process => if (manager.ledgerIn process).isTracked then _ else _)
  · rintro p _ ⟨-, heap, framed, rfl⟩
    rfl
  intro p
  split
  · exact Action.respects_pure _
  apply get_framing
  · rintro p _ ⟨-, heap, framed, rfl⟩
    rcases framed.cases address with ⟨here, there⟩ | ⟨block, other, here, there, same⟩
    · simp only [here, there]
    · have owner : other.owner = block.owner := congrArg (fun frame => frame.2.2) same
      simp only [here, there, owner, Block.size_of_frame same]
  intro p
  split
  · split
    · exact Action.respects_pure _
    · exact Action.respects_throw _
  · exact Action.respects_throw _

/-- A block is given back by the header that it has on both sides. -/
theorem giveBack_framing (address : Nat) :
    Respects (fun _ => False) Process.Framing 0 (giveBack address) := by
  have readsHeader : Respects (fun _ => False) Process.Framing 0 (readHeader address) := by
    rw [readHeader]
    apply get_framing
    · rintro p _ ⟨-, heap, framed, rfl⟩
      rcases framed.cases address with ⟨here, there⟩ | ⟨block, other, here, there, same⟩
      · simp only [here, there]
      · have header : other.header = block.header := congrArg (fun frame => frame.2.1) same
        simp only [here, there, header]
    · intro p
      split
      · exact Action.respects_pure _
      · exact Action.respects_throw _
  rw [giveBack]
  apply readsHeader.seq
  intro payload
  rw [System.deallocate, System.blockAt, bind_assoc]
  apply get_framing
  · rintro p _ ⟨-, heap, framed, rfl⟩
    rcases framed.cases (address - headerOffset payload.align + headerOffset payload.whole.align)
      with ⟨here, there⟩ | ⟨block, other, here, there, same⟩
    · simp only [here, there]
    · have layout : other.layout = block.layout := congrArg Prod.fst same
      simp only [here, there, layout]
      split <;> rfl
  · intro p
    apply Action.Respects.seq
    · split
      · split
        · exact Action.respects_pure _
        · exact Action.respects_throw _
      · exact Action.respects_throw _
    · exact fun _ => updateHeap_framing fun _ _ framed => framed.erase _

end Manager

theorem Process.framing_elementary : Elementary (fun _ => False) Process.Framing where
  ledgers manager := by
    rintro ⟨-, heap, -, rfl⟩
    rfl
  logged := Manager.log_framing
  entered manager := Manager.setLedger_framing
  placed := Manager.place_framing
  given manager address := Manager.updateHeap_framing fun _ _ framed => framed.give address _
  promised manager := Manager.checkPromise_framing
  returned := Manager.giveBack_framing

/-- Managers do the same, whatever is written in the blocks. -/
theorem Process.framing_parallel :
    Parallel (fun _ => True) (fun _ => False) Process.Framing where
  number := by
    rintro _ p _ ⟨-, heap, -, rfl⟩
    rfl
  counted := by
    rintro _ p _ ⟨blind, heap, framed, rfl⟩
    exact ⟨blind, heap, framed, rfl⟩
  logged origin text _ := Manager.log_framing _ origin text
  stored := Manager.store_framing
  retain _ := Manager.retain_respects Process.framing_elementary _
  release _ := Manager.release_framing
  allocate payload _ :=
    (Manager.allocate_respects Process.framing_elementary _ payload).mono (Nat.zero_le _)
  free address _ := Manager.free_respects Process.framing_elementary _ address

end SymbolStore
