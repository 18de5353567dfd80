import SymbolStore.Proofs.Twin.Calls
import SymbolStore.Proofs.Twin.Structures

/-!
Processes that differ in their journals only. Nothing that is done in a process depends on the level
in effect or on what has been printed.
-/

namespace SymbolStore

open SymbolStore.Action (Lockstep Respects)

/-- A relation of journals that lasts, whatever is logged in both. -/
def Journal.Lasting (alike : Journal → Journal → Prop) : Prop :=
  ∀ (here there : Journal) level target text, alike here there →
    alike (here.log level target text) (there.log level target text)

/-- The same processes with journals that are alike. -/
def Process.Retold (alike : Journal → Journal → Prop) (_room : Nat) (p q : Process) : Prop :=
  q = { p with journal := q.journal } ∧ alike p.journal q.journal

variable {alike : Journal → Journal → Prop} {excused : Failure → Prop} {manager : Manager}

section Rules

variable {α : Type} {f : Process → Action Process α}

theorem respects_get (blind : ∀ p journal, f { p with journal } = f p)
    {c : Nat} (next : ∀ p, Respects excused (Process.Retold alike) c (f p)) :
    Respects excused (Process.Retold alike) c (get >>= f) := by
  intro room p q related
  refine .step (by rfl) (by rfl) ?_
  have same : f q = f p := by rw [related.1, blind]
  rw [same]
  exact next p room p q related

theorem respects_change {g : Process → Process}
    (blind : ∀ p journal, g { p with journal } = { g p with journal })
    (kept : ∀ p, (g p).journal = p.journal) :
    Respects excused (Process.Retold alike) 0 (modify g : Action Process Unit) := by
  rintro room p q ⟨same, related⟩
  have changed : g q = { g p with journal := q.journal } := by
    rw [same]
    exact blind p q.journal
  refine .last (by rfl) (by rfl) ⟨rfl, room, Nat.le_refl _, ?_, ?_⟩
  · rw [changed]
  · rw [changed, kept]
    exact related

end Rules

namespace Process.Retold

theorem updateHeap_respects (f : Heap → Heap) :
    Respects excused (Retold alike) 0 (Process.updateHeap f) :=
  respects_change (fun _ _ => rfl) fun _ => rfl

theorem store_respects (place : Pointer) (values : List UInt8) :
    Respects excused (Retold alike) 0 (Process.store place values) := by
  rw [Process.store]
  refine respects_get (fun _ _ => rfl) fun p => ?_
  split
  · exact updateHeap_respects _
  · exact Action.respects_throw _

theorem setLedger_respects (manager : Manager) (ledger : Ledger) :
    Respects excused (Retold alike) 0 (manager.setLedger ledger) :=
  respects_change (fun _ _ => rfl) fun _ => rfl

theorem finishBlock_respects (base : Nat) (payload : Layout) :
    Respects excused (Retold alike) 0 (Manager.finishBlock base payload) := by
  rw [Manager.finishBlock]
  refine respects_get (fun _ _ => rfl) fun p => ?_
  split
  · exact (updateHeap_respects _).seq fun _ => Action.respects_pure _
  · exact Action.respects_throw _

theorem readHeader_respects (address : Nat) :
    Respects excused (Retold alike) 0 (Manager.readHeader address) := by
  rw [Manager.readHeader]
  refine respects_get (fun _ _ => rfl) fun p => ?_
  split
  · exact Action.respects_pure _
  · exact Action.respects_throw _

theorem blockAt_respects (base : Nat) (layout : Layout) :
    Respects excused (Retold alike) 0 (System.blockAt base layout) := by
  rw [System.blockAt]
  refine respects_get (fun _ _ => rfl) fun p => ?_
  split
  · split
    · exact Action.respects_pure _
    · exact Action.respects_throw _
  · exact Action.respects_throw _

theorem systemAllocate_respects (layout : Layout) :
    Respects excused (Retold alike) 0 (System.allocate layout) := by
  rw [System.allocate]
  refine respects_get (fun _ _ => rfl) fun p => ?_
  split
  · exact Action.respects_pure _
  · exact (updateHeap_respects _).seq fun _ => Action.respects_pure _

theorem systemReallocate_respects (base : Nat) (layout : Layout) (size : Nat) :
    Respects excused (Retold alike) 0 (System.reallocate base layout size) := by
  rw [System.reallocate]
  apply (blockAt_respects base layout).seq
  intro block
  refine respects_get (fun _ _ => rfl) fun p => ?_
  split
  · exact Action.respects_pure _
  · exact (updateHeap_respects _).seq fun _ => Action.respects_pure _

theorem giveBack_respects (address : Nat) :
    Respects excused (Retold alike) 0 (Manager.giveBack address) := by
  rw [Manager.giveBack]
  apply (readHeader_respects address).seq
  intro payload
  rw [System.deallocate]
  exact (blockAt_respects _ _).seq fun _ => updateHeap_respects _

variable (lasting : Journal.Lasting alike)
include lasting

theorem log_respects (level : Level) (origin : Origin) (text : Unit → String) :
    Respects excused (Retold alike) 0 (Process.log level origin text) := by
  rintro room p q ⟨same, related⟩
  refine .last (by rfl) (by rfl) ⟨rfl, room, Nat.le_refl _, ?_, lasting _ _ _ _ _ related⟩
  show ({ q with journal := _ } : Process) = _
  rw [same]

theorem place_respects (payload whole : Layout) :
    Respects excused (Retold alike) 0 (Manager.place payload whole) := by
  rw [Manager.place]
  apply (systemAllocate_respects whole).seq
  intro base
  cases base with
  | none => exact (log_respects lasting _ _ _).seq fun _ => Action.respects_fail _
  | some base => exact finishBlock_respects base payload

omit lasting in
theorem checkPromise_respects (address : Nat) (size : Option Nat) :
    Respects excused (Retold alike) 0 (manager.checkPromise address size) := by
  rw [Manager.checkPromise, Manager.ledger, bind_map_left]
  refine respects_get (fun _ _ => rfl) fun p => ?_
  split
  · exact Action.respects_pure _
  · refine respects_get (fun _ _ => rfl) fun p => ?_
    split
    · split
      · exact Action.respects_pure _
      · exact Action.respects_throw _
    · exact Action.respects_throw _

theorem elementary : Elementary excused (Retold alike) where
  ledgers manager related := by
    rw [related.1]
    rfl
  logged := log_respects lasting
  entered := setLedger_respects
  placed := place_respects lasting
  given manager address := updateHeap_respects _
  promised manager := checkPromise_respects
  returned := giveBack_respects

theorem release_respects : Respects excused (Retold alike) 0 manager.release := by
  rw [Manager.release]
  refine Manager.respects_ledger (elementary lasting) fun ledger => ?_
  have ended : Respects excused (Retold alike) 0
      (modify fun process => { process with ledgers := process.ledgers.erase manager.id } :
        Action Process Unit) := respects_change (fun _ _ => rfl) fun _ => rfl
  split
  · exact setLedger_respects manager _
  · dsimp only
    split
    · exact (log_respects lasting _ _ _).seq fun _ => ended
    · exact ended

theorem checkResize_respects (address oldSize newSize : Nat) :
    Respects excused (Retold alike) 0 (manager.checkResize address oldSize newSize) := by
  have parts : Elementary excused (Retold alike) := elementary lasting
  rw [Manager.checkResize]
  refine Manager.respects_ledger parts fun ledger => ?_
  split
  · apply (Manager.recordedSize_respects parts .reallocate address).seq
    intro recorded
    split
    · exact Manager.checkBudget_respects parts oldSize newSize
    · exact Action.respects_stop _
  · exact checkPromise_respects address (some oldSize)

theorem relocate_respects (address : Nat) (whole payload newWhole : Layout) :
    Respects excused (Retold alike) 0 (Manager.relocate address whole payload newWhole) := by
  rw [Manager.relocate]
  apply (systemReallocate_respects _ whole newWhole.size).seq
  intro base
  cases base with
  | none => exact (log_respects lasting _ _ _).seq fun _ => Action.respects_fail _
  | some base => exact finishBlock_respects base payload

theorem reallocate_respects (address oldSize newSize : Nat) :
    Respects excused (Retold alike) 0 (manager.reallocate address oldSize newSize) := by
  rw [Manager.reallocate]
  apply (checkResize_respects lasting address oldSize newSize).seq
  intro _
  apply (readHeader_respects address).seq
  intro header
  refine Action.respects_ofError fun whole _ => Action.respects_ofError fun newWhole _ => ?_
  apply (relocate_respects lasting address whole _ newWhole).seq
  intro newAddress
  apply (Manager.whenTracked_respects (elementary lasting)
    (Manager.enter_respects (elementary lasting) _)).seq
  exact fun _ => Action.respects_pure _

theorem reallocateArray_respects (address : Nat) (element : Layout) (oldCount newCount : Nat) :
    Respects excused (Retold alike) 0
      (manager.reallocateArray address element oldCount newCount) := by
  rw [Manager.reallocateArray]
  apply (checkPromise_respects address _).seq
  intro _
  refine Action.respects_ofError fun oldBytes _ => Action.respects_ofError fun newBytes _ => ?_
  exact reallocate_respects lasting address oldBytes newBytes

omit lasting in
theorem create_respects (config : Config) :
    Respects excused (Retold alike) 0 (Manager.create config) := by
  rw [Manager.create]
  rintro room p q ⟨same, related⟩
  refine .step (by rfl) (by rfl) ?_
  refine .step (by rfl) (by rfl) ?_
  refine ⟨?_, room, Nat.le_refl _, ?_, related⟩
  · rw [same]
  · show ({ q with ledgers := _, nextManager := _ } : Process) = _
    rw [same]

theorem congruent : Congruent (fun _ => True) excused (Retold alike) where
  number related := by rw [related.1]
  counted related := ⟨by rw [related.1], related.2⟩
  logged origin text _ := log_respects lasting _ origin text
  stored place values := store_respects place values
  retain _ := Manager.retain_respects (elementary lasting) _
  release _ := release_respects lasting
  allocate payload _ :=
    (Manager.allocate_respects (elementary lasting) _ payload).mono (Nat.zero_le _)
  free address _ := Manager.free_respects (elementary lasting) _ address
  heap related := by rw [related.1]
  reallocate address oldSize newSize _ :=
    (reallocate_respects lasting address oldSize newSize).mono (Nat.zero_le _)
  reallocateArray address element oldCount newCount _ :=
    (reallocateArray_respects lasting address element oldCount newCount).mono (Nat.zero_le _)

end Process.Retold

end SymbolStore
