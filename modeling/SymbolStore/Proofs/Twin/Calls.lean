import SymbolStore.Memory.Manager
import SymbolStore.Proofs.Respects

/-!
What the calls of managers are made of. The calls that hand out blocks and take them back respect a
relation of processes if these parts do.
-/

namespace SymbolStore

open SymbolStore.Action (Respects)

/-- Managers have the same ledgers on both sides, and the parts of their calls respect the relation. -/
structure Elementary (excused : Failure → Prop) (rel : Nat → Process → Process → Prop) : Prop where
  ledgers {room : Nat} {p q : Process} (manager : Manager) :
    rel room p q → manager.ledgerIn q = manager.ledgerIn p
  logged (level : Level) (origin : Origin) (text : Unit → String) :
    Respects excused rel 0 (Process.log level origin text)
  entered (manager : Manager) (ledger : Ledger) : Respects excused rel 0 (manager.setLedger ledger)
  placed (payload whole : Layout) : Respects excused rel 0 (Manager.place payload whole)
  given (manager : Manager) (address : Nat) :
    Respects excused rel 0 (Process.updateHeap fun heap => heap.give address manager.id)
  promised (manager : Manager) (address : Nat) (size : Option Nat) :
    Respects excused rel 0 (manager.checkPromise address size)
  returned (address : Nat) : Respects excused rel 0 (Manager.giveBack address)

namespace Manager

variable {excused : Failure → Prop} {rel : Nat → Process → Process → Prop}
  (elementary : Elementary excused rel) {manager : Manager}
include elementary

theorem respects_ledger {α : Type} {f : Ledger → Action Process α} {c : Nat}
    (next : ∀ ledger, Respects excused rel c (f ledger)) :
    Respects excused rel c (manager.ledger >>= f) := by
  intro room p q related
  refine .step (by rfl) (by rfl) ?_
  rw [elementary.ledgers manager related]
  exact next _ room p q related

theorem checkBudget_respects (releasing requested : Nat) :
    Respects excused rel 0 (manager.checkBudget releasing requested) := by
  rw [checkBudget]
  refine respects_ledger elementary fun ledger => Action.respects_ofFault fun excess _ => ?_
  cases excess with
  | none => exact Action.respects_pure _
  | some pair => exact (elementary.logged _ _ _).seq fun _ => Action.respects_fail _

theorem enter_respects (entry : Ledger → Ledger × Option Fault) :
    Respects excused rel 0 (manager.enter entry) := by
  rw [enter]
  refine respects_ledger elementary fun ledger => ?_
  apply (elementary.entered manager _).seq
  intro _
  split
  · exact Action.respects_pure _
  · exact Action.respects_stop _

theorem whenTracked_respects {x : Action Process Unit} (respects : Respects excused rel 0 x) :
    Respects excused rel 0 (manager.whenTracked x) := by
  rw [whenTracked]
  refine respects_ledger elementary fun ledger => ?_
  split
  · exact respects
  · exact Action.respects_pure _

theorem recordedSize_respects (call : BlockCall) (address : Nat) :
    Respects excused rel 0 (manager.recordedSize call address) := by
  rw [recordedSize]
  refine respects_ledger elementary fun ledger => ?_
  split
  · exact Action.respects_pure _
  · exact Action.respects_stop _

variable (manager)

theorem allocate_respects (payload : Layout) :
    Respects excused rel 0 (manager.allocate payload) := by
  rw [allocate]
  apply (Action.respects_require _ _).seq
  intro _
  apply (whenTracked_respects elementary (checkBudget_respects elementary 0 _)).seq
  intro _
  apply Action.respects_ofError
  intro whole _
  apply (elementary.placed payload whole).seq
  intro address
  apply (whenTracked_respects elementary (enter_respects elementary _)).seq
  exact fun _ => (elementary.given manager address).seq fun _ => Action.respects_pure _

theorem free_respects (address : Nat) : Respects excused rel 0 (manager.free address) := by
  rw [free, strikeOut]
  refine Action.Respects.seq (respects_ledger elementary fun ledger => ?_) fun _ =>
    elementary.returned address
  split
  · apply (recordedSize_respects elementary .free address).seq
    exact fun _ => enter_respects elementary _
  · exact elementary.promised manager address none

theorem retain_respects : Respects excused rel 0 manager.retain := by
  rw [retain]
  exact respects_ledger elementary fun _ => elementary.entered manager _

end Manager

end SymbolStore
