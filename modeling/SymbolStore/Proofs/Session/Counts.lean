import SymbolStore.Proofs.Memory.Events
import SymbolStore.Proofs.Session.History
import SymbolStore.Proofs.Twin.Creations

/-!
What the managers of a session have counted. Whatever a session does to its process comes about by
calls of managers, by new managers, and by steps that managers do not count.
-/

namespace SymbolStore

open SymbolStore.Action (Ends Respects)

namespace Process

variable {start process after : Process} {events : List Event} {manager : Manager}

/-- The process has come about from the first one, and the other is the same. -/
def Passed (start : Process) (_room : Nat) (process other : Process) : Prop :=
  other = process ∧ ∃ events, start.Passes events process

section Steps

variable {α : Type} {x : Action Process α} {cost : Nat}

theorem respects_called {call : Manager → Action Process α} {answer : α → Option Nat}
    (request : Manager.Request) (calls : Manager.perform request = do
      let manager ← Method.self
      return answer (← call manager)) (manager : Manager) :
    Respects (fun _ => False) (Passed start) cost (call manager) := by
  refine Action.respects_self fun room process ⟨events, passes⟩ => ?_
  have later := passes.called manager request
  rw [calls, Action.runFrom_bind, Method.runFrom_self] at later
  dsimp only at later
  rw [Action.runFrom_bind, Method.runFrom_liftProcess] at later
  rw [Ends]
  rcases ran : (call manager).runFrom process with ⟨failure | a, after⟩
  all_goals
    rw [ran] at later
    exact ⟨_, later⟩

theorem respects_idle (idles : ∀ process, Ends x process (fun _ => process.Idles)
    fun _ => process.Idles) : Respects (fun _ => False) (Passed start) cost x :=
  Action.respects_self fun _ process ⟨_, passes⟩ => (idles process).mono
    (fun _ _ idle => ⟨_, passes.idled idle⟩) fun _ _ idle => ⟨_, passes.idled idle⟩

end Steps

theorem idles_of_ledgers (framed : process.heap.Framed after.heap)
    (same : after.ledgers = process.ledgers) : process.Idles after := by
  refine ⟨framed, fun manager ledger present => ?_⟩
  rw [same] at present
  exact ⟨ledger, present, rfl⟩

theorem idles_holders (holders : Nat) : process.Idles
    { process with ledgers := process.ledgers.modify manager.id fun _ =>
      { manager.ledgerIn process with holders } } := by
  refine ⟨.refl _, fun other ledger present => ?_⟩
  rcases Manager.modify_cases present with ⟨rfl, rfl, found⟩ | ⟨-, found⟩
  · exact ⟨_, found, rfl⟩
  · exact ⟨ledger, found, rfl⟩

theorem store_idles (place : Pointer) (values : List UInt8) : Ends (store place values) process
    (fun _ => process.Idles) fun _ => process.Idles := by
  apply (store_ends place values).mono
  · rintro _ _ rfl
    exact idles_of_ledgers (.written _ _ _) rfl
  · rintro _ _ ⟨-, rfl, -⟩
    exact idles_of_ledgers (.refl _) rfl

theorem retain_idles : Ends manager.retain process (fun _ => process.Idles)
    fun _ => process.Idles := by
  simp only [Manager.retain, Action.ends_bind, Manager.ends_ledger, Manager.ends_setLedger]
  exact idles_holders _

theorem release_idles : Ends manager.release process (fun _ => process.Idles)
    fun _ => process.Idles := by
  have ended (journal : Journal) : process.Idles
      { process with journal, ledgers := process.ledgers.erase manager.id } := by
    refine ⟨.refl _, fun other ledger present => ?_⟩
    rw [Std.TreeMap.getElem?_erase] at present
    split at present
    · cases present
    · exact ⟨ledger, present, rfl⟩
  rw [Manager.release, Action.ends_bind, Manager.ends_ledger]
  split
  · exact idles_holders _
  · dsimp only
    split
    · exact ended _
    · exact ended _

/-- Whatever is done to a process comes about by events. -/
theorem passed_complete (start : Process) : Complete (Passed start) where
  number := by
    rintro _ p _ ⟨rfl, -⟩
    rfl
  counted := by
    rintro _ p q ⟨rfl, events, passes⟩
    exact ⟨rfl, events, passes.idled (idles_of_ledgers (.refl q.heap) rfl)⟩
  logged origin text _ := respects_idle fun process => idles_of_ledgers (.refl _) rfl
  stored place values := respects_idle fun _ => store_idles place values
  retain _ := respects_idle fun process => retain_idles
  release _ := respects_idle fun process => release_idles
  allocate {manager} payload _ := respects_called (.allocate payload) rfl manager
  free {manager} address _ := respects_called (.free address) rfl manager
  heap := by
    rintro _ p _ ⟨rfl, -⟩
    rfl
  reallocate {manager} address oldSize newSize _ :=
    respects_called (.reallocate address oldSize newSize) rfl manager
  reallocateArray {manager} address element oldCount newCount _ :=
    respects_called (.reallocateArray address element oldCount newCount) rfl manager
  config := by
    rintro _ p _ ⟨rfl, -⟩
    rfl
  create config := Action.respects_self fun room process ⟨events, passes⟩ =>
    ⟨_, passes.made config⟩

end Process

namespace Session

variable {K V : Type} {session : Session K V}

/-- Whatever happens in a session from its start, directly or by structures, comes about by events of
its process. However it does, a tracked manager has then counted every call for memory that succeeded
since it was made, except those that resized a block to nothing. So it has counted all of them if and
only if there are none of those. Calls that failed and blocks that were taken back make no
difference. -/
theorem total_allocations_run (journal : Journal) (config : Config) (allocator : Allocator)
    (commands : List (Command K V)) :
    let first : Session K V := start journal config allocator
    let last := (first.performAll commands).2.process
    (∃ events, first.process.Passes events last) ∧
      ∀ events, first.process.Passes events last → ∀ (manager : Manager) (ledger : Ledger),
        last.ledgers[manager.id]? = some ledger → ledger.isTracked = true →
        ledger.counters.totalAllocations + Process.Event.emptied manager events =
            Process.Event.successes manager events ∧
          (ledger.counters.totalAllocations = Process.Event.successes manager events ↔
            Process.Event.emptied manager events = 0) := by
  intro first last
  have started : Abreast (fun _ => True) (Process.Passed first.process) 0 first first :=
    ⟨rfl, fun _ object _ => object.known_any, rfl, [], .start⟩
  have run := performAll_respects (Process.passed_complete first.process) id commands started
  obtain ⟨-, -, -, -, reached⟩ := run
  refine ⟨reached, fun events passes manager ledger present tracked => ?_⟩
  have fresh (id : Nat) : first.process.ledgers[id]? = none := Std.TreeMap.getElem?_emptyc
  have total := passes.total_add_emptied fresh present tracked
  exact ⟨total, by omega⟩

/-- A manager is asked for a block, for one with a wrong alignment, to resize the first one, for an
array of elements without size, and to take the first block back. -/
def countedRequests : List (Command Nat Nat) :=
  [.createManager "m" .tracked, .allocate "m" "p" ⟨8, 16⟩, .allocate "m" "q" ⟨8, 3⟩,
    .reallocate "m" "p" 8 24, .createArray "a" "m" ⟨0, 1⟩ 5 [], .free "m" "p"]

def countedProcess : Process := ((start {} {} .ascending).performAll countedRequests).2.process

theorem total_allocations_countedRequests :
    ∃ ledger, countedProcess.ledgers[0]? = some ledger ∧ ledger.isTracked = true ∧
      ledger.counters.totalAllocations = 3 ∧
      ∀ events, ({} : Process).Passes events countedProcess →
        3 + Process.Event.emptied ⟨0⟩ events = Process.Event.successes ⟨0⟩ events := by
  have evaluated : (countedProcess.ledgers[0]?).map
      (fun ledger => (ledger.isTracked, ledger.counters.totalAllocations)) = some (true, 3) := by
    decide +kernel
  obtain ⟨ledger, present, both⟩ := Option.map_eq_some_iff.mp evaluated
  obtain ⟨tracked, total⟩ : ledger.isTracked = true ∧ ledger.counters.totalAllocations = 3 :=
    Prod.ext_iff.mp both
  refine ⟨ledger, present, tracked, total, fun events passes => ?_⟩
  unfold countedProcess at passes present
  obtain ⟨counts, -⟩ := (total_allocations_run {} {} .ascending countedRequests).2 events passes ⟨0⟩
    ledger present tracked
  rwa [total] at counts

def newlyTracked : Process := ((Manager.create .tracked).runFrom {}).2

def blockHeld : Process := ((Manager.perform (.allocate ⟨8, 16⟩)).runFrom (⟨0⟩, newlyTracked)).2.2

def blockEmptied : Process := ((Manager.perform (.reallocate 65552 8 0)).runFrom (⟨0⟩, blockHeld)).2.2

/-- A tracked manager hands out a block and resizes it to nothing. Both calls succeed, and one is
counted. -/
theorem emptied_block_uncounted :
    ∃ events ledger, ({} : Process).Passes events blockEmptied ∧
      Process.Event.successes ⟨0⟩ events = 2 ∧ Process.Event.emptied ⟨0⟩ events = 1 ∧
      blockEmptied.ledgers[0]? = some ledger ∧ ledger.isTracked = true ∧
      ledger.counters.totalAllocations = 1 := by
  have first : ({} : Process).Passes [] {} := .start
  have passes := ((first.made .tracked).called ⟨0⟩ (.allocate ⟨8, 16⟩)).called ⟨0⟩
    (.reallocate 65552 8 0)
  have evaluated : (blockEmptied.ledgers[0]?).map
      (fun ledger => (ledger.isTracked, ledger.counters.totalAllocations)) = some (true, 1) := by
    decide +kernel
  obtain ⟨ledger, present, both⟩ := Option.map_eq_some_iff.mp evaluated
  obtain ⟨tracked, total⟩ := Prod.ext_iff.mp both
  exact ⟨_, ledger, passes, by decide +kernel, by decide +kernel, present, tracked, total⟩

end Session

end SymbolStore
