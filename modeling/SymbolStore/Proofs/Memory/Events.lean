import SymbolStore.Proofs.Memory.Counted
import SymbolStore.Proofs.Twin.Framed

/-!
What happens to a process, as a list of events: managers are made and called. In between nothing
happens that a manager counts. So what a manager has counted can be told from the events.
-/

namespace SymbolStore

open SymbolStore.Action (Ends)

/-- Something that happens to a process and that concerns the blocks or the books of a manager. -/
inductive Process.Event
  | made (manager : Manager)
  | called (manager : Manager) (request : Manager.Request) (outcome : Except Failure (Option Nat))

/-- Nothing has become of the blocks but other bytes, and nothing of the books but that managers have
other holders or have ended. -/
structure Process.Idles (before after : Process) : Prop where
  heap : before.heap.Framed after.heap
  ledgers : ∀ (manager : Manager) (ledger : Ledger), after.ledgers[manager.id]? = some ledger →
    ∃ earlier, before.ledgers[manager.id]? = some earlier ∧
      ledger = { earlier with holders := ledger.holders }

/-- The process comes to the other one through these events. -/
inductive Process.Passes (start : Process) : List Process.Event → Process → Prop
  | start : Passes start [] start
  | made {events : List Process.Event} {process : Process} (config : Config)
      (earlier : Passes start events process) :
      Passes start (events ++ [.made ⟨process.nextManager⟩])
        ((Manager.create config).runFrom process).2
  | called {events : List Process.Event} {process : Process} (manager : Manager)
      (request : Manager.Request) (earlier : Passes start events process) :
      Passes start
        (events ++ [.called manager request
          ((Manager.perform request).runFrom (manager, process)).1])
        ((Manager.perform request).runFrom (manager, process)).2.2
  | idled {events : List Process.Event} {process later : Process} (idles : process.Idles later)
      (earlier : Passes start events process) : Passes start events later

namespace Process.Event

/-- Counts the calls of a manager that succeed and ask for something, from when it was made. -/
def tally (asks : Manager.Request → Bool) (manager : Manager) (sum : Nat) : Process.Event → Nat
  | made other => if other = manager then 0 else sum
  | called other request outcome =>
    if other = manager ∧ outcome.isOk ∧ asks request then sum + 1 else sum

def successes (manager : Manager) (events : List Process.Event) : Nat :=
  events.foldl (tally Manager.Request.obtains manager) 0

def emptied (manager : Manager) (events : List Process.Event) : Nat :=
  events.foldl (tally Manager.Request.empties manager) 0

variable {manager : Manager} {events : List Process.Event}

theorem successes_append (event : Event) : successes manager (events ++ [event]) =
    tally Manager.Request.obtains manager (successes manager events) event := by
  rw [successes, List.foldl_append]
  rfl

theorem emptied_append (event : Event) : emptied manager (events ++ [event]) =
    tally Manager.Request.empties manager (emptied manager events) event := by
  rw [emptied, List.foldl_append]
  rfl

/-- What a call adds to the tallies: a call that is counted succeeds and empties no block. -/
theorem tally_called (other : Manager) (request : Manager.Request)
    (outcome : Except Failure (Option Nat)) (total less : Nat) :
    tally Manager.Request.obtains manager (total + less) (.called other request outcome) =
      (total + if manager = other ∧ outcome.isOk then request.weight else 0) +
        tally Manager.Request.empties manager less (.called other request outcome) := by
  rw [tally, tally]
  by_cases served : manager = other ∧ outcome.isOk = true
  · obtain ⟨rfl, ok⟩ := served
    cases empties : request.empties with
    | true =>
        have obtains := Manager.Request.obtains_of_empties empties
        simp [Manager.Request.weight, ok, empties, obtains, Nat.add_assoc]
    | false =>
        cases obtains : request.obtains <;>
          simp [Manager.Request.weight, ok, empties, obtains, Nat.add_right_comm]
  · have apart (asks : Bool) : ¬ (other = manager ∧ outcome.isOk = true ∧ asks = true) :=
      fun all => served ⟨all.1.symm, all.2.1⟩
    rw [if_neg served, if_neg (apart _), if_neg (apart _), Nat.add_zero]

end Process.Event

namespace Process.Passes

variable {start process : Process} {events : List Process.Event}

theorem made_total {config : Config} {manager : Manager} {ledger : Ledger}
    (present : ((Manager.create config).runFrom process).2.ledgers[manager.id]? = some ledger) :
    ⟨process.nextManager⟩ = manager ∧ ledger.counters.totalAllocations = 0 ∨
      ⟨process.nextManager⟩ ≠ manager ∧ process.ledgers[manager.id]? = some ledger := by
  have inserted : (process.ledgers.insert process.nextManager { config })[manager.id]? =
      some ledger := present
  rw [Std.TreeMap.getElem?_insert] at inserted
  by_cases same : process.nextManager = manager.id
  · rw [if_pos (by simpa using same)] at inserted
    cases inserted
    exact .inl ⟨Manager.eq_of_id same, rfl⟩
  · rw [if_neg (by simpa using same)] at inserted
    exact .inr ⟨fun equal => same (congrArg Manager.id equal), inserted⟩

theorem called_total (other : Manager) (request : Manager.Request) {manager : Manager}
    {ledger : Ledger} (present :
      ((Manager.perform request).runFrom (other, process)).2.2.ledgers[manager.id]? = some ledger) :
    ∃ earlier, process.ledgers[manager.id]? = some earlier ∧ ledger.config = earlier.config ∧
      ledger.counters.totalAllocations = earlier.counters.totalAllocations +
        if manager = other ∧ earlier.isTracked ∧
          ((Manager.perform request).runFrom (other, process)).1.isOk then request.weight else 0 := by
  have ends : Ends (Manager.perform request) (other, process) _ _ := Manager.perform_counts request
  rw [Ends] at ends
  rcases ran : (Manager.perform request).runFrom (other, process) with ⟨outcome, after⟩
  rw [ran] at ends present
  cases outcome with
  | ok answer =>
      obtain ⟨earlier, found, config, total⟩ := ends manager ledger present
      refine ⟨earlier, found, config, ?_⟩
      simpa [Except.isOk, Except.toBool] using total
  | error failure =>
      obtain ⟨earlier, found, config, total⟩ := ends manager ledger present
      refine ⟨earlier, found, config, ?_⟩
      simpa [Except.isOk, Except.toBool] using total

/-- At any time a tracked manager has counted every allocation and
every resize that succeeded since it was made, except those to nothing. -/
theorem total_add_emptied (fresh : ∀ id : Nat, start.ledgers[id]? = none)
    (passes : start.Passes events process) {manager : Manager} {ledger : Ledger}
    (present : process.ledgers[manager.id]? = some ledger) (tracked : ledger.isTracked = true) :
    ledger.counters.totalAllocations + Event.emptied manager events =
      Event.successes manager events := by
  induction passes generalizing ledger with
  | start =>
      rw [fresh] at present
      cases present
  | @made events process config earlier ih =>
      rw [Event.emptied_append, Event.successes_append, Event.tally, Event.tally]
      rcases made_total present with ⟨same, none⟩ | ⟨different, before⟩
      · rw [if_pos same, if_pos same, none]
      · rw [if_neg different, if_neg different]
        exact ih before tracked
  | @called events process other request earlier ih =>
      obtain ⟨before, found, config, total⟩ := called_total other request present
      have was : before.isTracked = true := by
        rw [Ledger.isTracked, ← config]
        exact tracked
      rw [Event.emptied_append, Event.successes_append, ← ih found was, Event.tally_called, total]
      simp only [was, true_and]
  | idled idles earlier ih =>
      obtain ⟨before, found, same⟩ := idles.ledgers manager ledger present
      have counters : ledger.counters = before.counters := by rw [same]
      have config : ledger.config = before.config := by rw [same]
      rw [Ledger.isTracked, config] at tracked
      rw [counters]
      exact ih found tracked

end Process.Passes

end SymbolStore
