import SymbolStore.Proofs.Session.Perform

/-!
Runs of requests to a session, with the blocks that the client has meanwhile. In a run from the
start every request finds the session settled and leaves it so.
-/

namespace SymbolStore

open SymbolStore.Action (Ends)

/-- A request in a run, with the blocks that the client had before it. -/
structure Event (K V : Type) where
  before : Session K V
  direct : Multiset Extent
  command : Command K V
  outcome : Except Failure (Answer K V)
  after : Session K V

variable {K V : Type}

namespace Event

def claimed (event : Event K V) : Multiset Extent :=
  match event.outcome with
  | .ok answer => event.command.claims event.before answer event.direct
  | .error _ => event.direct

/-- The request failed for nobody's misuse of a block, unless it was one for a block of the
client. -/
def Blameless (event : Event K V) : Prop :=
  event.command.isDirect = false →
    ∀ failure, event.outcome = .error failure → failure.isMisuse = false

structure Lawful (event : Event K V) : Prop where
  settled : event.before.Settled event.direct
  proper : event.before.Proper event.command
  performed : (Session.perform event.command).runFrom event.before = (event.outcome, event.after)
  follows : event.before.Follows event.direct event.claimed event.command.place? event.after
  blameless : event.Blameless

end Event

namespace Session

def start (journal : Journal) (config : Config) (allocator : Allocator) : Session K V :=
  { process := { journal, config, allocator } }

def event (session : Session K V) (direct : Multiset Extent) (command : Command K V) : Event K V where
  before := session
  direct
  command
  outcome := ((perform command).runFrom session).1
  after := ((perform command).runFrom session).2

def history (session : Session K V) (direct : Multiset Extent) :
    List (Command K V) → List (Event K V)
  | [] => []
  | command :: commands =>
    let event := session.event direct command
    event :: history event.after event.claimed commands

variable {session : Session K V} {direct : Multiset Extent} {commands : List (Command K V)}

theorem history_cons (session : Session K V) (direct : Multiset Extent) (command : Command K V)
    (commands : List (Command K V)) :
    session.history direct (command :: commands) = session.event direct command ::
      (session.event direct command).after.history (session.event direct command).claimed commands :=
  rfl

/-- The run of requests is the one that the program makes. -/
theorem history_outcomes (session : Session K V) (direct : Multiset Extent)
    (commands : List (Command K V)) :
    (session.history direct commands).map Event.outcome = (performAll session commands).1 := by
  induction commands generalizing session direct with
  | nil => rfl
  | cons command commands ih => exact congrArg _ (ih _ _)

theorem Settled.lawful_event (settled : session.Settled direct) {command : Command K V}
    (proper : session.Proper command) : (session.event direct command).Lawful := by
  have fulfilled := settled.fulfils proper
  rw [Fulfils] at fulfilled
  have outcomes := (Action.ends_outcome (P := fun outcome later =>
    session.Follows direct (Event.claimed ⟨session, direct, command, outcome, later⟩) command.place? later ∧
      Event.Blameless ⟨session, direct, command, outcome, later⟩)).mp (fulfilled.mono ?_ ?_)
  · exact ⟨settled, proper, rfl, outcomes.1, outcomes.2⟩
  · intro answer later follows
    refine ⟨follows, ?_⟩
    intro _ failure same
    cases same
  · intro failure later failed
    refine ⟨failed.2, ?_⟩
    intro indirect other same
    cases same
    exact failed.1 indirect

/-- Requests one after the other, each of which did what it should. -/
inductive Runs : Session K V → List (Event K V) → Prop
  | nil (session : Session K V) : Runs session []
  | cons {session : Session K V} {event : Event K V} {events : List (Event K V)}
      (starts : event.before = session) (lawful : event.Lawful) (rest : Runs event.after events) :
      Runs session (event :: events)

/-- The session when these requests have been carried out. -/
def through (session : Session K V) : List (Event K V) → Session K V
  | [] => session
  | event :: events => event.after.through events

variable {earlier later events : List (Event K V)} {event : Event K V}

theorem Runs.lawful (runs : session.Runs events) : ∀ event ∈ events, event.Lawful := by
  induction runs with
  | nil =>
      intro event member
      exact absurd member List.not_mem_nil
  | cons _ lawful _ ih =>
      intro event member
      rcases List.mem_cons.mp member with rfl | later
      · exact lawful
      · exact ih event later

theorem Runs.split (runs : session.Runs (earlier ++ later)) :
    session.Runs earlier ∧ (session.through earlier).Runs later := by
  induction earlier generalizing session with
  | nil => exact ⟨.nil session, runs⟩
  | cons event events ih =>
      cases runs with
      | cons starts lawful rest => exact ⟨.cons starts lawful (ih rest).1, (ih rest).2⟩

theorem Runs.settled (runs : session.Runs events) (settled : session.Settled direct) :
    ∃ direct', (session.through events).Settled direct' := by
  induction runs generalizing direct with
  | nil => exact ⟨direct, settled⟩
  | cons _ lawful _ ih => exact ih lawful.follows.settled

theorem through_history (session : Session K V) (direct : Multiset Extent)
    (commands : List (Command K V)) :
    session.through (session.history direct commands) = (performAll session commands).2 := by
  induction commands generalizing session direct with
  | nil => rfl
  | cons command commands ih => exact ih _ _

theorem Settled.runs (settled : session.Settled direct)
    (proper : ∀ event ∈ session.history direct commands, event.before.Proper event.command) :
    session.Runs (session.history direct commands) := by
  induction commands generalizing session direct with
  | nil => exact .nil session
  | cons command commands ih =>
      rw [history_cons] at proper ⊢
      have lawful := settled.lawful_event (proper _ List.mem_cons_self)
      exact .cons rfl lawful (ih lawful.follows.settled
        fun event member => proper event (List.mem_cons_of_mem _ member))

theorem settled_start {allocator : Allocator} (lawful : allocator.Lawful) (journal : Journal)
    (config : Config) : (start journal config allocator : Session K V).Settled 0 := by
  have closed (manager : Manager) : manager.ledgerIn
      (start journal config allocator : Session K V).process = .closed := by
    rw [Manager.ledgerIn, Std.TreeMap.getD_eq_getD_getElem?, start, Std.TreeMap.getElem?_emptyc]
    rfl
  have none : (start journal config allocator : Session K V).structures = 0 := by
    simp only [structures, start, Names.objects_empty, Multiset.map_zero, add_zero]
  rw [Settled, none]
  refine ⟨by simp, ⟨0, rfl, ?_⟩, Multiset.nodup_zero, by simp, ?_⟩
  · exact
      { sound := Manager.sound_unused lawful
        powers := by
          intro address block found
          rw [start, Heap.find?_empty] at found
          cases found
        distinct := Multiset.nodup_zero
        present := by simp [Process.account]
        held := by simp [Process.account]
        issued := by simp [Process.account]
        listed := by
          intro manager address size tracked
          rw [closed] at tracked
          cases tracked
        idle := by
          intro manager _
          rw [closed]
          rfl
        holders := by
          intro manager
          rw [closed]
          rfl
        config := by simp [Process.account]
        known := by simp [Process.account]
        level := rfl
        warnings := rfl
        nextRegion := rfl }
  · intro name symbol named
    rw [start, Std.TreeMap.getElem?_emptyc] at named
    cases named

end Session

end SymbolStore
