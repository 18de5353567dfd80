import SymbolStore.Proofs.Session.History
import SymbolStore.Proofs.Twin.Creations
import SymbolStore.Proofs.Twin.Journals

/-!
One run of a session under two levels. Nothing differs but what is printed, and that differs by a
filter.
-/

namespace SymbolStore

open SymbolStore.Action (Lockstep Respects)

/-- Whether the line is printed under the level. A text without level always is. -/
def Printed.shown (level : Level) : Printed → Bool
  | message own _ _ => own.rank ≤ level.rank
  | plain _ => true

namespace Journal

/-- The first journal is that of a run under the level, the second one that of the same run under the
least severe level. -/
structure Filters (level : Level) (quiet full : Journal) : Prop where
  here : quiet.level = level
  there : full.level = .trace
  printed : quiet.printed.toList = full.printed.toList.filter (Printed.shown level)

theorem filters_lasting (level : Level) : Lasting (Filters level) := by
  intro quiet full own target text filters
  have always : full.enabled own = true := by
    rw [enabled, filters.there]
    cases own <;> rfl
  have told : full.log own target text = full.print (.message own target (text ())) := by
    rw [log, if_pos always, emit, if_pos always]
  have same : quiet.enabled own = Printed.shown level (.message own target (text ())) := by
    rw [← filters.here]
    rfl
  rw [told, log, emit]
  -- The level is asked twice, to the same effect.
  split
  · rename_i shown
    rw [same] at shown
    refine ⟨filters.here, filters.there, ?_⟩
    simp only [print, Array.toList_push, List.filter_append, filters.printed,
      List.filter_cons_of_pos shown, List.filter_nil]
  · rename_i hidden
    rw [same] at hidden
    refine ⟨filters.here, filters.there, ?_⟩
    simp only [print, Array.toList_push, List.filter_append, filters.printed,
      List.filter_cons_of_neg hidden, List.filter_nil, List.append_nil]

theorem filters_start (level : Level) : Filters level { level } { level := .trace } := ⟨rfl, rfl, rfl⟩

end Journal

theorem Config.read_lasting {alike : Journal → Journal → Prop} (lasting : Journal.Lasting alike)
    (lookup : String → Option String) {here there : Journal} (related : alike here there) :
    (read there lookup).1 = (read here lookup).1 ∧
      alike (read here lookup).2 (read there lookup).2 := by
  refine ⟨rfl, ?_⟩
  simp only [read]
  generalize (readStrategy _).2.toList ++ (readLimit _).2.toList = complaints
  induction complaints generalizing here there with
  | nil => exact related
  | cons text rest ih => exact ih (lasting _ _ _ _ _ related)

variable {K V : Type} {alike : Journal → Journal → Prop}

/-- Everything that is done to a process goes alike under any journal. -/
theorem Process.Retold.complete (lasting : Journal.Lasting alike) :
    Complete (Process.Retold alike) where
  toCongruent := congruent lasting
  config related := by rw [related.1]
  create := create_respects

namespace Session

abbrev Retold (alike : Journal → Journal → Prop) : Nat → Session K V → Session K V → Prop :=
  Abreast (fun _ => True) (Process.Retold alike)

variable {room : Nat} {s t : Session K V}

section Runs

variable (lasting : Journal.Lasting alike)
include lasting

theorem performAll_retold (commands : List (Command K V)) (related : Retold alike room s t) :
    (t.performAll commands).1 = (s.performAll commands).1 ∧
      Retold alike room (s.performAll commands).2 (t.performAll commands).2 :=
  performAll_respects (Process.Retold.complete lasting) id commands related

theorem close_retold (related : Retold alike room s t) :
    (close.runFrom t).1 = (close.runFrom s).1 ∧
      Retold alike room (close.runFrom s).2 (close.runFrom t).2 := by
  have congruent : Congruent (fun _ => True) (fun _ => False) (Process.Retold alike) :=
    Process.Retold.congruent lasting
  have outcomes := (close_respects congruent room s t related).outcomes fun _ _ => id
  obtain ⟨same, left, -, after⟩ := outcomes
  exact ⟨same, after⟩

end Runs

/-- A session without objects, under a level and with the configuration of an environment. -/
def startUnder (level : Level) (lookup : String → Option String) (allocator : Allocator) :
    Session K V :=
  start (Config.read { level } lookup).2 (Config.read { level } lookup).1 allocator

theorem startUnder_retold {first second : Level}
    (lasting : Journal.Lasting alike) (related : alike { level := first } { level := second })
    (lookup : String → Option String) (allocator : Allocator) :
    Retold alike 0 (startUnder first lookup allocator : Session K V)
      (startUnder second lookup allocator) := by
  obtain ⟨-, journals⟩ := Config.read_lasting lasting lookup related
  exact ⟨rfl, fun _ object _ => object.known_any, rfl, journals⟩

/-- The same objects in the same process, whatever was printed. -/
def SameButJournal (s t : Session K V) : Prop :=
  t = { s with process := { s.process with journal := t.process.journal } }

theorem Retold.sameButJournal (related : Retold alike room s t) : s.SameButJournal t := by
  obtain ⟨same, -, process, -⟩ := related
  rw [SameButJournal, ← process]
  exact same

/-- What was printed in the session that shows under a level. -/
def printedUnder (level : Level) (session : Session K V) : List Printed :=
  session.process.journal.printed.toList.filter (Printed.shown level)

/-- The level only filters. Under any two levels the requests are answered alike and leave the
same session, and so does its end. What is printed under a level is what shows under it of what is
printed under the least severe one. -/
theorem run_level_filters (first second : Level) (lookup : String → Option String)
    (allocator : Allocator) (commands : List (Command K V)) :
    let run (level : Level) := (startUnder level lookup allocator).performAll commands
    let ended (level : Level) := (close.runFrom (run level).2)
    ((run second).1 = (run first).1 ∧ (run first).2.SameButJournal (run second).2 ∧
      (run first).2.process.journal.printed.toList = printedUnder first (run .trace).2) ∧
    ((ended second).1 = (ended first).1 ∧ (ended first).2.SameButJournal (ended second).2 ∧
      (ended first).2.process.journal.printed.toList = printedUnder first (ended .trace).2) := by
  have any : Journal.Lasting fun _ _ => True := fun _ _ _ _ _ _ => trivial
  have filtered := Journal.filters_lasting first
  have started : Retold (fun _ _ => True) 0 (startUnder first lookup allocator : Session K V)
      (startUnder second lookup allocator) := startUnder_retold any trivial lookup allocator
  have traced : Retold (Journal.Filters first) 0 (startUnder first lookup allocator : Session K V)
      (startUnder .trace lookup allocator) :=
    startUnder_retold filtered (Journal.filters_start first) lookup allocator
  obtain ⟨answers, beside⟩ := performAll_retold any commands started
  obtain ⟨-, under⟩ := performAll_retold filtered commands traced
  obtain ⟨outcome, last⟩ := close_retold any beside
  obtain ⟨-, lastUnder⟩ := close_retold filtered under
  exact ⟨⟨answers, beside.sameButJournal, under.2.2.2.printed⟩,
    outcome, last.sameButJournal, lastUnder.2.2.2.printed⟩

end Session

end SymbolStore
