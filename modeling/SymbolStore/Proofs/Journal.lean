import SymbolStore.Journal.Basic

/-! What a journal has printed once something was logged. -/

namespace SymbolStore

namespace Journal

theorem enabled_print (journal : Journal) (line : Printed) (level : Level) :
    (journal.print line).enabled level = journal.enabled level := rfl

theorem log_eq (journal : Journal) (level : Level) (target : String) (text : Unit → String) :
    journal.log level target text =
      if journal.enabled level then journal.print (.message level target (text ()))
      else journal := by
  cases enabled : journal.enabled level with
  | true => simp [log, emit, enabled]
  | false => simp [log, enabled]

/-- No level in effect holds an error back. -/
theorem log_error (journal : Journal) (target : String) (text : Unit → String) :
    journal.log .error target text = journal.print (.message .error target (text ())) := by
  rw [log_eq, if_pos]
  simp [enabled, Level.rank]

/-- The journal with messages of one level: all are printed, in their order, or none is. -/
def logged (journal : Journal) (level : Level) (target : String) (texts : List String) : Journal :=
  { journal with
    printed := journal.printed ++
      if journal.enabled level then (texts.map (Printed.message level target)).toArray else #[] }

theorem foldl_log (journal : Journal) (level : Level) (target : String) (texts : List String) :
    texts.foldl (fun journal text => journal.log level target fun _ => text) journal =
      journal.logged level target texts := by
  induction texts generalizing journal with
  | nil => simp [logged]
  | cons text rest ih =>
      rw [List.foldl_cons, ih, log_eq, logged, logged]
      cases enabled : journal.enabled level with
      | true =>
          simp only [if_true, enabled_print, enabled]
          simp [print]
      | false => simp [enabled]

end Journal

end SymbolStore
