import Mathlib.Data.List.Induction
import SymbolStore.Proofs.Journal
import SymbolStore.Proofs.Text.Blank

/-!
Runs of requests to a journal. The level in effect is the one that was set last, and nothing but that
level decides which messages are printed.
-/

namespace SymbolStore

namespace Level

def names : Level → List String
  | warn => ["WARN", "WARNING"]
  | level => [level.name]

/-- A level is named by any of its names, in any letter case and with blanks around it. -/
def Named (text : String) (level : Level) : Prop :=
  ∃ name ∈ level.names, Text.Spells Char.toUpper text name

theorem parse?_eq_some_iff {text : String} {level : Level} :
    parse? text = some level ↔ Named text level := by
  simp only [Named, Text.spells_iff]
  rw [parse?, Text.upperCase]
  generalize String.ofList ((Text.trim text).toList.map Char.toUpper) = spelled
  cases level <;> split <;> simp_all [names, name]

theorem parse?_eq_none_iff {text : String} :
    parse? text = none ↔ ∀ level, ¬ Named text level := by
  simp only [← parse?_eq_some_iff, Option.eq_none_iff_forall_ne_some, ne_eq]

/-- White space beyond ASCII may stand around a name, and letters beyond ASCII are no part of one. -/
example : parse? "\u00a0Warning\u2003" = some warn ∧ parse? "\u0131nfo" = none := by
  constructor <;> cbv

theorem complaint_eq (text : String) :
    complaint text = "invalid log level: " ++ Text.quoted text := rfl

end Level

namespace Journal

inductive Request
  | setLevel (level : Level)
  | setLevelNamed (text : String)
  /-- Takes the setting of the environment over, if there is one. -/
  | initialise (setting : Option String)
  | emit (level : Level) (target text : String)
  /-- Emits a text that is put together only if it will be printed. -/
  | log (level : Level) (target : String) (text : Unit → String)

inductive Reply
  | done
  | refused (complaint : String)
  | inEffect (level : Level)
  deriving DecidableEq, Repr

def perform : Request → Journal → Reply × Journal
  | .setLevel level, journal => (.done, journal.setLevel level)
  | .setLevelNamed text, journal =>
    match journal.setLevelNamed? text with
    | some after => (.done, after)
    | none => (.refused (Level.complaint text), journal)
  | .initialise setting, journal =>
    let after := journal.initialise setting
    (.inEffect after.level, after)
  | .emit level target text, journal => (.done, journal.emit level target text)
  | .log level target text, journal => (.done, journal.log level target text)

def become (journal : Journal) (level : Level) (lines : List Printed) : Journal :=
  { level, printed := journal.printed ++ lines.toArray }

def final (requests : List Request) (journal : Journal) : Journal :=
  requests.foldl (fun journal request => (perform request journal).2) journal

namespace Request

def message? : Request → Option (Level × String × String)
  | emit level target text => some (level, target, text)
  | log level target text => some (level, target, text ())
  | _ => none

/-- The request sets a level. A text that names none sets none. -/
def Sets : Request → Level → Prop
  | setLevel set, level => set = level
  | setLevelNamed text, level => Level.Named text level
  | initialise setting, level => ∃ text ∈ setting, Level.Named text level
  | _, _ => False

end Request

/-- What a request comes to under the level in effect: its reply, the level in effect from then on, and
what it prints. A message is printed if it is no less severe than that level. Only the complaint about a
bad setting of the environment is printed under any level. -/
inductive Effect (inEffect : Level) : Request → Reply → Level → List Printed → Prop
  | set (level : Level) : Effect inEffect (.setLevel level) .done level []
  | named {text : String} {level : Level} (accepted : Level.Named text level) :
      Effect inEffect (.setLevelNamed text) .done level []
  | unnamed {text : String} (rejected : ∀ level, ¬ Level.Named text level) :
      Effect inEffect (.setLevelNamed text)
        (.refused ("invalid log level: " ++ Text.quoted text)) inEffect []
  | unset : Effect inEffect (.initialise none) (.inEffect inEffect) inEffect []
  | initialised {text : String} {level : Level} (accepted : Level.Named text level) :
      Effect inEffect (.initialise (some text)) (.inEffect level) level []
  | complained {text : String} (rejected : ∀ level, ¬ Level.Named text level) :
      Effect inEffect (.initialise (some text)) (.inEffect inEffect) inEffect
        [.plain ("STRATA_LOG: " ++ ("invalid log level: " ++ Text.quoted text))]
  | printed {request : Request} {level : Level} {target text : String}
      (message : request.message? = some (level, target, text))
      (severe : level.rank ≤ inEffect.rank) :
      Effect inEffect request .done inEffect [.message level target text]
  | heldBack {request : Request} {level : Level} {target text : String}
      (message : request.message? = some (level, target, text))
      (minor : inEffect.rank < level.rank) : Effect inEffect request .done inEffect []

/-- The level that was set last, or the first one if none was set. -/
inductive InEffect (first : Level) (requests : List Request) : Level → Prop
  | first (none : ∀ request ∈ requests, ∀ level, ¬ request.Sets level) :
      InEffect first requests first
  | last {before after : List Request} {request : Request} {level : Level}
      (split : requests = before ++ request :: after) (sets : request.Sets level)
      (none : ∀ later ∈ after, ∀ level, ¬ later.Sets level) : InEffect first requests level

variable {first level : Level} {requests : List Request} {request : Request}

theorem InEffect.set (sets : request.Sets level) : InEffect first (requests ++ [request]) level :=
  .last rfl sets (by simp)

theorem InEffect.kept (inEffect : InEffect first requests level)
    (none : ∀ level, ¬ request.Sets level) : InEffect first (requests ++ [request]) level := by
  have last : ∀ other ∈ [request], ∀ level, ¬ other.Sets level := List.forall_mem_singleton.mpr none
  cases inEffect with
  | first unset => exact .first (List.forall_mem_append.mpr ⟨unset, last⟩)
  | last split sets unset =>
      apply InEffect.last (by rw [split, List.append_assoc, List.cons_append]) sets
      exact List.forall_mem_append.mpr ⟨unset, last⟩

theorem InEffect.step {before after : Level} {reply : Reply} {lines : List Printed}
    (inEffect : InEffect first requests before) (effect : Effect before request reply after lines) :
    InEffect first (requests ++ [request]) after := by
  cases effect with
  | set => exact .set rfl
  | named accepted => exact .set accepted
  | unnamed rejected => exact inEffect.kept rejected
  | unset => exact inEffect.kept (by simp [Request.Sets])
  | initialised accepted => exact .set ⟨_, rfl, accepted⟩
  | complained rejected =>
      apply inEffect.kept
      simpa [Request.Sets] using rejected
  | printed message | heldBack message =>
      apply inEffect.kept
      cases request <;> simp [Request.message?, Request.Sets] at message ⊢

theorem message_effect (journal : Journal) {target text : String}
    (message : request.message? = some (level, target, text)) :
    ∃ lines, Effect journal.level request .done journal.level lines ∧
      (if journal.enabled level then journal.print (.message level target text) else journal) =
        journal.become journal.level lines := by
  by_cases severe : level.rank ≤ journal.level.rank
  · exact ⟨_, .printed message severe, by simp [enabled, severe, print, become]⟩
  · exact ⟨_, .heldBack message (Nat.lt_of_not_le severe), by simp [enabled, severe, become]⟩

theorem perform_effect (request : Request) (journal : Journal) :
    ∃ reply level lines, Effect journal.level request reply level lines ∧
      perform request journal = (reply, journal.become level lines) := by
  cases request with
  | setLevel level => exact ⟨.done, level, [], .set level, by simp [perform, setLevel, become]⟩
  | setLevelNamed text =>
      rw [perform, setLevelNamed?]
      cases parsed : Level.parse? text with
      | some level =>
          have accepted := Level.parse?_eq_some_iff.mp parsed
          exact ⟨.done, level, [], .named accepted, by simp [setLevel, become]⟩
      | none =>
          have rejected := Level.parse?_eq_none_iff.mp parsed
          refine ⟨_, journal.level, [], .unnamed rejected, ?_⟩
          simp [Level.complaint_eq, become]
  | initialise setting =>
      cases setting with
      | none => exact ⟨_, journal.level, [], .unset, by simp [perform, initialise, become]⟩
      | some text =>
          rw [perform, initialise, setLevelNamed?]
          cases parsed : Level.parse? text with
          | some level =>
              have accepted := Level.parse?_eq_some_iff.mp parsed
              exact ⟨_, level, [], .initialised accepted, by simp [setLevel, become]⟩
          | none =>
              have rejected := Level.parse?_eq_none_iff.mp parsed
              refine ⟨_, journal.level, _, .complained rejected, ?_⟩
              simp [Level.complaint_eq, print, become, toString]
  | emit level target text =>
      obtain ⟨lines, effect, after⟩ := message_effect journal
        (rfl : (Request.emit level target text).message? = _)
      exact ⟨.done, journal.level, lines, effect, congrArg (Prod.mk Reply.done) after⟩
  | log level target text =>
      obtain ⟨lines, effect, after⟩ := message_effect journal
        (rfl : (Request.log level target text).message? = _)
      rw [perform, log_eq]
      exact ⟨.done, journal.level, lines, effect, congrArg (Prod.mk Reply.done) after⟩

/-- The level in effect after a run of requests is the one that was set last. -/
theorem final_inEffect (requests : List Request) (journal : Journal) :
    InEffect journal.level requests (final requests journal).level := by
  -- From the end, since the last request that sets a level decides.
  induction requests using List.reverseRecOn with
  | nil => exact .first (by simp)
  | append_singleton requests request ih =>
      obtain ⟨reply, level, lines, effect, performed⟩ :=
        perform_effect request (final requests journal)
      have after : final (requests ++ [request]) journal =
          (final requests journal).become level lines := by
        rw [final, List.foldl_append]
        exact congrArg Prod.snd performed
      rw [after]
      exact ih.step effect

/-- At any point of any run of requests to a
new journal, the level in effect is the one that was set last, and warnings are the least severe
messages before the first. The next request does what its effect is under that level: a text is
accepted if and only if it names a level, a text that is not is quoted as it is and changes nothing,
and a message is printed if and only if it is no less severe than the level in effect. -/
theorem level_in_effect (requests : List Request) (request : Request) :
    let journal := final requests {}
    InEffect .warn requests journal.level ∧
      ∃ reply level lines, perform request journal = (reply, journal.become level lines) ∧
        Effect journal.level request reply level lines ∧
        InEffect .warn (requests ++ [request]) level := by
  intro journal
  have inEffect : InEffect .warn requests journal.level := final_inEffect requests {}
  obtain ⟨reply, level, lines, effect, performed⟩ := perform_effect request journal
  exact ⟨inEffect, reply, level, lines, performed, effect, inEffect.step effect⟩

end Journal

end SymbolStore
