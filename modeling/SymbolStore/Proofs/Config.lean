import SymbolStore.Config
import SymbolStore.Proofs.Journal
import SymbolStore.Proofs.Text.Blank
import SymbolStore.Proofs.Text.Decimal

/-!
What a configuration is made of when it is read from the environment: which values of the variables
are accepted, what stands for the others, and what is printed about those.
-/

namespace SymbolStore

namespace Strategy

/-- A strategy is named by its name in any letter case and with blanks around it. -/
def Named (text : String) (strategy : Strategy) : Prop :=
  Text.Spells Char.toLower text strategy.name

theorem parse?_eq_some_iff {text : String} {strategy : Strategy} :
    parse? text = some strategy ↔ Named text strategy := by
  rw [Named, Text.spells_iff, parse?, Text.lowerCase]
  generalize String.ofList ((Text.trim text).toList.map Char.toLower) = spelled
  cases strategy with
  | tracked => split <;> simp_all [name]
  | raw => split <;> simp_all [name]

theorem named_unique (text : String) (first second : Strategy) (named : Named text first)
    (also : Named text second) : first = second :=
  Option.some.inj ((parse?_eq_some_iff.mpr named).symm.trans (parse?_eq_some_iff.mpr also))

end Strategy

namespace Config

/-- A limit is a word in decimal digits, with blanks around it allowed. -/
def LimitAccepted (text : String) (limit : Option Nat) : Prop :=
  ∃ n, limit = some n ∧ n < wordLimit ∧ ∃ core, Text.Trims text.toList core ∧ Text.Denotes core n

/-- What becomes of the value of a variable, and what is said about it: a value that is accepted
counts, and nothing is said. A variable that is not set, or has another value, leaves the default,
and there is one complaint about the other value. -/
inductive Judged {α : Type} (accepts : String → α → Prop) (complaint : String → String → Prop)
    (default : α) : Option String → α → List String → Prop
  | unset : Judged accepts complaint default none default []
  | accepted {text : String} {value : α} (fits : accepts text value) :
      Judged accepts complaint default (some text) value []
  | refused {text line : String} (unfit : ∀ value, ¬ accepts text value)
      (told : complaint text line) :
      Judged accepts complaint default (some text) default [line]

/-- The complaint about a strategy quotes the value as it is, blanks included. -/
def StrategyComplaint (text line : String) : Prop :=
  line = strategyVariable ++ ": " ++
    ("unknown allocation strategy " ++ Text.quoted text ++ " (expected \"tracked\" or \"raw\")")

/-- The complaint about a limit quotes the value as it is, blanks included, and says what is wrong
with what is between them. -/
def LimitComplaint (text line : String) : Prop :=
  ∃ core, ∃ cause : Text.DecimalError, Text.Trims text.toList core ∧ cause.Explains core ∧
    line = limitVariable ++ ": " ++ Text.quoted text ++ ": " ++ cause.message

/-- An environment stands for a configuration and these complaints: each part is judged by its own
variable, and the strategy comes first. -/
def Stands (lookup : String → Option String) (config : Config) (lines : List String) : Prop :=
  ∃ strategyLines limitLines, lines = strategyLines ++ limitLines ∧
    Judged Strategy.Named StrategyComplaint ({} : Config).strategy (lookup strategyVariable)
      config.strategy strategyLines ∧
    Judged LimitAccepted LimitComplaint ({} : Config).byteLimit (lookup limitVariable)
      config.byteLimit limitLines

/-- A value is judged in one way only, if it is accepted and complained about in one way only. -/
theorem Judged.unique {α : Type} {accepts : String → α → Prop}
    {complaint : String → String → Prop} {default v w : α} {setting : Option String}
    {lines others : List String} (meaning : ∀ text v w, accepts text v → accepts text w → v = w)
    (wording : ∀ text line other, complaint text line → complaint text other → line = other)
    (first : Judged accepts complaint default setting v lines)
    (second : Judged accepts complaint default setting w others) : v = w ∧ lines = others := by
  cases first with
  | unset =>
      cases second
      exact ⟨rfl, rfl⟩
  | accepted fits =>
      cases second with
      | accepted also => exact ⟨meaning _ _ _ fits also, rfl⟩
      | refused unfit told => exact absurd fits (unfit _)
  | refused unfit told =>
      cases second with
      | accepted fits => exact absurd fits (unfit _)
      | refused _ also => exact ⟨rfl, congrArg (fun line => [line]) (wording _ _ _ told also)⟩

theorem strategyComplaint_unique (text line other : String) (told : StrategyComplaint text line)
    (also : StrategyComplaint text other) : line = other :=
  told.trans also.symm

theorem limitAccepted_unique (text : String) (first second : Option Nat)
    (accepted : LimitAccepted text first) (also : LimitAccepted text second) : first = second := by
  obtain ⟨n, rfl, -, core, trims, denotes⟩ := accepted
  obtain ⟨m, rfl, -, other, trimsOther, denotesOther⟩ := also
  have same : core = other :=
    (Text.trimmed_eq_iff.mpr trims).symm.trans (Text.trimmed_eq_iff.mpr trimsOther)
  rw [← same] at denotesOther
  exact congrArg some (denotes.unique denotesOther)

theorem limitComplaint_unique (text line other : String) (told : LimitComplaint text line)
    (also : LimitComplaint text other) : line = other := by
  obtain ⟨core, cause, trims, explains, rfl⟩ := told
  obtain ⟨otherCore, otherCause, trimsOther, explainsOther, rfl⟩ := also
  have same : core = otherCore :=
    (Text.trimmed_eq_iff.mpr trims).symm.trans (Text.trimmed_eq_iff.mpr trimsOther)
  rw [← same] at explainsOther
  rw [explains.unique explainsOther]

theorem readStrategy_judged (value : Option String) :
    Judged Strategy.Named StrategyComplaint ({} : Config).strategy value (readStrategy value).1
      (readStrategy value).2.toList := by
  cases value with
  | none => exact .unset
  | some text =>
      rw [readStrategy]
      cases parsed : Strategy.parse? text with
      | some strategy => exact .accepted (Strategy.parse?_eq_some_iff.mp parsed)
      | none =>
          apply Judged.refused
          · intro strategy named
            rw [Strategy.parse?_eq_some_iff.mpr named] at parsed
            cases parsed
          · rfl

theorem readLimit_judged (value : Option String) :
    Judged LimitAccepted LimitComplaint ({} : Config).byteLimit value (readLimit value).1
      (readLimit value).2.toList := by
  cases value with
  | none => exact .unset
  | some text =>
      have trims := Text.trims_trimmed text.toList
      rw [readLimit]
      cases read : Text.readWord (Text.trimmed text.toList) with
      | ok limit =>
          obtain ⟨denotes, bounded⟩ := Text.readWord_eq_ok_iff.mp read
          exact .accepted ⟨limit, rfl, bounded, _, trims, denotes⟩
      | error cause =>
          apply Judged.refused
          · intro accepted limits
            obtain ⟨limit, -, bounded, core, trimsCore, denotes⟩ := limits
            rw [Text.trimmed_eq_iff.mpr trimsCore,
              Text.readWord_eq_ok_iff.mpr ⟨denotes, bounded⟩] at read
            cases read
          · exact ⟨_, cause, trims, Text.explains_of_readWord read, rfl⟩

theorem Stands.unique {lookup : String → Option String} {config other : Config}
    {lines others : List String} (stands : Stands lookup config lines)
    (also : Stands lookup other others) : config = other ∧ lines = others := by
  obtain ⟨strategyLines, limitLines, rfl, strategy, limit⟩ := stands
  obtain ⟨otherStrategyLines, otherLimitLines, rfl, otherStrategy, otherLimit⟩ := also
  obtain ⟨sameStrategy, rfl⟩ :=
    strategy.unique Strategy.named_unique strategyComplaint_unique otherStrategy
  obtain ⟨sameLimit, rfl⟩ := limit.unique limitAccepted_unique limitComplaint_unique otherLimit
  exact ⟨congrArg₂ Config.mk sameStrategy sameLimit, rfl⟩

/-- What is read stands for the environment, and its complaints are logged as warnings. -/
theorem read_stands (journal : Journal) (lookup : String → Option String) :
    ∃ lines, Stands lookup (read journal lookup).1 lines ∧
      (read journal lookup).2 = journal.logged .warn Origin.settings.target lines :=
  ⟨_, ⟨_, _, rfl, readStrategy_judged _, readLimit_judged _⟩,
    journal.foldl_log .warn Origin.settings.target _⟩

/-- Whatever the environment is, a configuration is read from it: the one that it stands for, with
one warning for each variable that has an unacceptable value, if warnings are enabled. -/
theorem read_eq_iff (journal : Journal) (lookup : String → Option String) (config : Config)
    (after : Journal) :
    read journal lookup = (config, after) ↔ ∃ lines, Stands lookup config lines ∧
      after = journal.logged .warn Origin.settings.target lines := by
  obtain ⟨lines, stands, logged⟩ := read_stands journal lookup
  constructor
  · intro same
    rw [same] at stands logged
    exact ⟨lines, stands, logged⟩
  · intro described
    obtain ⟨others, also, rfl⟩ := described
    obtain ⟨config, rfl⟩ := stands.unique also
    exact Prod.ext config logged

end Config

end SymbolStore
