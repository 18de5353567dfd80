import SymbolStore.Journal.Level

/-! The level in effect and what has been printed. -/

namespace SymbolStore

inductive Origin
  | settings
  | manager
  | region
  | interner
  | dictionary
  deriving DecidableEq, Repr

def Origin.target : Origin → String
  | settings => "strata_mem::config"
  | manager => "strata_mem::memory"
  | region => "strata_mem::arena"
  | interner => "strata_mem::string_table"
  | dictionary => "strata_mem::assoc"

inductive Printed
  | message (level : Level) (target text : String)
  /-- A text without level, which no level holds back. -/
  | plain (text : String)
  deriving DecidableEq, Repr

def Printed.render : Printed → String
  | message level target text =>
    s!"\x1b[{level.color}m[{level.name}]\x1b[0m {target}: {text}"
  | plain text => text

structure Journal where
  level : Level := .warn
  printed : Array Printed := #[]
  deriving DecidableEq, Repr

namespace Journal

/-- Messages of a level are printed unless they are less severe than the level in effect. -/
def enabled (journal : Journal) (level : Level) : Bool := level.rank ≤ journal.level.rank

def print (journal : Journal) (line : Printed) : Journal :=
  { journal with printed := journal.printed.push line }

def emit (journal : Journal) (level : Level) (target text : String) : Journal :=
  if journal.enabled level then journal.print (.message level target text) else journal

/-- Asks whether the level is enabled before the text is put together, and then emits it. -/
def log (journal : Journal) (level : Level) (target : String) (text : Unit → String) : Journal :=
  if journal.enabled level then journal.emit level target (text ()) else journal

def setLevel (journal : Journal) (level : Level) : Journal := { journal with level }

def setLevelNamed? (journal : Journal) (text : String) : Option Journal :=
  (Level.parse? text).map journal.setLevel

/-- Takes over the level named by the environment. A bad name is complained about, at any level,
and otherwise ignored. -/
def initialise (journal : Journal) : Option String → Journal
  | none => journal
  | some text =>
    (journal.setLevelNamed? text).getD
      (journal.print (.plain s!"STRATA_LOG: {Level.complaint text}"))

end Journal

end SymbolStore
