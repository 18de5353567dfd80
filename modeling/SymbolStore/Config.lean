import SymbolStore.Journal.Basic
import SymbolStore.Text.Decimal

/-! How a manager obtains and accounts for its blocks, and how the environment chooses it. The defaults
are those of a debug build; a release build takes `raw` where nothing is chosen. -/

namespace SymbolStore

inductive Strategy
  /-- Counts live blocks and bytes, knows its own blocks, and keeps to a byte limit. -/
  | tracked
  /-- Passes every request on and keeps no books. -/
  | raw
  deriving DecidableEq, Repr

namespace Strategy

def name : Strategy → String
  | tracked => "tracked"
  | raw => "raw"

def describe : Strategy → String
  | tracked => "Tracked"
  | raw => "Raw"

def parse? (text : String) : Option Strategy :=
  match Text.lowerCase (Text.trim text) with
  | "tracked" => some tracked
  | "raw" => some raw
  | _ => none

def complaint (text : String) : String :=
  s!"unknown allocation strategy {Text.quoted text} (expected \"tracked\" or \"raw\")"

end Strategy

structure Config where
  strategy : Strategy := .tracked
  /-- The most bytes that may be live under `tracked`. -/
  byteLimit : Option Nat := none
  deriving DecidableEq, Repr

namespace Config

def tracked : Config := { strategy := .tracked }

def raw : Config := { strategy := .raw }

def withByteLimit (config : Config) (limit : Nat) : Config :=
  { config with byteLimit := some limit }

def describe (config : Config) : String :=
  let limit := match config.byteLimit with
    | some limit => s!"Some({limit})"
    | none => "None"
  s!"MemoryConfig \x7b strategy: {config.strategy.describe}, byte_limit: {limit} \x7d"

def strategyVariable : String := "STRATA_MEM_STRATEGY"

def limitVariable : String := "STRATA_MEM_LIMIT"

def readStrategy : Option String → Strategy × Option String
  | none => (.tracked, none)
  | some text =>
    match Strategy.parse? text with
    | some strategy => (strategy, none)
    | none => (.tracked, some s!"{strategyVariable}: {Strategy.complaint text}")

def readLimit : Option String → Option Nat × Option String
  | none => (none, none)
  | some text =>
    match Text.readWord (Text.trimmed text.toList) with
    | .ok limit => (some limit, none)
    | .error cause => (none, some s!"{limitVariable}: {Text.quoted text}: {cause.message}")

def variableNames : List String := [strategyVariable, limitVariable]

/-- Reads a configuration from the environment. A value that cannot be used is complained about
and stands for the default, so that reading never fails. -/
def read (journal : Journal) (lookup : String → Option String) : Config × Journal :=
  let (strategy, strategyComplaint) := readStrategy (lookup strategyVariable)
  let (byteLimit, limitComplaint) := readLimit (lookup limitVariable)
  let complaints := strategyComplaint.toList ++ limitComplaint.toList
  ({ strategy, byteLimit },
    complaints.foldl (fun journal text => journal.log .warn Origin.settings.target fun _ => text)
      journal)

end Config

end SymbolStore
