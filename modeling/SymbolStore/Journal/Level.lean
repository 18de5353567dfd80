import SymbolStore.Text.Blank
import SymbolStore.Text.Quoted

/-! Severities of messages and their names. -/

namespace SymbolStore

inductive Level
  | error
  | warn
  | info
  | debug
  | trace
  deriving DecidableEq, Repr

namespace Level

def rank : Level → Nat
  | error => 0
  | warn => 1
  | info => 2
  | debug => 3
  | trace => 4

def name : Level → String
  | error => "ERROR"
  | warn => "WARN"
  | info => "INFO"
  | debug => "DEBUG"
  | trace => "TRACE"

def describe : Level → String
  | error => "Error"
  | warn => "Warn"
  | info => "Info"
  | debug => "Debug"
  | trace => "Trace"

def color : Level → Nat
  | error => 31
  | warn => 33
  | info => 32
  | debug => 36
  | trace => 35

/-- The level whose name the text is, in any case and with blanks around it. -/
def parse? (text : String) : Option Level :=
  match Text.upperCase (Text.trim text) with
  | "ERROR" => some error
  | "WARN" => some warn
  | "WARNING" => some warn
  | "INFO" => some info
  | "DEBUG" => some debug
  | "TRACE" => some trace
  | _ => none

/-- The complaint about a text that names no level quotes it untrimmed. -/
def complaint (text : String) : String := s!"invalid log level: {Text.quoted text}"

def describeComplaint (text : String) : String :=
  s!"ParseLevelError \x7b input: {Text.quoted text} \x7d"

end Level

end SymbolStore
