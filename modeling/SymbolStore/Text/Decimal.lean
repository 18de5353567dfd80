import SymbolStore.Word

/-! Words written in decimal digits. -/

namespace SymbolStore.Text

/-- Why a text is not the decimal form of a word. -/
inductive DecimalError
  | empty
  | invalidDigit
  | tooLarge
  deriving DecidableEq, Repr

def DecimalError.message : DecimalError → String
  | empty => "cannot parse integer from empty string"
  | invalidDigit => "invalid digit found in string"
  | tooLarge => "number too large to fit in target type"

def digit? (c : Char) : Option Nat :=
  if '0' ≤ c ∧ c ≤ '9' then some (c.toNat - '0'.toNat) else none

/-- Reads digits from the left. The first character that is no digit, or the first digit that
leaves the words, settles the error. -/
def readDigits (value : Nat) : List Char → Except DecimalError Nat
  | [] => .ok value
  | c :: rest =>
    match digit? c with
    | none => .error .invalidDigit
    | some d =>
      if value * 10 + d < wordLimit then readDigits (value * 10 + d) rest
      else .error .tooLarge

/-- A word in decimal digits, with a plus sign allowed in front. -/
def readWord : List Char → Except DecimalError Nat
  | [] => .error .empty
  | '+' :: [] => .error .invalidDigit
  | '+' :: rest => readDigits 0 rest
  | text => readDigits 0 text

end SymbolStore.Text
