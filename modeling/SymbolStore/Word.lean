import SymbolStore.Failure

/-! Arithmetic on 64-bit words, kept in `Nat`, with every overflow in the open. -/

namespace SymbolStore

/-- Words are the numbers below this bound. -/
abbrev wordLimit : Nat := 0x10000000000000000

abbrev maxWord : Nat := wordLimit - 1

/-- No object is larger than this many bytes. -/
abbrev maxObjectSize : Nat := 0x7fffffffffffffff

namespace Word

def add? (a b : Nat) : Option Nat :=
  if a + b < wordLimit then some (a + b) else none

def multiply? (a b : Nat) : Option Nat :=
  if a * b < wordLimit then some (a * b) else none

def add (a b : Nat) : Except Fault Nat :=
  if a + b < wordLimit then .ok (a + b) else .error (.overflow .add)

def subtract (a b : Nat) : Except Fault Nat :=
  if b ≤ a then .ok (a - b) else .error (.overflow .subtract)

def multiply (a b : Nat) : Except Fault Nat :=
  if a * b < wordLimit then .ok (a * b) else .error (.overflow .multiply)

def addSaturating (a b : Nat) : Nat := min (a + b) maxWord

def multiplySaturating (a b : Nat) : Nat := min (a * b) maxWord

/-- Adds a signed difference modulo the word size. -/
def addWrapping (a : Nat) (difference : Int) : Nat :=
  ((a + difference) % (wordLimit : Int)).toNat

/-- The eight bytes of a word, least significant first. -/
def toBytes (word : UInt64) : List UInt8 :=
  (List.range 8).map fun i => (word >>> (8 * i).toUInt64).toUInt8

def ofBytes : List UInt8 → UInt64
  | [] => 0
  | byte :: bytes => byte.toUInt64 ||| (ofBytes bytes <<< 8)

end Word

def isPowerOfTwo (n : Nat) : Bool := 1 <<< n.log2 == n

def nextPowerOfTwo (n : Nat) : Nat :=
  if n ≤ 1 then 1 else 1 <<< ((n - 1).log2 + 1)

def alignDown (n align : Nat) : Nat := n / align * align

/-- The least multiple of `align` that is not below `n`, for a positive `align`. -/
def alignUp (n align : Nat) : Nat := alignDown (n + (align - 1)) align

theorem alignDown_le (n align : Nat) : alignDown n align ≤ n := Nat.div_mul_le_self n align

theorem lt_alignDown_add (n : Nat) {align : Nat} (positive : 0 < align) :
    n < alignDown n align + align := Nat.lt_div_mul_add positive

theorem alignDown_mod (n align : Nat) : alignDown n align % align = 0 := Nat.mul_mod_left _ _

theorem le_alignUp (n : Nat) {align : Nat} (positive : 0 < align) : n ≤ alignUp n align := by
  have next := lt_alignDown_add (n + (align - 1)) positive
  unfold alignUp
  omega

theorem alignUp_mod (n align : Nat) : alignUp n align % align = 0 := alignDown_mod _ _

end SymbolStore
