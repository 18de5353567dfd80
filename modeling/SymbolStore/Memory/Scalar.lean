import SymbolStore.Digest
import SymbolStore.Memory.Layout

/-! Numbers as the contents of values of some layout. -/

namespace SymbolStore

/-- A way to lay out a number: its low bytes, least significant first, so many times over. -/
structure Scalar where
  layout : Layout
  width : Nat
  copies : Nat := 1
  deriving DecidableEq, Repr

namespace Scalar

def ofWidth (width : Nat) : Scalar := { layout := { size := width, align := width }, width }

def line : Scalar := { layout := { size := 64, align := 64 }, width := 1, copies := 64 }

/-- A word at the start of a larger and wider aligned value. -/
def wide : Scalar := { layout := { size := 32, align := 32 }, width := 8 }

def unit : Scalar := { layout := { size := 0, align := 1 }, width := 0 }

def encode (scalar : Scalar) (value : Nat) : List UInt8 :=
  (List.replicate scalar.copies (Feed.lowBytes scalar.width value)).flatten

def decode (scalar : Scalar) (bytes : List UInt8) : Nat :=
  (bytes.take scalar.width).foldr (fun byte value => byte.toNat + 256 * value) 0

end Scalar

end SymbolStore
