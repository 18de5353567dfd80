import SymbolStore.Word

/-!
Hashes of byte strings and of values: a word-at-a-time accumulator whose weak low bits are then
mixed by a bijective finalizer.
-/

namespace SymbolStore

inductive Feed
  | word (value : UInt64)
  | bytes (values : List UInt8)
  deriving DecidableEq, Repr

namespace Digest

def rotateLeft5 (state : UInt64) : UInt64 := (state <<< 5) ||| (state >>> 59)

def absorb (state word : UInt64) : UInt64 := (rotateLeft5 state ^^^ word) * 0x517cc1b727220a95

/-- Cuts fewer than eight bytes into a word of four, if there are as many, and words of one. -/
def shortWords : List UInt8 → List UInt64
  | a :: b :: c :: d :: rest => Word.ofBytes [a, b, c, d] :: rest.map UInt8.toUInt64
  | rest => rest.map UInt8.toUInt64

/-- Cuts bytes into words of eight as far as they go, least significant byte first. -/
def words : List UInt8 → List UInt64
  | a :: b :: c :: d :: e :: f :: g :: h :: rest =>
    Word.ofBytes [a, b, c, d, e, f, g, h] :: words rest
  | rest => shortWords rest

def absorbBytes (state : UInt64) (bytes : List UInt8) : UInt64 := (words bytes).foldl absorb state

/-- A bijection of the words in which every bit of the argument reaches the low bits. -/
def avalanche (h : UInt64) : UInt64 :=
  let h := (h ^^^ (h >>> 33)) * 0xff51afd7ed558ccd
  let h := (h ^^^ (h >>> 33)) * 0xc4ceb9fe1a85ec53
  h ^^^ (h >>> 33)

/-- The hash of a byte string. Its length is taken in last and keeps apart strings that differ in
trailing zeros alone. -/
def ofBytes (bytes : List UInt8) : UInt64 :=
  avalanche (absorb (absorbBytes 0 bytes) bytes.length.toUInt64)

def absorbFeed (state : UInt64) : Feed → UInt64
  | .word value => absorb state value
  | .bytes values => absorbBytes state values

def ofFeeds (feeds : List Feed) : UInt64 := avalanche (feeds.foldl absorbFeed 0)

end Digest

namespace Feed

def lowBytes (count value : Nat) : List UInt8 :=
  (List.range count).map fun i => (value >>> (8 * i)).toUInt8

def ofNat (value : Nat) : Feed := .word value.toUInt64

/-- A signed number of the given width, in two's complement. -/
def ofInt (bits : Nat) (value : Int) : Feed := ofNat (value % Int.ofNat (1 <<< bits)).toNat

def ofWide (value : Int) : Feed := .bytes (lowBytes 16 (value % Int.ofNat (1 <<< 128)).toNat)

/-- A text is fed as its bytes and a byte that no text holds. -/
def ofString (text : String) : List Feed := [.bytes text.toUTF8.toList, .word 0xff]

def ofNumbers (size : Nat) (values : List Nat) : List Feed :=
  [ofNat values.length, .bytes (values.flatMap (lowBytes size))]

def ofBytes (bytes : List UInt8) : List Feed := [ofNat bytes.length, .bytes bytes]

def ofStrings (texts : List String) : List Feed := ofNat texts.length :: texts.flatMap ofString

def ofOption {α : Type} (feed : α → List Feed) : Option α → List Feed
  | none => [.word 0]
  | some a => .word 1 :: feed a

end Feed

end SymbolStore
