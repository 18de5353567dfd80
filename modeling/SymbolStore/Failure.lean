import SymbolStore.Text.Quoted

/-!
How an operation ends when it does not succeed: an error its caller decides about, a fault that
stops it, or a refusal to do what has no defined meaning.
-/

namespace SymbolStore

/-- Conditions reported to the caller. A lookup that finds nothing is not among them. -/
inductive MemoryError
  | outOfMemory (requested : Nat)
  | invalidArgument (what : String)
  | invalidAlignment (alignment : Nat)
  | staleHandle (issued current : Nat)
  deriving DecidableEq, Repr

namespace MemoryError

/-- Exhausted memory is the one condition with no sensible continuation. -/
def isFatal : MemoryError → Bool
  | outOfMemory _ => true
  | _ => false

def message : MemoryError → String
  | outOfMemory requested => s!"Out of memory: failed to allocate {requested} bytes"
  | invalidArgument what => s!"Invalid argument: {what}"
  | invalidAlignment alignment => s!"Invalid alignment: {alignment} is not a power of two"
  | staleHandle issued current =>
    s!"Stale region handle: generation {issued}, region is at {current}"

def describe : MemoryError → String
  | outOfMemory requested => s!"OutOfMemory \x7b requested: {requested} \x7d"
  | invalidArgument what => s!"InvalidArgument \x7b what: {Text.quoted what} \x7d"
  | invalidAlignment alignment => s!"InvalidAlignment \x7b alignment: {alignment} \x7d"
  | staleHandle issued current =>
    s!"StaleHandle \x7b handle_generation: {issued}, current: {current} \x7d"

end MemoryError

inductive WordOp
  | add
  | subtract
  | multiply
  deriving DecidableEq, Repr

inductive BlockCall
  | free
  | reallocate
  deriving DecidableEq, Repr

inductive Rehash
  | interner
  | dictionary
  deriving DecidableEq, Repr

/-- What stops an operation where it stands: a promise broken by the caller or the library. -/
inductive Fault
  | overflow (op : WordOp)
  | indexOutOfBounds (size index : Nat)
  | unownedBlock (call : BlockCall) (address : Nat)
  | sizeMismatch (recorded claimed : Nat)
  | capacityNotPowerOfTwo
  | handleBeyondChunk
  | noFreeBucket (table : Rehash)
  | foundVacantBucket
  | generationsExhausted
  deriving DecidableEq, Repr

namespace Fault

def message (address : Nat → String) : Fault → String
  | overflow .add => "attempt to add with overflow"
  | overflow .subtract => "attempt to subtract with overflow"
  | overflow .multiply => "attempt to multiply with overflow"
  | indexOutOfBounds size index =>
    s!"index out of bounds: the len is {size} but the index is {index}"
  | unownedBlock .free block => s!"free of unknown or already-freed block {address block}"
  | unownedBlock .reallocate block =>
    s!"reallocate of unknown or already-freed block {address block}"
  | sizeMismatch recorded claimed =>
    "assertion `left == right` failed: " ++
      s!"reallocate: block holds {recorded} bytes, caller passed {claimed}" ++
      s!"\n  left: {recorded}\n right: {claimed}"
  | capacityNotPowerOfTwo => "assertion failed: capacity.is_power_of_two()"
  | handleBeyondChunk => "assertion failed: slice.offset + slice.len <= chunk.offset"
  | noFreeBucket .interner => "grown bucket array has free slots"
  | noFreeBucket .dictionary => "rebuilt bucket array has free slots"
  | foundVacantBucket =>
    "internal error: entered unreachable code: probe returned a vacant slot as found"
  | generationsExhausted => "region generation counter exhausted"

end Fault

/-- Requests that are turned down because carrying them out has no defined meaning. -/
inductive Refusal
  | undefinedUnderRaw
  | deadBlock
  | outsideBlock
  /-- The system is given another layout back than the one it was asked for. -/
  | wrongLayout
  deriving DecidableEq, Repr

def Refusal.message : Refusal → String
  | undefinedUnderRaw => "undefined under raw"
  | deadBlock => "dead block"
  | outsideBlock => "outside the block"
  | wrongLayout => "not the layout of the block"

inductive Failure
  | error (cause : MemoryError)
  | fault (cause : Fault)
  | refused (cause : Refusal)
  /-- No object of this name exists. -/
  | unknown (name : String)
  deriving DecidableEq, Repr

end SymbolStore
