import SymbolStore.Bucket.Basic

/-!
The order in which the buckets of a table are searched for a hash: from the hash on, with steps
of 1, 2, 3, … modulo the number of buckets, which is a power of two.
-/

namespace SymbolStore

/-- The rest of a walk over the buckets. -/
structure Chain where
  position : Nat
  stride : Nat
  mask : Nat
  remaining : Nat
  deriving DecidableEq, Repr

namespace Chain

def start (hash : UInt64) (capacity : Nat) : Except Fault Chain :=
  if isPowerOfTwo capacity then
    .ok
      { position := hash.toNat &&& (capacity - 1)
        stride := 0
        mask := capacity - 1
        remaining := capacity }
  else .error .capacityNotPowerOfTwo

def next (chain : Chain) : Except Fault (Option (Nat × Chain)) :=
  match chain.remaining with
  | 0 => .ok none
  | remaining + 1 => do
    let stride ← Word.add chain.stride 1
    let position ← Word.add chain.position stride
    return some (chain.position,
      { chain with position := position &&& chain.mask, stride, remaining })

def take : Nat → Chain → Except Fault (List Nat)
  | 0, _ => .ok []
  | count + 1, chain => do
    match ← chain.next with
    | none => return []
    | some (index, rest) => return index :: (← take count rest)

end Chain

end SymbolStore
