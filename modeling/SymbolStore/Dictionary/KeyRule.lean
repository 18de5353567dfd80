import SymbolStore.Dictionary.Basic
import SymbolStore.Digest

/-! The usual ways to hash and compare keys. -/

namespace SymbolStore.KeyRule

variable {K : Type}

def byContent [DecidableEq K] (feeds : K → List Feed) : KeyRule K where
  hash key := Digest.ofFeeds (feeds key)
  same stored asked := stored = asked

/-- Keys at one address are the same, whatever their content. -/
def byAddress (address : K → Nat) : KeyRule K where
  hash key := Digest.ofFeeds [.ofNat (address key)]
  same stored asked := address stored = address asked

end SymbolStore.KeyRule
