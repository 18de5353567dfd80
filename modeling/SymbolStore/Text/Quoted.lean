import SymbolStore.Text.Unprintable
import SymbolStore.Text.Extender

/-! Texts between double quotes, with every character that would not show on its own spelled out. -/

namespace SymbolStore.Text

def inRanges (ranges : Array (Nat × Nat)) (code : Nat) : Bool :=
  ranges.any fun (first, last) => first ≤ code && code ≤ last

/-- Characters shown as they are: those with a visible form that stand on their own. -/
def showsItself (c : Char) : Bool :=
  !inRanges extenderRanges c.toNat && !inRanges unprintableRanges c.toNat

def codeEscape (c : Char) : List Char :=
  '\\' :: 'u' :: '\x7b' :: (Nat.toDigits 16 c.toNat ++ ['\x7d'])

def escape (c : Char) : List Char :=
  if c = '\x00' then ['\\', '0']
  else if c = '\t' then ['\\', 't']
  else if c = '\r' then ['\\', 'r']
  else if c = '\n' then ['\\', 'n']
  else if c = '"' ∨ c = '\\' then ['\\', c]
  else if showsItself c then [c]
  else codeEscape c

def quoted (text : String) : String :=
  String.ofList ('"' :: (text.toList.flatMap escape ++ ['"']))

end SymbolStore.Text
