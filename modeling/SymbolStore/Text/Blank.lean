/-! White space at the ends of a text, and letter case within ASCII. -/

namespace SymbolStore.Text

/-- The characters with the property White_Space. -/
def isBlank (c : Char) : Bool :=
  let code := c.toNat
  (9 ≤ code && code ≤ 13) || code == 0x20 || code == 0x85 || code == 0xA0 || code == 0x1680 ||
    (0x2000 ≤ code && code ≤ 0x200A) || code == 0x2028 || code == 0x2029 || code == 0x202F ||
    code == 0x205F || code == 0x3000

def trimmed (text : List Char) : List Char :=
  ((text.dropWhile isBlank).reverse.dropWhile isBlank).reverse

def trim (text : String) : String := String.ofList (trimmed text.toList)

/-- Small letters of ASCII become capitals, all else stays. -/
def upperCase (text : String) : String := String.ofList (text.toList.map Char.toUpper)

def lowerCase (text : String) : String := String.ofList (text.toList.map Char.toLower)

end SymbolStore.Text
