import SymbolStore.Proofs.Memory.Access

/-!
The header in front of the payload of a block: what is written there comes back, writes into the
payload leave it alone, and it says what the system was asked for.
-/

namespace SymbolStore

theorem headerOffset_pos (align : Nat) : 0 < headerOffset align :=
  Nat.lt_of_lt_of_le (by decide) (Nat.le_max_right align blockAlign)

@[simp] theorem headerOffset_headerOffset (align : Nat) :
    headerOffset (headerOffset align) = headerOffset align := by
  unfold headerOffset
  omega

namespace Block

variable (block : Block) (offset : Nat) (values : List UInt8) (payload : Layout) (size : Nat)

theorem headerPlace_add : block.headerPlace + headerSize = block.front := by
  have room : headerSize ≤ block.front := Nat.le_max_right _ _
  unfold headerPlace
  omega

theorem front_pos : 0 < block.front := headerOffset_pos _

@[simp] theorem layout_write : (block.write offset values).layout = block.layout := rfl

@[simp] theorem owner_write : (block.write offset values).owner = block.owner := rfl

@[simp] theorem front_write : (block.write offset values).front = block.front := rfl

@[simp] theorem size_write : (block.write offset values).size = block.size := rfl

@[simp] theorem layout_withHeader : (block.withHeader payload).layout = block.layout := by
  simp only [withHeader]

@[simp] theorem owner_withHeader : (block.withHeader payload).owner = block.owner := by
  simp only [withHeader]

@[simp] theorem front_withHeader : (block.withHeader payload).front = block.front := by
  simp only [front, layout_withHeader]

@[simp] theorem size_withHeader : (block.withHeader payload).size = block.size := by
  simp only [Block.size, front_withHeader, layout_withHeader]

@[simp] theorem front_stretch : (block.stretch size).front = block.front := rfl

@[simp] theorem size_stretch : (block.stretch size).size = size - block.front := rfl

@[simp] theorem owner_stretch : (block.stretch size).owner = block.owner := rfl

/-- Blocks whose bytes are the same up to the payload have the same header. -/
theorem header_congr {block other : Block} (front : other.front = block.front)
    (same : ∀ i < block.front, other.bytes.getD i 0 = block.bytes.getD i 0) :
    other.header = block.header := by
  have place : other.headerPlace = block.headerPlace := by rw [headerPlace, headerPlace, front]
  have behind := block.headerPlace_add
  unfold headerSize at behind
  have words (start : Nat) (before : start + 8 ≤ block.front) :
      (List.range' start 8).map (fun i => other.bytes.getD i 0) =
        (List.range' start 8).map fun i => block.bytes.getD i 0 := by
    apply List.map_congr_left
    intro i member
    rw [List.mem_range'_1] at member
    exact same i (by omega)
  simp only [header, place, words block.headerPlace (by omega),
    words (block.headerPlace + 8) (by omega)]

@[simp] theorem header_write : (block.write offset values).header = block.header := by
  apply header_congr (block.front_write offset values)
  intro i before
  rw [write, getD_putBytes, if_neg (by omega)]

@[simp] theorem align_write : (block.write offset values).align = block.align :=
  congrArg Layout.align (block.header_write offset values)

@[simp] theorem size_owned (owner : Option Nat) : { block with owner : Block }.size = block.size :=
  rfl

@[simp] theorem header_owned (owner : Option Nat) :
    { block with owner : Block }.header = block.header := rfl

theorem map_putBytes (bytes : Array UInt8) (index skip count : Nat) (values : List UInt8)
    (inside : skip + count ≤ values.length) :
    (List.range' (index + skip) count).map (fun i => (putBytes bytes index values).getD i 0) =
      (values.drop skip).take count := by
  apply List.ext_getElem
  · rw [List.length_map, List.length_range', List.length_take, List.length_drop]
    omega
  · intro i here there
    have small : i < count := by simpa using here
    have place : index + skip + i - index = skip + i := by omega
    have covered : index ≤ index + skip + i ∧ index + skip + i < index + values.length := by omega
    have known : skip + i < values.length := by omega
    rw [List.getElem_map, List.getElem_range', Nat.one_mul, getD_putBytes, if_pos covered, place,
      List.getD_eq_getElem?_getD, List.getElem?_eq_getElem known, Option.getD_some,
      List.getElem_take, List.getElem_drop]

theorem header_withHeader_mod : (block.withHeader payload).header =
    { size := payload.size % wordLimit, align := payload.align % wordLimit } := by
  have first := map_putBytes block.bytes block.headerPlace 0 8
    (Word.toBytes payload.size.toUInt64 ++ Word.toBytes payload.align.toUInt64) (by simp)
  have second := map_putBytes block.bytes block.headerPlace 8 8
    (Word.toBytes payload.size.toUInt64 ++ Word.toBytes payload.align.toUInt64) (by simp)
  have place : (block.withHeader payload).headerPlace = block.headerPlace := by
    rw [headerPlace, front_withHeader, headerPlace]
  rw [Nat.add_zero] at first
  simp only [header, place]
  simp only [withHeader, first, second]
  simp [List.take_of_length_le, Word.ofBytes_toBytes, wordLimit]

/-- The header comes back, if it can be written in words. -/
theorem header_withHeader {payload : Layout} (size : payload.size < wordLimit)
    (align : payload.align < wordLimit) : (block.withHeader payload).header = payload := by
  rw [header_withHeader_mod, Nat.mod_eq_of_lt size, Nat.mod_eq_of_lt align]

theorem align_lt : block.align < wordLimit := UInt64.toNat_lt _

/-- The header lies in front of the payload. -/
theorem byte_withHeader (i : Nat) : (block.withHeader payload).byte i = block.byte i := by
  have behind := block.headerPlace_add
  unfold headerSize at behind
  rw [byte, front_withHeader, withHeader, getD_putBytes, if_neg, byte]
  simp
  omega

/-- The header says what the system was asked for. -/
def Headed (block : Block) : Prop := block.layout = block.header.whole

def fresh (payload : Layout) : Block := { layout := payload.whole : Block }.withHeader payload

def issued (payload : Layout) (owner : Nat) : Block := { fresh payload with owner := some owner }

def resize (block : Block) (size : Nat) : Block :=
  (block.stretch (size + block.front)).withHeader { size, align := block.align }

theorem Headed.front_eq {block : Block} (headed : block.Headed) :
    block.front = headerOffset block.align := by
  rw [front, headed]
  exact headerOffset_headerOffset _

theorem Headed.size_eq {block : Block} (headed : block.Headed) :
    block.size = block.header.size := by
  rw [Block.size, headed.front_eq, headed]
  exact Nat.add_sub_cancel _ _

@[simp] theorem layout_fresh : (fresh payload).layout = payload.whole := by
  rw [fresh, layout_withHeader]

@[simp] theorem size_plain : ({ layout := payload.whole : Block }).size = payload.size := by
  show payload.size + headerOffset payload.align - headerOffset (headerOffset payload.align) = _
  rw [headerOffset_headerOffset, Nat.add_sub_cancel]

@[simp] theorem front_fresh : (fresh payload).front = headerOffset payload.align := by
  rw [fresh, front_withHeader]
  exact headerOffset_headerOffset _

@[simp] theorem size_fresh : (fresh payload).size = payload.size := by
  rw [fresh, size_withHeader, size_plain]

@[simp] theorem owner_fresh : (fresh payload).owner = none := by
  rw [fresh, owner_withHeader]

@[simp] theorem size_issued (owner : Nat) : (issued payload owner).size = payload.size := by
  rw [issued, size_owned, size_fresh]

def keeper (block : Block) : Nat := block.owner.getD 0

theorem keeper_eq {block : Block} {owner : Nat} (owned : block.owner = some owner) :
    block.keeper = owner := by
  rw [keeper, owned, Option.getD_some]

@[simp] theorem keeper_issued (owner : Nat) : (issued payload owner).keeper = owner := rfl

@[simp] theorem front_resize : (block.resize size).front = block.front := by
  rw [resize, front_withHeader, front_stretch]

@[simp] theorem size_resize : (block.resize size).size = size := by
  rw [resize, size_withHeader, size_stretch, Nat.add_sub_cancel]

@[simp] theorem owner_resize : (block.resize size).owner = block.owner := by
  rw [resize, owner_withHeader, owner_stretch]

@[simp] theorem keeper_resize : (block.resize size).keeper = block.keeper := by
  rw [keeper, owner_resize, keeper]

theorem byte_resize {size i : Nat} (inside : i < size) :
    (block.resize size).byte i = block.byte i := by
  have bytes : (block.stretch (size + block.front)).bytes =
      block.bytes.extract 0 (size + block.front) := Array.take_eq_extract
  rw [resize, byte_withHeader, byte, front_stretch, bytes, byte]
  simp only [Array.getD_eq_getD_getElem?, Array.getElem?_extract, Nat.sub_zero, Nat.zero_add]
  by_cases short : block.front + i < block.bytes.size
  · rw [if_pos (by omega)]
  · rw [if_neg (by omega), Array.getElem?_eq_none (by omega)]

theorem read_resize {size offset count : Nat} (inside : offset + count ≤ size) :
    (block.resize size).read offset count = block.read offset count := by
  apply List.map_congr_left
  intro i member
  rw [List.mem_range'_1] at member
  exact block.byte_resize (by omega)

section Words

variable {payload : Layout} {block : Block} {size : Nat}

theorem header_fresh (words : payload.size < wordLimit ∧ payload.align < wordLimit) :
    (fresh payload).header = payload := header_withHeader _ words.1 words.2

theorem align_fresh (words : payload.size < wordLimit ∧ payload.align < wordLimit) :
    (fresh payload).align = payload.align := by
  rw [align, header_fresh words]

theorem align_issued (words : payload.size < wordLimit ∧ payload.align < wordLimit)
    (owner : Nat) : (issued payload owner).align = payload.align := by
  rw [align, issued, header_owned, header_fresh words]

theorem headed_fresh (words : payload.size < wordLimit ∧ payload.align < wordLimit) :
    (fresh payload).Headed := by
  rw [Headed, header_fresh words, fresh, layout_withHeader]

theorem header_resize (word : size < wordLimit) :
    (block.resize size).header = { size, align := block.align } :=
  header_withHeader _ word block.align_lt

theorem align_resize (word : size < wordLimit) : (block.resize size).align = block.align := by
  show (block.resize size).header.align = block.align
  rw [header_resize word]

theorem headed_resize (headed : block.Headed) (word : size < wordLimit) :
    (block.resize size).Headed := by
  rw [Headed, header_resize word, resize, layout_withHeader, stretch, headed.front_eq, headed]
  rfl

end Words

end Block

end SymbolStore
