import Mathlib.Logic.Function.Basic
import SymbolStore.Digest
import SymbolStore.Proofs.Memory.Access

/-!
What the hash of byte strings keeps apart. Taking in a word loses nothing of the state and nothing of
the word, and the finalizer is a bijection. Strings that differ in one word only have different
hashes, and so have runs of zeros of different lengths.
-/

namespace SymbolStore

open Function (Bijective Injective Involutive)

namespace Word

theorem bijective_multiply (multiplier inverse : UInt64) (unit : multiplier * inverse = 1) :
    Bijective fun word => word * multiplier := by
  have forth (word : UInt64) : word * multiplier * inverse = word := by
    rw [UInt64.mul_assoc, unit, UInt64.mul_one]
  have back (word : UInt64) : word * inverse * multiplier = word := by
    rw [UInt64.mul_assoc, UInt64.mul_comm inverse, unit, UInt64.mul_one]
  exact Function.bijective_iff_has_inverse.mpr ⟨fun word => word * inverse, forth, back⟩

theorem bijective_xor (mask : UInt64) : Bijective fun word => word ^^^ mask := by
  apply Involutive.bijective
  intro word
  dsimp only
  rw [UInt64.xor_assoc, UInt64.xor_self, UInt64.xor_zero]

/-- A shift by more than half of the bits is undone by the same step once more. -/
theorem bijective_xorShift : Bijective fun word : UInt64 => word ^^^ (word >>> 33) := by
  apply Involutive.bijective
  intro word
  apply UInt64.toBitVec_inj.mp
  apply BitVec.eq_of_getLsbD_eq
  intro i inside
  have beyond : word.toBitVec.getLsbD (33 + (33 + i)) = false :=
    BitVec.getLsbD_of_ge _ _ (by omega)
  simp [beyond]

theorem ofBytes_injective {a b : List UInt8} (sameLength : a.length = b.length)
    (short : a.length ≤ 8) (equal : ofBytes a = ofBytes b) : a = b := by
  apply List.ext_getElem sameLength
  intro i insideA insideB
  apply UInt8.toBitVec_inj.mp
  apply BitVec.eq_of_getLsbD_eq
  intro k bit
  have bits := congrArg (fun word => word.toBitVec.getLsbD (8 * i + k)) equal
  have byte : (8 * i + k) / 8 = i := by omega
  have rest : (8 * i + k) % 8 = k := by omega
  simpa [getLsbD_ofBytes _ (by omega : 8 * i + k < 64), byte, rest, insideA, insideB] using bits

theorem ofBytes_zeros {bytes : List UInt8} (zeros : ∀ byte ∈ bytes, byte = 0) :
    ofBytes bytes = 0 := by
  induction bytes with
  | nil => rfl
  | cons byte rest ih =>
      rw [List.forall_mem_cons] at zeros
      simp [ofBytes, zeros.1, ih zeros.2]

end Word

namespace Digest

/-! ### The steps of the hash -/

theorem getLsbD_rotateLeft5 (state : UInt64) {i : Nat} (inside : i < 64) :
    (rotateLeft5 state).toBitVec.getLsbD i =
      state.toBitVec.getLsbD (if i < 5 then 59 + i else i - 5) := by
  by_cases low : i < 5
  · simp [rotateLeft5, low]
  · have beyond : state.toBitVec.getLsbD (59 + i) = false :=
      BitVec.getLsbD_of_ge _ _ (by omega)
    simp [rotateLeft5, low, inside, beyond, BitVec.getLsbD_eq_getElem (by omega : i - 5 < 64)]

theorem rotateLeft5_injective : Injective rotateLeft5 := by
  intro state other equal
  have bits (k : Nat) := congrArg (fun word => word.toBitVec.getLsbD k) equal
  apply UInt64.toBitVec_inj.mp
  apply BitVec.eq_of_getLsbD_eq
  intro i inside
  by_cases high : i < 59
  · have place : ¬ i + 5 < 5 := by omega
    simpa [getLsbD_rotateLeft5 _ (by omega : i + 5 < 64), place] using bits (i + 5)
  · have low : i - 59 < 5 := by omega
    have place : 59 + (i - 59) = i := by omega
    simpa [getLsbD_rotateLeft5 _ (by omega : i - 59 < 64), low, place] using bits (i - 59)

theorem bijective_multiplier : Bijective fun word : UInt64 => word * 0x517cc1b727220a95 :=
  Word.bijective_multiply 0x517cc1b727220a95 0x2040003d780970bd (by decide)

theorem absorb_injective_state (word : UInt64) : Injective fun state => absorb state word :=
  bijective_multiplier.injective.comp
    ((Word.bijective_xor word).injective.comp rotateLeft5_injective)

theorem absorb_injective_word (state : UInt64) : Injective (absorb state) := by
  intro word other equal
  have masked := bijective_multiplier.injective equal
  rw [UInt64.xor_comm, UInt64.xor_comm _ other] at masked
  exact (Word.bijective_xor _).injective masked

/-- The words taken in later do not make up for a difference. -/
theorem foldl_absorb_injective (words : List UInt64) :
    Injective fun state => words.foldl absorb state := by
  induction words with
  | nil => exact Function.injective_id
  | cons word rest ih => exact ih.comp (absorb_injective_state word)

theorem bijective_avalanche : Bijective avalanche := by
  have first := Word.bijective_multiply 0xff51afd7ed558ccd 0x4f74430c22a54005 (by decide)
  have second := Word.bijective_multiply 0xc4ceb9fe1a85ec53 0x9cb4b2f8129337db (by decide)
  have shift := Word.bijective_xorShift
  exact shift.comp (second.comp (shift.comp (first.comp shift)))

/-- The length is taken in last: of strings of one length the hashes are equal only if the states
before it are. -/
theorem ofBytes_eq_iff {a b : List UInt8} (sameLength : a.length = b.length) :
    ofBytes a = ofBytes b ↔ absorbBytes 0 a = absorbBytes 0 b := by
  rw [ofBytes, ofBytes, bijective_avalanche.injective.eq_iff, sameLength]
  exact (absorb_injective_state _).eq_iff

/-! ### Words of a string -/

/-- How many bytes make the first word of so many. -/
def leading (length : Nat) : Nat := if 8 ≤ length then 8 else if 4 ≤ length then 4 else 1

/-- The number of the word that the byte at a position belongs to: there are words of eight bytes as
far as they go, one of four if there are as many left, and words of one. -/
def wordOf (length position : Nat) : Nat :=
  if position / 8 < length / 8 then position / 8
  else if 4 ≤ length % 8 then length / 8 + (position % 8 - 3)
  else length / 8 + position % 8

theorem leading_pos (length : Nat) : 0 < leading length := by
  unfold leading
  grind

theorem leading_le_eight (length : Nat) : leading length ≤ 8 := by
  unfold leading
  grind

theorem leading_le {length : Nat} (some : 0 < length) : leading length ≤ length := by
  unfold leading
  grind

theorem wordOf_leading {length position : Nat} (inside : position < leading length) :
    wordOf length position = 0 := by
  unfold leading at inside
  unfold wordOf
  split at inside
  · rw [if_pos (by omega)]
    omega
  · rw [if_neg (by omega)]
    grind

theorem wordOf_rest {length position : Nat} (inside : leading length + position < length) :
    wordOf length (leading length + position) =
      wordOf (length - leading length) position + 1 := by
  unfold leading at inside ⊢
  unfold wordOf
  grind

example : (List.range 13).map (wordOf 13) = [0, 0, 0, 0, 0, 0, 0, 0, 1, 1, 1, 1, 2] := by decide

theorem words_eq_cons {bytes : List UInt8} (some : bytes ≠ []) :
    words bytes = Word.ofBytes (bytes.take (leading bytes.length)) ::
      words (bytes.drop (leading bytes.length)) := by
  match bytes with
  | [] => contradiction
  | [_] => simp [words, shortWords, leading, Word.ofBytes]
  | [_, _] => simp [words, shortWords, leading, Word.ofBytes]
  | [_, _, _] => simp [words, shortWords, leading, Word.ofBytes]
  | [_, _, _, _] => simp [words, shortWords, leading]
  | [_, _, _, _, _] => simp [words, shortWords, leading]
  | [_, _, _, _, _, _] => simp [words, shortWords, leading]
  | [_, _, _, _, _, _, _] => simp [words, shortWords, leading]
  | _ :: _ :: _ :: _ :: _ :: _ :: _ :: _ :: _ => simp [words, leading]

@[elab_as_elim]
theorem induction_words {motive : List UInt8 → Prop} (nil : motive [])
    (cons : ∀ bytes, bytes ≠ [] → motive (bytes.drop (leading bytes.length)) → motive bytes)
    (bytes : List UInt8) : motive bytes := by
  by_cases some : bytes = []
  · rw [some]
    exact nil
  · exact cons bytes some (induction_words nil cons (bytes.drop (leading bytes.length)))
termination_by bytes.length
decreasing_by
  have positive := List.length_pos_iff.mpr some
  have advances := leading_pos bytes.length
  rw [List.length_drop]
  omega

/-! ### Strings that differ in one word -/

inductive OneApart : List UInt64 → List UInt64 → Prop
  | here {word other : UInt64} (rest : List UInt64) (different : word ≠ other) :
      OneApart (word :: rest) (other :: rest)
  | later (word : UInt64) {words others : List UInt64} (apart : OneApart words others) :
      OneApart (word :: words) (word :: others)

/-- All bytes in which two strings of one length differ belong to the same word. -/
def Confined (a b : List UInt8) : Prop :=
  ∃ word, ∀ position < a.length, a[position]? ≠ b[position]? → wordOf a.length position = word

/-- Strings that differ only within a word have the first word in common, or all the rest. -/
theorem Confined.split {a b : List UInt8} (sameLength : a.length = b.length)
    (confined : Confined a b) (some : 0 < a.length) :
    a.take (leading a.length) = b.take (leading a.length) ∧
        Confined (a.drop (leading a.length)) (b.drop (leading a.length)) ∨
      a.drop (leading a.length) = b.drop (leading a.length) := by
  obtain ⟨word, inside⟩ := confined
  have fits := leading_le some
  by_cases common : a.take (leading a.length) = b.take (leading a.length)
  · refine .inl ⟨common, word - 1, ?_⟩
    intro position short different
    rw [List.length_drop] at short ⊢
    rw [List.getElem?_drop, List.getElem?_drop] at different
    have belongs := inside (leading a.length + position) (by omega) different
    rw [wordOf_rest (by omega)] at belongs
    omega
  · have first : word = 0 := by
      by_contra later
      apply common
      apply List.ext_getElem?
      intro position
      rw [List.getElem?_take, List.getElem?_take]
      split
      · rename_i low
        by_contra different
        have belongs := inside position (by omega) different
        rw [wordOf_leading low] at belongs
        exact later belongs.symm
      · rfl
    apply Or.inr
    apply List.ext_getElem?
    intro position
    rw [List.getElem?_drop, List.getElem?_drop]
    by_cases short : leading a.length + position < a.length
    · by_contra different
      have belongs := inside (leading a.length + position) short different
      rw [wordOf_rest short] at belongs
      omega
    · rw [List.getElem?_eq_none (by omega), List.getElem?_eq_none (by omega)]

/-- Strings that differ only within a word have words that agree but for one. -/
theorem Confined.oneApart {a b : List UInt8} (sameLength : a.length = b.length)
    (different : a ≠ b) (confined : Confined a b) : OneApart (words a) (words b) := by
  induction a using induction_words generalizing b with
  | nil => exact (different (List.length_eq_zero_iff.mp sameLength.symm).symm).elim
  | cons a some ih =>
      have positive := List.length_pos_iff.mpr some
      have alsoSome : b ≠ [] := List.length_pos_iff.mp (sameLength ▸ positive)
      have joined : a.take (leading a.length) = b.take (leading a.length) →
          a.drop (leading a.length) = b.drop (leading a.length) → a = b := by
        intro front behind
        rw [← List.take_append_drop (leading a.length) a, front, behind, List.take_append_drop]
      rw [words_eq_cons some, words_eq_cons alsoSome, ← sameLength]
      rcases confined.split sameLength positive with ⟨front, restConfined⟩ | behind
      · rw [front]
        apply OneApart.later
        apply ih (by simp [sameLength]) _ restConfined
        intro behind
        exact different (joined front behind)
      · rw [behind]
        apply OneApart.here
        intro equal
        have short : (a.take (leading a.length)).length ≤ 8 :=
          Nat.le_trans (List.length_take_le _ _) (leading_le_eight a.length)
        have front := Word.ofBytes_injective (by simp [sameLength]) short equal
        exact different (joined front behind)

theorem OneApart.foldl_absorb_ne {words others : List UInt64} (apart : OneApart words others)
    (state : UInt64) : words.foldl absorb state ≠ others.foldl absorb state := by
  induction apart generalizing state with
  | here rest different =>
      intro equal
      exact different (absorb_injective_word state (foldl_absorb_injective rest equal))
  | later word apart ih => exact ih (absorb state word)

/-- Two strings of one length have different hashes if they differ only within one of the words that
they are cut into: for instance in one byte, wherever it is. -/
theorem ofBytes_separates {a b : List UInt8} (sameLength : a.length = b.length)
    (different : a ≠ b)
    (confined : Confined a b ∨
      ∃ position, ∀ other : Nat, other ≠ position → a[other]? = b[other]?) :
    ofBytes a ≠ ofBytes b := by
  have withinWord : Confined a b := by
    rcases confined with confined | ⟨position, same⟩
    · exact confined
    · refine ⟨wordOf a.length position, ?_⟩
      intro other _ unlike
      rw [Decidable.not_imp_comm.mp (same other) unlike]
  rw [Ne, ofBytes_eq_iff sameLength]
  exact (withinWord.oneApart sameLength different).foldl_absorb_ne 0

/-- Two bytes of the word of four that follows one of eight. -/
theorem ofBytes_separates_four :
    Confined [0, 0, 0, 0, 0, 0, 0, 0, 1, 2, 3, 4, 5] [0, 0, 0, 0, 0, 0, 0, 0, 6, 2, 7, 4, 5] ∧
      ofBytes [0, 0, 0, 0, 0, 0, 0, 0, 1, 2, 3, 4, 5] ≠
        ofBytes [0, 0, 0, 0, 0, 0, 0, 0, 6, 2, 7, 4, 5] := by
  have confined : Confined [0, 0, 0, 0, 0, 0, 0, 0, 1, 2, 3, 4, 5]
      [0, 0, 0, 0, 0, 0, 0, 0, 6, 2, 7, 4, 5] := ⟨1, by decide⟩
  exact ⟨confined, ofBytes_separates rfl (by decide) (.inl confined)⟩

/-! ### Runs of zeros -/

theorem absorbBytes_zeros {bytes : List UInt8} (zeros : ∀ byte ∈ bytes, byte = 0) :
    absorbBytes 0 bytes = 0 := by
  induction bytes using induction_words with
  | nil => rfl
  | cons bytes some ih =>
      have zero : absorb 0 0 = 0 := by decide
      have first : Word.ofBytes (bytes.take (leading bytes.length)) = 0 :=
        Word.ofBytes_zeros fun byte member => zeros byte (List.mem_of_mem_take member)
      calc
        absorbBytes 0 bytes = absorbBytes (absorb 0 0) (bytes.drop (leading bytes.length)) := by
          rw [absorbBytes, words_eq_cons some, first, List.foldl_cons, absorbBytes]
        _ = absorbBytes 0 (bytes.drop (leading bytes.length)) := by rw [zero]
        _ = 0 := ih fun byte member => zeros byte (List.mem_of_mem_drop member)

/-- Runs of zeros of different lengths leave one state and are kept apart by their lengths alone. -/
theorem ofBytes_zeros_apart {count other : Nat} (bounded : count < wordLimit)
    (otherBounded : other < wordLimit) (different : count ≠ other) :
    absorbBytes 0 (List.replicate count 0) = absorbBytes 0 (List.replicate other 0) ∧
      ofBytes (List.replicate count 0) ≠ ofBytes (List.replicate other 0) := by
  have state (length : Nat) : absorbBytes 0 (List.replicate length 0) = 0 :=
    absorbBytes_zeros fun byte member => List.eq_of_mem_replicate member
  refine ⟨by rw [state, state], ?_⟩
  intro equal
  rw [ofBytes, ofBytes, state, state, List.length_replicate, List.length_replicate] at equal
  have lengths := absorb_injective_word 0 (bijective_avalanche.injective equal)
  apply different
  calc
    count = count.toUInt64.toNat := (UInt64.toNat_ofNat_of_lt bounded).symm
    _ = other.toUInt64.toNat := congrArg UInt64.toNat lengths
    _ = other := UInt64.toNat_ofNat_of_lt otherBounded

theorem ofBytes_zeros_apart_eight :
    absorbBytes 0 (List.replicate 7 0) = absorbBytes 0 (List.replicate 8 0) ∧
      ofBytes (List.replicate 7 0) ≠ ofBytes (List.replicate 8 0) :=
  ofBytes_zeros_apart (by decide) (by decide) (by decide)

end Digest

end SymbolStore
