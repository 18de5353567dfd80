import Mathlib.Data.Nat.Digits.Defs
import Mathlib.Tactic.Ring
import SymbolStore.Text.Decimal

/-!
Which texts denote a word in decimal digits, and what is wrong with the others: they are empty, they
run into the end of the words, or they have a character that has no place there.
-/

namespace SymbolStore.Text

def digitValue (c : Char) : Nat := c.toNat - '0'.toNat

/-- The number that digits denote, the most significant digit first. -/
def number (digits : List Char) : Nat := Nat.ofDigits 10 (digits.map digitValue).reverse

/-- A property of a text, or of what follows the plus sign in front of it. -/
def Signed (P : List Char → Prop) (text : List Char) : Prop :=
  P text ∨ ∃ unsigned, text = '+' :: unsigned ∧ P unsigned

/-- One or more digits denote a number. A plus sign may stand in front of them. -/
def Denotes (text : List Char) (n : Nat) : Prop :=
  Signed (fun digits => digits ≠ [] ∧ (∀ c ∈ digits, c.isDigit = true) ∧ number digits = n) text

/-- The digits at the start of a text, put behind those of a value, denote a number beyond the
words. -/
def Outgrows (value : Nat) (text : List Char) : Prop :=
  ∃ digits rest, text = digits ++ rest ∧ (∀ c ∈ digits, c.isDigit = true) ∧
    wordLimit ≤ value * 10 ^ digits.length + number digits

/-- What an error says of a text that does not denote a word. -/
def DecimalError.Explains (text : List Char) : DecimalError → Prop
  | empty => text = []
  | invalidDigit => text ≠ [] ∧ ¬ Signed (Outgrows 0) text
  | tooLarge => Signed (Outgrows 0) text

/-! ### Digits -/

@[simp] theorem number_nil : number [] = 0 := rfl

theorem number_cons (c : Char) (digits : List Char) :
    number (c :: digits) = digitValue c * 10 ^ digits.length + number digits := by
  simp [number, Nat.ofDigits_append, Nat.add_comm, Nat.mul_comm]

theorem shifted_cons (value : Nat) (c : Char) (digits : List Char) :
    value * 10 ^ (c :: digits).length + number (c :: digits) =
      (value * 10 + digitValue c) * 10 ^ digits.length + number digits := by
  rw [number_cons, List.length_cons]
  ring

theorem digit?_eq (c : Char) : digit? c = if c.isDigit then some (digitValue c) else none := by
  simp [digit?, Char.isDigit, Char.le_def, digitValue]

theorem not_outgrows_nil {value : Nat} (bounded : value < wordLimit) : ¬ Outgrows value [] := by
  intro outgrows
  obtain ⟨digits, rest, split, -, beyond⟩ := outgrows
  obtain ⟨rfl, rfl⟩ := List.append_eq_nil_iff.mp split.symm
  rw [List.length_nil, pow_zero, mul_one, number_nil] at beyond
  omega

theorem outgrows_cons {value : Nat} (bounded : value < wordLimit) (c : Char) (rest : List Char) :
    Outgrows value (c :: rest) ↔
      c.isDigit = true ∧ Outgrows (value * 10 + digitValue c) rest := by
  constructor
  · intro outgrows
    obtain ⟨digits, behind, split, all, beyond⟩ := outgrows
    cases digits with
    | nil =>
        rw [List.length_nil, pow_zero, mul_one, number_nil] at beyond
        omega
    | cons d digits =>
        obtain ⟨rfl, rfl⟩ := List.cons.inj split
        rw [List.forall_mem_cons] at all
        rw [shifted_cons] at beyond
        exact ⟨all.1, digits, behind, rfl, all.2, beyond⟩
  · intro outgrows
    obtain ⟨digit, digits, behind, rfl, all, beyond⟩ := outgrows
    refine ⟨c :: digits, behind, rfl, List.forall_mem_cons.mpr ⟨digit, all⟩, ?_⟩
    rwa [shifted_cons]

theorem readDigits_eq_ok_iff {value : Nat} (bounded : value < wordLimit) {text : List Char}
    {n : Nat} : readDigits value text = .ok n ↔
      (∀ c ∈ text, c.isDigit = true) ∧ value * 10 ^ text.length + number text = n ∧
        n < wordLimit := by
  induction text generalizing value with
  | nil =>
      simp only [readDigits, Except.ok.injEq, List.not_mem_nil, IsEmpty.forall_iff, implies_true,
        List.length_nil, pow_zero, mul_one, number_nil, add_zero, true_and, iff_self_and]
      omega
  | cons c rest ih =>
      rw [readDigits, digit?_eq, shifted_cons, List.forall_mem_cons]
      by_cases digit : c.isDigit = true
      · simp only [digit, if_true, true_and]
        split
        · rename_i fits
          exact ih fits
        · rename_i beyond
          have larger := Nat.le_mul_of_pos_right (value * 10 + digitValue c)
            (Nat.pow_pos (n := rest.length) (by decide : 0 < 10))
          simp only [reduceCtorEq, false_iff, not_and, not_lt]
          omega
      · simp [digit]

theorem readDigits_eq_tooLarge_iff {value : Nat} (bounded : value < wordLimit)
    {text : List Char} : readDigits value text = .error .tooLarge ↔ Outgrows value text := by
  induction text generalizing value with
  | nil => simp [readDigits, not_outgrows_nil bounded]
  | cons c rest ih =>
      rw [readDigits, digit?_eq, outgrows_cons bounded]
      by_cases digit : c.isDigit = true
      · simp only [digit, if_true, true_and]
        split
        · rename_i fits
          exact ih fits
        · rename_i beyond
          have here : Outgrows (value * 10 + digitValue c) rest :=
            ⟨[], rest, rfl, by simp, by simpa using Nat.not_lt.mp beyond⟩
          simp [here]
      · simp [digit]

theorem readDigits_ne_empty (value : Nat) (text : List Char) :
    readDigits value text ≠ .error .empty := by
  fun_induction readDigits value text <;> simp_all

/-! ### Signs -/

def unsigned : List Char → List Char
  | '+' :: rest => rest
  | text => text

/-- A property of texts that have no sign in front, with a sign allowed. -/
theorem signed_iff {P : List Char → Prop} (unlike : ∀ rest, ¬ P ('+' :: rest))
    (text : List Char) : Signed P text ↔ P (unsigned text) := by
  fun_cases unsigned text
  · rename_i rest
    simp [Signed, unlike]
  · rename_i plain
    have other : ∀ rest, text ≠ '+' :: rest := fun rest same => plain rest same
    simp [Signed, other]

theorem denotes_iff {text : List Char} {n : Nat} : Denotes text n ↔
    unsigned text ≠ [] ∧ (∀ c ∈ unsigned text, c.isDigit = true) ∧
      number (unsigned text) = n := by
  apply signed_iff
  intro rest digits
  exact absurd (digits.2.1 '+' List.mem_cons_self) (by decide)

theorem signed_outgrows_iff {text : List Char} :
    Signed (Outgrows 0) text ↔ Outgrows 0 (unsigned text) := by
  apply signed_iff
  intro rest outgrows
  exact absurd ((outgrows_cons (by decide) '+' rest).mp outgrows).1 (by decide)

theorem unsigned_eq_nil_iff {text : List Char} : unsigned text = [] ↔ text = [] ∨ text = ['+'] := by
  fun_cases unsigned text
  · simp
  · rename_i plain
    have other : text ≠ ['+'] := fun same => plain [] same
    simp [other]

theorem readWord_eq {text : List Char} (some : unsigned text ≠ []) :
    readWord text = readDigits 0 (unsigned text) := by
  unfold readWord
  split
  · contradiction
  · contradiction
  · rfl
  · rename_i plain
    rw [unsigned]
    exact plain

theorem readWord_eq_ok_iff {text : List Char} {n : Nat} :
    readWord text = .ok n ↔ Denotes text n ∧ n < wordLimit := by
  rw [denotes_iff]
  by_cases nothing : unsigned text = []
  · rcases unsigned_eq_nil_iff.mp nothing with rfl | rfl
    · simp [readWord, unsigned]
    · simp [readWord, unsigned]
  · rw [readWord_eq nothing, readDigits_eq_ok_iff (by decide)]
    simp [nothing, and_assoc]

/-- The error tells why a text denotes no word. -/
theorem explains_of_readWord {text : List Char} {cause : DecimalError}
    (stopped : readWord text = .error cause) : cause.Explains text := by
  by_cases nothing : unsigned text = []
  · rcases unsigned_eq_nil_iff.mp nothing with rfl | rfl
    · cases stopped
      rfl
    · cases stopped
      refine ⟨List.cons_ne_nil _ _, ?_⟩
      rw [signed_outgrows_iff]
      exact not_outgrows_nil (by decide)
  · rw [readWord_eq nothing] at stopped
    cases cause with
    | empty => exact (readDigits_ne_empty _ _ stopped).elim
    | tooLarge =>
        apply signed_outgrows_iff.mpr
        exact (readDigits_eq_tooLarge_iff (by decide)).mp stopped
    | invalidDigit =>
        constructor
        · intro empty
          rw [empty] at nothing
          exact nothing rfl
        · rw [signed_outgrows_iff, ← readDigits_eq_tooLarge_iff (by decide), stopped]
          simp

/-- A text denotes one number only, and there is one reason if it denotes no word. -/
theorem Denotes.unique {text : List Char} {n m : Nat} (first : Denotes text n)
    (second : Denotes text m) : n = m :=
  (denotes_iff.mp first).2.2.symm.trans (denotes_iff.mp second).2.2

theorem DecimalError.Explains.unique {text : List Char} {first second : DecimalError}
    (explains : first.Explains text) (also : second.Explains text) : first = second := by
  have empty : ¬ Signed (Outgrows 0) [] := by
    rw [signed_outgrows_iff]
    exact not_outgrows_nil (by decide)
  cases first <;> cases second <;> simp_all [Explains]

end SymbolStore.Text
