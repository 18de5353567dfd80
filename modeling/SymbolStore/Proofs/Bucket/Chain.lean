import Mathlib.Data.Finset.Card
import Mathlib.Data.List.Nodup
import Mathlib.Algebra.Ring.Parity
import Mathlib.Data.Nat.Prime.Basic
import Mathlib.Tactic.Ring
import SymbolStore.Bucket.Chain
import SymbolStore.Proofs.PowerOfTwo

/-! The walk over the buckets is a permutation of them, and none of its additions overflows. -/

namespace SymbolStore

/-- The sum of the strides of the first `step` steps of a walk. -/
def triangular (step : Nat) : Nat := step * (step + 1) / 2

theorem two_mul_triangular (step : Nat) : 2 * triangular step = step * (step + 1) :=
  Nat.mul_div_cancel' (Nat.even_mul_succ_self step).two_dvd

theorem triangular_succ (step : Nat) : triangular (step + 1) = triangular step + (step + 1) := by
  have before := two_mul_triangular step
  have after := two_mul_triangular (step + 1)
  have expanded : (step + 1) * (step + 1 + 1) = step * (step + 1) + 2 * (step + 1) := by ring
  omega

/-- Twice the difference of two triangular numbers is the product of an odd and an even number, so
a power of two that divides it divides the even one. -/
theorem triangular_apart (k i d : Nat) (positive : 0 < d) (small : i + d < 2 ^ k) :
    ¬ 2 ^ k ∣ triangular (i + d) - triangular i := by
  intro holds
  rcases holds with ⟨quotient, multiple⟩
  have double : 2 ^ (k + 1) = 2 * 2 ^ k := by ring
  have product : d * (2 * i + d + 1) = 2 ^ (k + 1) * quotient := by
    have lower := two_mul_triangular i
    have upper := two_mul_triangular (i + d)
    have expanded : (i + d) * (i + d + 1) = i * (i + 1) + d * (2 * i + d + 1) := by ring
    have doubled : 2 ^ (k + 1) * quotient = 2 * (2 ^ k * quotient) := by ring
    omega
  have divides : 2 ^ (k + 1) ∣ d * (2 * i + d + 1) := ⟨quotient, product⟩
  rcases Nat.even_or_odd d with even | odd
  · have odd : Odd (2 * i + d + 1) := by
      rcases even with ⟨half, rfl⟩
      exact ⟨i + half, by ring⟩
    have coprime : Nat.Coprime (2 ^ (k + 1)) (2 * i + d + 1) :=
      (Nat.coprime_two_left.mpr odd).pow_left (k + 1)
    have bound := Nat.le_of_dvd positive (coprime.dvd_of_dvd_mul_right divides)
    omega
  · have coprime : Nat.Coprime (2 ^ (k + 1)) d :=
      (Nat.coprime_two_left.mpr odd).pow_left (k + 1)
    have bound := Nat.le_of_dvd (by omega) (coprime.dvd_of_dvd_mul_left divides)
    omega

def TableSize (capacity : Nat) : Prop := ∃ k ≤ 63, capacity = 2 ^ k

theorem tableSize_iff (capacity : Nat) :
    TableSize capacity ↔ isPowerOfTwo capacity = true ∧ capacity < wordLimit := by
  rw [wordLimit_eq]
  constructor
  · intro holds
    rcases holds with ⟨k, small, rfl⟩
    exact ⟨isPowerOfTwo_pow k, Nat.pow_lt_pow_right (by decide) (by omega)⟩
  · intro holds
    rcases holds with ⟨power, small⟩
    obtain ⟨k, rfl⟩ := isPowerOfTwo_iff.mp power
    have exponent := (Nat.pow_lt_pow_iff_right (by decide)).mp small
    exact ⟨k, by omega, rfl⟩

theorem tableSize_pos {capacity : Nat} (size : TableSize capacity) : 0 < capacity := by
  rcases size with ⟨k, -, rfl⟩
  exact Nat.two_pow_pos k

theorem tableSize_le {capacity : Nat} (size : TableSize capacity) : capacity ≤ 2 ^ 63 := by
  rcases size with ⟨k, small, rfl⟩
  exact Nat.pow_le_pow_right (by decide) small

namespace Chain

def index (hash : UInt64) (capacity step : Nat) : Nat :=
  (hash.toNat + triangular step) % capacity

def after (hash : UInt64) (capacity step : Nat) : Chain :=
  { position := index hash capacity step
    stride := step
    mask := capacity - 1
    remaining := capacity - step }

def order (hash : UInt64) (capacity : Nat) : List Nat :=
  (List.range capacity).map (index hash capacity)

variable {hash : UInt64} {capacity : Nat}

theorem start_eq (size : TableSize capacity) :
    start hash capacity = .ok (after hash capacity 0) := by
  have power := ((tableSize_iff capacity).mp size).1
  rcases size with ⟨k, -, rfl⟩
  have masked : hash.toNat &&& (2 ^ k - 1) = hash.toNat % 2 ^ k :=
    Nat.and_two_pow_sub_one_eq_mod _ k
  simp [start, power, after, index, triangular, masked]

theorem next_end : (after hash capacity capacity).next = .ok none := by simp [after, next]

/-- No addition of a step overflows: a position is below the capacity and a stride at most it. -/
theorem next_after (size : TableSize capacity) {step : Nat} (inside : step < capacity) :
    (after hash capacity step).next =
      .ok (some (index hash capacity step, after hash capacity (step + 1))) := by
  have bound := tableSize_le size
  have position : index hash capacity step < capacity := Nat.mod_lt _ (tableSize_pos size)
  rcases size with ⟨k, -, rfl⟩
  have limit : 2 * 2 ^ 63 = wordLimit := rfl
  have remaining : 2 ^ k - step = (2 ^ k - (step + 1)) + 1 := by omega
  have stride : step + 1 < wordLimit := by omega
  have sum : index hash (2 ^ k) step + (step + 1) < wordLimit := by omega
  have masked : (index hash (2 ^ k) step + (step + 1)) &&& (2 ^ k - 1) =
      index hash (2 ^ k) (step + 1) := by
    calc
      _ = (index hash (2 ^ k) step + (step + 1)) % 2 ^ k := Nat.and_two_pow_sub_one_eq_mod _ k
      _ = (hash.toNat + triangular step + (step + 1)) % 2 ^ k := Nat.mod_add_mod _ _ _
      _ = index hash (2 ^ k) (step + 1) := by rw [index, triangular_succ, Nat.add_assoc]
  simp only [after, next, remaining, Word.add, if_pos stride, if_pos sum, masked, bind,
    Except.bind, pure, Except.pure]

theorem length_order : (order hash capacity).length = capacity := by simp [order]

theorem order_lt (size : TableSize capacity) {i : Nat} (member : i ∈ order hash capacity) :
    i < capacity := by
  obtain ⟨step, -, rfl⟩ := List.mem_map.mp member
  exact Nat.mod_lt _ (tableSize_pos size)

theorem drop_order {step : Nat} (inside : step < capacity) :
    (order hash capacity).drop step =
      index hash capacity step :: (order hash capacity).drop (step + 1) := by
  have position : step < (order hash capacity).length := by rw [length_order]; exact inside
  rw [List.drop_eq_getElem_cons position]
  simp [order]

theorem drop_order_end (hash : UInt64) {step : Nat} (past : capacity ≤ step) :
    (order hash capacity).drop step = [] := by
  apply List.drop_eq_nil_of_le
  rw [length_order]
  exact past

theorem index_injective (size : TableSize capacity) {i j : Nat} (ordered : i < j)
    (small : j < capacity) : index hash capacity i ≠ index hash capacity j := by
  intro same
  rcases size with ⟨k, -, rfl⟩
  obtain ⟨d, rfl⟩ : ∃ d, j = i + d := ⟨j - i, by omega⟩
  apply triangular_apart k i d (by omega) small
  have congruent := Nat.sub_mod_eq_zero_of_mod_eq same.symm
  rw [Nat.add_sub_add_left] at congruent
  exact Nat.dvd_of_mod_eq_zero congruent

theorem order_nodup (size : TableSize capacity) : (order hash capacity).Nodup := by
  apply List.Nodup.map_on _ List.nodup_range
  intro i first j second same
  have first := List.mem_range.mp first
  have second := List.mem_range.mp second
  rcases Nat.lt_trichotomy i j with less | equal | greater
  · exact absurd same (index_injective size less second)
  · exact equal
  · exact absurd same.symm (index_injective size greater first)

theorem mem_order (size : TableSize capacity) {i : Nat} :
    i ∈ order hash capacity ↔ i < capacity := by
  constructor
  · exact order_lt size
  · intro inside
    have included : (order hash capacity).toFinset ⊆ Finset.range capacity := by
      intro j member
      exact Finset.mem_range.mpr (order_lt size (List.mem_toFinset.mp member))
    have count : (Finset.range capacity).card ≤ (order hash capacity).toFinset.card := by
      rw [List.toFinset_card_of_nodup (order_nodup size), length_order, Finset.card_range]
    have all := Finset.eq_of_subset_of_card_le included count
    exact List.mem_toFinset.mp (all ▸ Finset.mem_range.mpr inside)

theorem take_after (size : TableSize capacity) (count : Nat) {step : Nat}
    (inside : step + count = capacity) :
    take count (after hash capacity step) = .ok ((order hash capacity).drop step) := by
  induction count generalizing step with
  | zero =>
      have done : (order hash capacity).length ≤ step := by
        rw [length_order]
        omega
      rw [List.drop_eq_nil_of_le done]
      rfl
  | succ count ih =>
      have more : step < capacity := by omega
      have left : step + 1 + count = capacity := by omega
      have rest := ih left
      rw [drop_order more, take]
      simp only [next_after size more, bind, Except.bind, rest, pure, Except.pure]

theorem take_start (size : TableSize capacity) :
    (start hash capacity).bind (take capacity) = .ok (order hash capacity) := by
  rw [start_eq size]
  exact take_after size capacity (Nat.zero_add capacity)

/-- What successive calls of `next` answer. A walk that has ended stays where it is. -/
def answers : Nat → Chain → Except Fault (List (Option Nat))
  | 0, _ => .ok []
  | count + 1, chain => do
    match ← chain.next with
    | some (index, rest) => return some index :: (← answers count rest)
    | none => return none :: (← answers count chain)

def answer (hash : UInt64) (capacity step : Nat) : Option Nat :=
  if step < capacity then some (index hash capacity step) else none

theorem answers_end (count : Nat) :
    answers count (after hash capacity capacity) = .ok (List.replicate count none) := by
  induction count with
  | zero => rfl
  | succ count ih =>
      simp only [answers, next_end, bind, Except.bind, ih, pure, Except.pure]
      rfl

theorem answers_after (size : TableSize capacity) (count : Nat) {step : Nat}
    (inside : step ≤ capacity) :
    answers count (after hash capacity step) =
      .ok ((List.range' step count).map (answer hash capacity)) := by
  induction count generalizing step with
  | zero => rfl
  | succ count ih =>
      rcases Nat.lt_or_eq_of_le inside with more | rfl
      · simp only [answers, next_after size more, bind, Except.bind, ih more, pure, Except.pure]
        rw [List.range'_succ, List.map_cons, answer, if_pos more]
      · have ended : (List.range' step (count + 1)).map (answer hash step) =
            List.replicate (count + 1) none := by
          refine List.eq_replicate_iff.mpr ⟨by simp, ?_⟩
          intro each member
          obtain ⟨i, later, rfl⟩ := List.mem_map.mp member
          exact if_neg (Nat.not_lt.mpr (List.mem_range'_1.mp later).1)
        rw [answers_end, ended]

/-- The walk is a permutation of the buckets. However often it is asked, no addition overflows,
and its answers are the buckets at the triangular numbers from the hash on, as many as there are
buckets, and then none. Each bucket is among them exactly once. -/
theorem walk_visits_each_once (hash : UInt64) {capacity : Nat}
    (power : isPowerOfTwo capacity = true) (small : capacity ≤ 2 ^ 63) :
    (∃ chain, start hash capacity = .ok chain ∧ ∀ count, answers count chain =
      .ok ((List.range count).map fun i =>
        if i < capacity then some ((hash.toNat + i * (i + 1) / 2) % capacity) else none)) ∧
      ∀ bucket < capacity, ∃! i, i < capacity ∧ (hash.toNat + i * (i + 1) / 2) % capacity = bucket := by
  have size : TableSize capacity :=
    (tableSize_iff capacity).mpr ⟨power, Nat.lt_of_le_of_lt small (by decide)⟩
  refine ⟨⟨after hash capacity 0, start_eq size, fun count => ?_⟩, fun bucket inside => ?_⟩
  · rw [answers_after size count (Nat.zero_le capacity), List.range_eq_range']
    rfl
  · have member : bucket ∈ order hash capacity := (mem_order size).mpr inside
    obtain ⟨i, early, there⟩ := List.mem_map.mp member
    have early := List.mem_range.mp early
    refine ⟨i, ⟨early, there⟩, ?_⟩
    rintro j ⟨other, same⟩
    have same : index hash capacity j = index hash capacity i := same.trans there.symm
    rcases Nat.lt_trichotomy j i with less | equal | greater
    · exact absurd same (index_injective size less early)
    · exact equal
    · exact absurd same.symm (index_injective size greater other)

/-- The walk over eight buckets from the sixth on. -/
theorem walk_over_eight :
    isPowerOfTwo 8 = true ∧ 8 ≤ 2 ^ 63 ∧
      (∃ chain, start 5 8 = .ok chain ∧ answers 10 chain =
        .ok [some 5, some 6, some 0, some 3, some 7, some 4, some 2, some 1, none, none]) ∧
      ∃! i, i < 8 ∧ ((5 : UInt64).toNat + i * (i + 1) / 2) % 8 = 7 := by
  obtain ⟨⟨chain, started, all⟩, each⟩ :=
    walk_visits_each_once 5 (by decide : isPowerOfTwo 8 = true) (by decide)
  exact ⟨by decide, by decide, ⟨chain, started, all 10⟩, each 7 (by decide)⟩

end Chain

end SymbolStore
