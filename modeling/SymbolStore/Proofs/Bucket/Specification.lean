import Mathlib.Data.List.TakeWhile
import SymbolStore.Proofs.Bucket.Search

/-!
What a search answers on any bucket array whose size is a power of two, and which entries it looks at
on the way there.
-/

namespace SymbolStore

variable {α : Type}

def Bucket.entryAt (buckets : Array (Bucket α)) (index : Nat) : Option α :=
  (buckets[index]?).bind entry?

/-- The buckets that a search passes on a chain: as far as the first match, or all of them. -/
def passed (buckets : Array (Bucket α)) (matching : α → Bool) (chain : List Nat) : List Nat :=
  chain.takeWhile (fun index => !Bucket.matchAt buckets matching index) ++
    (chain.find? (Bucket.matchAt buckets matching)).toList

theorem passed_cons (buckets : Array (Bucket α)) (matching : α → Bool) (index : Nat)
    (chain : List Nat) :
    passed buckets matching (index :: chain) =
      if Bucket.matchAt buckets matching index then [index]
      else index :: passed buckets matching chain := by
  cases hit : Bucket.matchAt buckets matching index <;> simp [passed, hit]

theorem passed_isInitial (buckets : Array (Bucket α)) (matching : α → Bool) (chain : List Nat) :
    passed buckets matching chain <+: chain := by
  induction chain with
  | nil => exact List.prefix_refl []
  | cons index chain ih =>
      rw [passed_cons]
      split
      · exact List.prefix_append [index] chain
      · exact List.prefix_cons_inj index |>.mpr ih

theorem tested_scan {buckets : Array (Bucket α)} (matching : α → Bool) (indices : List Nat)
    (firstDeleted : Option Nat) (inside : ∀ index ∈ indices, index < buckets.size) :
    (Search.scan buckets matching indices firstDeleted).tested =
      (passed buckets matching (visited buckets indices)).filterMap (Bucket.entryAt buckets) := by
  induction indices generalizing firstDeleted with
  | nil => rfl
  | cons index rest ih =>
      have position : index < buckets.size := inside index (by simp)
      have later := fun firstDeleted =>
        ih firstDeleted fun next member => inside next (List.mem_cons_of_mem _ member)
      rw [Search.scan, visited, List.takeWhile_cons]
      rcases h : buckets[index]? with _ | _ | entry | _
      · simp only [Array.getElem?_eq_none_iff] at h
        omega
      · have empty : Bucket.emptyAt buckets index = true := by simp [Bucket.emptyAt, h]
        simp [empty, passed]
      · have full : Bucket.emptyAt buckets index = false := by simp [Bucket.emptyAt, h]
        have same : Bucket.matchAt buckets matching index = matching entry := by
          simp [Bucket.matchAt, h]
        have held : Bucket.entryAt buckets index = some entry := by simp [Bucket.entryAt, h]
        simp only [full, Bool.not_false, if_true, passed_cons, same]
        cases matching entry with
        | true => simp [held]
        | false => simp [held, later, visited]
      · have full : Bucket.emptyAt buckets index = false := by simp [Bucket.emptyAt, h]
        have apart : Bucket.matchAt buckets matching index = false := by
          simp [Bucket.matchAt, h]
        have bare : Bucket.entryAt buckets index = none := by simp [Bucket.entryAt, h]
        simp [full, passed_cons, apart, bare, later, visited]

section Expected

variable {buckets : Array (Bucket α)} {matching : α → Bool} {indices : List Nat}

theorem expected_found (index : Nat) :
    Finding.expected buckets matching indices none = .found index ↔
      (visited buckets indices).find? (Bucket.matchAt buckets matching) = some index := by
  unfold Finding.expected
  cases (visited buckets indices).find? (Bucket.matchAt buckets matching) with
  | some other => simp
  | none =>
      simp only [reduceCtorEq, iff_false]
      split <;> simp

theorem expected_vacant (index : Nat) :
    Finding.expected buckets matching indices none = .vacant index ↔
      (visited buckets indices).find? (Bucket.matchAt buckets matching) = none ∧
        ((visited buckets indices).find? (Bucket.deletedAt buckets)).or
          (indices.find? (Bucket.emptyAt buckets)) = some index := by
  unfold Finding.expected
  cases (visited buckets indices).find? (Bucket.matchAt buckets matching) with
  | some other => simp
  | none =>
      simp only [Option.none_or, true_and]
      split
      · rename_i other same
        rw [same, Finding.vacant.injEq, Option.some.injEq]
      · rename_i none
        simp [none]

theorem expected_exhausted :
    Finding.expected buckets matching indices none = .exhausted ↔
      (visited buckets indices).find? (Bucket.matchAt buckets matching) = none ∧
        ((visited buckets indices).find? (Bucket.deletedAt buckets)).or
          (indices.find? (Bucket.emptyAt buckets)) = none := by
  unfold Finding.expected
  cases (visited buckets indices).find? (Bucket.matchAt buckets matching) with
  | some other => simp
  | none =>
      simp only [Option.none_or, true_and]
      split
      · rename_i other same
        simp [same]
      · rename_i none
        simp [none]

theorem unmatched_iff {index : Nat} (position : index < buckets.size) :
    (∃ entry, buckets[index]? = some (.occupied entry) ∧ matching entry = false) ↔
      Bucket.emptyAt buckets index = false ∧ Bucket.deletedAt buckets index = false ∧
        Bucket.matchAt buckets matching index = false := by
  rcases h : buckets[index]? with _ | _ | entry | _
  · simp only [Array.getElem?_eq_none_iff] at h
    omega
  all_goals simp [Bucket.emptyAt, Bucket.deletedAt, Bucket.matchAt, h]

theorem expected_exhausted_iff (inside : ∀ index ∈ indices, index < buckets.size) :
    Finding.expected buckets matching indices none = .exhausted ↔
      ∀ index ∈ indices, ∃ entry, buckets[index]? = some (.occupied entry) ∧
        matching entry = false := by
  have pointwise : (∀ index ∈ indices, ∃ entry, buckets[index]? = some (.occupied entry) ∧
      matching entry = false) ↔ ∀ index ∈ indices, Bucket.emptyAt buckets index = false ∧
        Bucket.deletedAt buckets index = false ∧ Bucket.matchAt buckets matching index = false :=
    forall₂_congr fun index member => unmatched_iff (inside index member)
  have whole (full : ∀ index ∈ indices, Bucket.emptyAt buckets index = false) :
      visited buckets indices = indices := by
    apply List.takeWhile_eq_self_iff.mpr
    simpa using full
  rw [pointwise, expected_exhausted, Option.or_eq_none_iff]
  simp only [List.find?_eq_none, Bool.not_eq_true]
  constructor
  · intro nothing index member
    rcases nothing with ⟨unmatched, undeleted, full⟩
    rw [whole full] at unmatched undeleted
    exact ⟨full index member, undeleted index member, unmatched index member⟩
  · intro occupied
    have full : ∀ index ∈ indices, Bucket.emptyAt buckets index = false :=
      fun index member => (occupied index member).1
    rw [whole full]
    exact ⟨fun index member => (occupied index member).2.2,
      fun index member => (occupied index member).2.1, full⟩

end Expected

/-- What a search comes to that goes along the buckets in the given order. Its chain ends where the
first empty bucket is. -/
structure Search.Correct (buckets : Array (Bucket α)) (matching : α → Bool) (order : List Nat)
    (outcome : Search α) : Prop where
  /-- The first match on the chain is found. -/
  found : ∀ index, outcome.finding = .found index ↔
    (visited buckets order).find? (Bucket.matchAt buckets matching) = some index
  /-- Without a match, it is the first deleted bucket on the chain, else the empty one at its end. -/
  vacant : ∀ index, outcome.finding = .vacant index ↔
    (visited buckets order).find? (Bucket.matchAt buckets matching) = none ∧
      ((visited buckets order).find? (Bucket.deletedAt buckets)).or
        (order.find? (Bucket.emptyAt buckets)) = some index
  exhausted : outcome.finding = .exhausted ↔
    ∀ index < buckets.size, ∃ entry, buckets[index]? = some (.occupied entry) ∧
      matching entry = false
  /-- The entries on the chain are tested in its order, as far as the first match. -/
  tested : outcome.tested =
    (passed buckets matching (visited buckets order)).filterMap (Bucket.entryAt buckets)
  once : (passed buckets matching (visited buckets order)).Nodup

/-- On any bucket array whose size is a power of two,
reachable or not, for any hash and any way to match, the search goes along all the buckets in the
order of the walk and finds the first match before the first empty bucket. If there is none, it
answers where an entry would go, and that is nowhere only where every bucket is occupied. Each entry
up to the match, or up to the end of the chain, is tested once. -/
theorem search_correct (buckets : Array (Bucket α)) (hash : UInt64) (matching : α → Bool)
    (power : isPowerOfTwo buckets.size = true) (fits : buckets.size < wordLimit) :
    ∃ order, (Chain.start hash buckets.size).bind (Chain.take buckets.size) = .ok order ∧
      order.Nodup ∧ (∀ index, index ∈ order ↔ index < buckets.size) ∧
      ∃ outcome, search buckets hash matching = .ok outcome ∧
        outcome.Correct buckets matching order := by
  have size : TableSize buckets.size := (tableSize_iff _).mpr ⟨power, fits⟩
  have inside : ∀ index ∈ Chain.order hash buckets.size, index < buckets.size :=
    fun _ member => Chain.order_lt size member
  have nodup : (Chain.order hash buckets.size).Nodup := Chain.order_nodup size
  have finding := finding_scan matching (Chain.order hash buckets.size) none inside
  refine ⟨_, Chain.take_start size, nodup, fun _ => Chain.mem_order size, _,
    search_eq_scan hash matching size, ?_⟩
  constructor
  · intro index
    rw [finding, expected_found]
  · intro index
    rw [finding, expected_vacant]
  · rw [finding, expected_exhausted_iff inside]
    simp only [Chain.mem_order size]
  · exact tested_scan matching _ none inside
  · have chain : visited buckets (Chain.order hash buckets.size) <+:
        Chain.order hash buckets.size := List.takeWhile_prefix _
    exact nodup.sublist ((passed_isInitial buckets matching _).trans chain).sublist

/-- A match behind a deleted bucket, in eight buckets from the third on. -/
theorem search_correct_eight :
    let buckets : Array (Bucket Nat) :=
      #[.empty, .occupied 9, .deleted, .occupied 4, .empty, .occupied 7, .deleted, .occupied 1]
    isPowerOfTwo buckets.size = true ∧ buckets.size < wordLimit ∧
      search buckets 2 (· == 7) = .ok { finding := .found 5, tested := [4, 7] } ∧
      ∃ order outcome, search buckets 2 (· == 7) = .ok outcome ∧
        outcome.Correct buckets (· == 7) order := by
  intro buckets
  have power : isPowerOfTwo buckets.size = true := by decide
  have fits : buckets.size < wordLimit := by decide
  obtain ⟨order, -, -, -, outcome, searched, correct⟩ :=
    search_correct buckets 2 (· == 7) power fits
  exact ⟨power, fits, by decide, order, outcome, searched, correct⟩

/-- A chain without an empty bucket ends at the deleted one, and a full one nowhere. -/
example :
    search #[.occupied 3, .deleted, .occupied 5, .occupied 8] 2 (· == 7) =
        .ok { finding := .vacant 1, tested := [5, 8, 3] } ∧
      search #[.occupied 3, .occupied 6, .occupied 5, .occupied 8] 2 (· == 7) =
        .ok { finding := .exhausted, tested := [5, 8, 6, 3] } := by decide

end SymbolStore
