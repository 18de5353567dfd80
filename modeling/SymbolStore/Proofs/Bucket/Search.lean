import SymbolStore.Bucket.Search
import SymbolStore.Proofs.Bucket.Chain

/-!
What a search finds on any bucket array whose size is a power of two: the first match before the
first empty bucket, else the first deleted bucket before it, else that empty bucket.
-/

namespace SymbolStore

variable {α : Type}

namespace Bucket

def emptyAt (buckets : Array (Bucket α)) (index : Nat) : Bool := (buckets[index]?).any isEmpty

def deletedAt (buckets : Array (Bucket α)) (index : Nat) : Bool := (buckets[index]?).any isDeleted

def matchAt (buckets : Array (Bucket α)) (matching : α → Bool) (index : Nat) : Bool :=
  ((buckets[index]?).bind entry?).any matching

theorem emptyAt_iff {buckets : Array (Bucket α)} {index : Nat} :
    emptyAt buckets index = true ↔ buckets[index]? = some .empty := by
  rcases h : buckets[index]? with _ | _ | _ | _ <;> simp [emptyAt, h]

theorem deletedAt_iff {buckets : Array (Bucket α)} {index : Nat} :
    deletedAt buckets index = true ↔ buckets[index]? = some .deleted := by
  rcases h : buckets[index]? with _ | _ | _ | _ <;> simp [deletedAt, h]

theorem matchAt_iff {buckets : Array (Bucket α)} {matching : α → Bool} {index : Nat} :
    matchAt buckets matching index = true ↔
      ∃ entry, buckets[index]? = some (.occupied entry) ∧ matching entry = true := by
  rcases h : buckets[index]? with _ | _ | _ | _ <;> simp [matchAt, h]

end Bucket

namespace Search

def scan (buckets : Array (Bucket α)) (matching : α → Bool) : List Nat → Option Nat → Search α
  | [], firstDeleted => atEnd firstDeleted
  | index :: rest, firstDeleted =>
    match buckets[index]? with
    | some .deleted => scan buckets matching rest (firstDeleted.or (some index))
    | some (.occupied entry) =>
      if matching entry then { finding := .found index, tested := [entry] }
      else
        let search := scan buckets matching rest firstDeleted
        { search with tested := entry :: search.tested }
    | _ => { finding := .vacant (firstDeleted.getD index), tested := [] }

theorem along_eq_scan {buckets : Array (Bucket α)} {hash : UInt64} (matching : α → Bool)
    (size : TableSize buckets.size) (fuel step : Nat) (firstDeleted : Option Nat)
    (enough : fuel + step = buckets.size) :
    along buckets matching fuel (Chain.after hash buckets.size step) firstDeleted =
      .ok (scan buckets matching ((Chain.order hash buckets.size).drop step) firstDeleted) := by
  induction fuel generalizing step firstDeleted with
  | zero =>
      rw [Chain.drop_order_end hash (by omega)]
      rfl
  | succ fuel ih =>
      have inside : step < buckets.size := by omega
      have position : Chain.index hash buckets.size step < buckets.size :=
        Nat.mod_lt _ (tableSize_pos size)
      rw [Chain.drop_order inside, along, Chain.next_after size inside, scan]
      simp only [bind, Except.bind, pure, Except.pure]
      rcases h : buckets[Chain.index hash buckets.size step]? with _ | _ | entry | _
      · simp only [Array.getElem?_eq_none_iff] at h
        omega
      · rfl
      · simp only [ih (step + 1) firstDeleted (by omega)]
        split <;> rfl
      · exact ih (step + 1) _ (by omega)

end Search

theorem search_eq_scan {buckets : Array (Bucket α)} (hash : UInt64) (matching : α → Bool)
    (size : TableSize buckets.size) :
    search buckets hash matching =
      .ok (Search.scan buckets matching (Chain.order hash buckets.size) none) := by
  rw [search, Chain.start_eq size]
  exact Search.along_eq_scan matching size buckets.size 0 none (by omega)

theorem emptyAlong_eq_find {buckets : Array (Bucket α)} {hash : UInt64}
    (size : TableSize buckets.size) (fuel step : Nat) (enough : fuel + step = buckets.size) :
    emptyAlong buckets fuel (Chain.after hash buckets.size step) =
      .ok (((Chain.order hash buckets.size).drop step).find? (Bucket.emptyAt buckets)) := by
  induction fuel generalizing step with
  | zero =>
      rw [Chain.drop_order_end hash (by omega)]
      rfl
  | succ fuel ih =>
      have inside : step < buckets.size := by omega
      have position : Chain.index hash buckets.size step < buckets.size :=
        Nat.mod_lt _ (tableSize_pos size)
      rw [Chain.drop_order inside, emptyAlong, Chain.next_after size inside, List.find?_cons]
      simp only [bind, Except.bind, pure, Except.pure, Bucket.emptyAt]
      rcases h : buckets[Chain.index hash buckets.size step]? with _ | bucket
      · simp only [Array.getElem?_eq_none_iff] at h
        omega
      · simp only [Option.any_some]
        cases bucket.isEmpty with
        | true => rfl
        | false => exact ih (step + 1) (by omega)

theorem firstEmpty_eq_find {buckets : Array (Bucket α)} (hash : UInt64)
    (size : TableSize buckets.size) :
    firstEmpty buckets hash =
      .ok ((Chain.order hash buckets.size).find? (Bucket.emptyAt buckets)) := by
  rw [firstEmpty, Chain.start_eq size]
  exact emptyAlong_eq_find size buckets.size 0 (by omega)

def visited (buckets : Array (Bucket α)) (indices : List Nat) : List Nat :=
  indices.takeWhile fun index => !Bucket.emptyAt buckets index

def Finding.expected (buckets : Array (Bucket α)) (matching : α → Bool) (indices : List Nat)
    (firstDeleted : Option Nat) : Finding :=
  match (visited buckets indices).find? (Bucket.matchAt buckets matching) with
  | some index => .found index
  | none =>
    let deleted := (visited buckets indices).find? (Bucket.deletedAt buckets)
    match firstDeleted.or (deleted.or (indices.find? (Bucket.emptyAt buckets))) with
    | some index => .vacant index
    | none => .exhausted

theorem finding_scan {buckets : Array (Bucket α)} (matching : α → Bool) (indices : List Nat)
    (firstDeleted : Option Nat) (inside : ∀ index ∈ indices, index < buckets.size) :
    (Search.scan buckets matching indices firstDeleted).finding =
      Finding.expected buckets matching indices firstDeleted := by
  induction indices generalizing firstDeleted with
  | nil => cases firstDeleted <;> rfl
  | cons index rest ih =>
      have position : index < buckets.size := inside index (by simp)
      have later := fun firstDeleted =>
        ih firstDeleted fun next member => inside next (List.mem_cons_of_mem _ member)
      rw [Search.scan]
      rcases h : buckets[index]? with _ | _ | entry | _
      · simp only [Array.getElem?_eq_none_iff] at h
        omega
      · have empty : Bucket.emptyAt buckets index = true := by simp [Bucket.emptyAt_iff, h]
        cases firstDeleted <;> simp [Finding.expected, visited, empty]
      · have full : Bucket.emptyAt buckets index = false := by
          simp [Bucket.emptyAt, h]
        have kept : Bucket.deletedAt buckets index = false := by
          simp [Bucket.deletedAt, h]
        have same : Bucket.matchAt buckets matching index = matching entry := by
          simp [Bucket.matchAt, h]
        cases hit : matching entry with
        | true => simp [Finding.expected, visited, full, same, hit]
        | false =>
            simp only [Bool.false_eq_true, if_false, later, Finding.expected, visited,
              List.takeWhile_cons, full, Bool.not_false, if_true, List.find?_cons, same, hit, kept]
      · have full : Bucket.emptyAt buckets index = false := by
          simp [Bucket.emptyAt, h]
        have gone : Bucket.deletedAt buckets index = true := by simp [Bucket.deletedAt_iff, h]
        have apart : Bucket.matchAt buckets matching index = false := by
          simp [Bucket.matchAt, h]
        simp only [later, Finding.expected, visited, List.takeWhile_cons, full, Bool.not_false,
          if_true, List.find?_cons, apart, gone, Option.or_some]
        cases firstDeleted <;> rfl

end SymbolStore
