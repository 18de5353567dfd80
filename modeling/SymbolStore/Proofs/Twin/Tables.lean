import SymbolStore.Proofs.Bucket.Stocked
import SymbolStore.Proofs.Twin.Renaming

/-!
Bucket arrays with other entries in the same buckets. Searching, entering and rehashing go alike if
the entries match and hash alike.
-/

namespace SymbolStore

open SymbolStore.Action (Lockstep)
open SymbolStore.Process (Twins)

variable {α β : Type} {f g : α → β} {buckets : Array (Bucket α)}

namespace Bucket

def map (f : α → β) : Bucket α → Bucket β
  | empty => empty
  | occupied entry => occupied (f entry)
  | deleted => deleted

@[simp] theorem map_entry (f : α → β) (bucket : Bucket α) :
    Bucket.entry? (bucket.map f) = bucket.entry?.map f := by cases bucket <;> rfl

@[simp] theorem isEmpty_map (f : α → β) (bucket : Bucket α) :
    (bucket.map f).isEmpty = bucket.isEmpty := by cases bucket <;> rfl

@[simp] theorem isDeleted_map (f : α → β) (bucket : Bucket α) :
    (bucket.map f).isDeleted = bucket.isDeleted := by cases bucket <;> rfl

theorem entries_map (f : α → β) (buckets : Array (Bucket α)) :
    entries (buckets.map (map f)) = (entries buckets).map f := by
  rw [entries, entries, Array.toList_map, List.filterMap_map, List.map_filterMap]
  congr 1
  funext bucket
  exact map_entry f bucket

theorem map_congr (same : ∀ entry ∈ entries buckets, f entry = g entry) :
    buckets.map (map f) = buckets.map (map g) := by
  refine Array.map_congr_left fun bucket member => ?_
  cases bucket with
  | empty | deleted => rfl
  | occupied entry =>
      refine congrArg occupied (same entry ?_)
      exact List.mem_filterMap.mpr ⟨_, Array.mem_toList_iff.mpr member, rfl⟩

theorem entries_set_le (buckets : Array (Bucket α)) (index : Nat) (bucket : Bucket α) :
    (entries (buckets.setIfInBounds index bucket) : Multiset α) ≤
      (bucket.entry?.toList : Multiset α) + entries buckets := by
  by_cases inside : index < buckets.size
  · obtain ⟨front, back, marks, before, -, changed⟩ :=
      set_split (Array.getElem?_eq_getElem inside)
    rw [(changed bucket).1, before]
    simp only [← Multiset.coe_add]
    rw [add_comm (front : Multiset α), add_assoc]
    gcongr
    exact Multiset.le_add_right _ _
  · rw [Array.setIfInBounds_eq_of_size_le (Nat.not_lt.mp inside)]
    exact Multiset.le_add_left _ _

end Bucket

namespace Search

def map (f : α → β) (search : Search α) : Search β :=
  { search with tested := search.tested.map f }

theorem along_map {matching : α → Bool} {matching' : β → Bool}
    (alike : ∀ entry ∈ Bucket.entries buckets, matching' (f entry) = matching entry) (fuel : Nat)
    (chain : Chain) (firstDeleted : Option Nat) :
    along (buckets.map (Bucket.map f)) matching' fuel chain firstDeleted =
      (along buckets matching fuel chain firstDeleted).map (map f) := by
  induction fuel generalizing chain firstDeleted with
  | zero => cases firstDeleted <;> rfl
  | succ fuel ih =>
      simp only [along, bind, Except.bind, Array.getElem?_map]
      cases chain.next with
      | error cause => rfl
      | ok next =>
          cases next with
          | none => cases firstDeleted <;> rfl
          | some step =>
              obtain ⟨index, rest⟩ := step
              dsimp only
              cases found : buckets[index]? with
              | none =>
                  rw [Option.map_none, Array.size_map]
                  rfl
              | some bucket =>
                  cases bucket with
                  | empty => rfl
                  | deleted => exact ih rest _
                  | occupied entry =>
                      have same := alike entry (Bucket.mem_entries.mpr ⟨index, found⟩)
                      simp only [Option.map_some, Bucket.map, same, ih rest firstDeleted]
                      split
                      · rfl
                      · cases along buckets matching fuel rest firstDeleted <;> rfl

end Search

theorem search_map {matching : α → Bool} {matching' : β → Bool}
    (alike : ∀ entry ∈ Bucket.entries buckets, matching' (f entry) = matching entry) (hash : UInt64) :
    search (buckets.map (Bucket.map f)) hash matching' =
      (search buckets hash matching).map (Search.map f) := by
  simp only [search, bind, Except.bind, Array.size_map]
  cases Chain.start hash buckets.size with
  | error cause => rfl
  | ok chain => exact Search.along_map alike _ chain none

theorem emptyAlong_map (fuel : Nat) (chain : Chain) :
    emptyAlong (buckets.map (Bucket.map f)) fuel chain = emptyAlong buckets fuel chain := by
  induction fuel generalizing chain with
  | zero => rfl
  | succ fuel ih =>
      simp only [emptyAlong, bind, Except.bind, Array.getElem?_map]
      cases chain.next with
      | error cause => rfl
      | ok next =>
          cases next with
          | none => rfl
          | some step =>
              obtain ⟨index, rest⟩ := step
              dsimp only
              cases buckets[index]? with
              | none =>
                  rw [Option.map_none, Array.size_map]
              | some bucket =>
                  simp only [Option.map_some, Bucket.isEmpty_map, ih rest]

theorem firstEmpty_map (f : α → β) (buckets : Array (Bucket α)) (hash : UInt64) :
    firstEmpty (buckets.map (Bucket.map f)) hash = firstEmpty buckets hash := by
  simp only [firstEmpty, bind, Except.bind, Array.size_map, emptyAlong_map]

theorem enter_map (table : Rehash) {hashOf : α → UInt64} {hashOf' : β → UInt64} {entry : α}
    (same : hashOf' (f entry) = hashOf entry) (buckets : Array (Bucket α)) :
    enter table hashOf' (buckets.map (Bucket.map f)) (f entry) =
      (enter table hashOf buckets entry).map (Array.map (Bucket.map f)) := by
  simp only [enter, bind, Except.bind, firstEmpty_map, same]
  cases firstEmpty buckets (hashOf entry) with
  | error cause => rfl
  | ok found =>
      cases found with
      | none => rfl
      | some index =>
          simp only [pure, Except.pure, Except.map, Array.map_setIfInBounds]
          rfl

theorem rehash_map (table : Rehash) {hashOf : α → UInt64} {hashOf' : β → UInt64}
    (same : ∀ entry ∈ Bucket.entries buckets, hashOf' (f entry) = hashOf entry) (capacity : Nat) :
    rehash table hashOf' (buckets.map (Bucket.map f)) capacity =
      (rehash table hashOf buckets capacity).map (Array.map (Bucket.map f)) := by
  have entered (newcomers : List α) (start : Array (Bucket α))
      (same : ∀ entry ∈ newcomers, hashOf' (f entry) = hashOf entry) :
      (newcomers.map f).foldlM (enter table hashOf') (start.map (Bucket.map f)) =
        (newcomers.foldlM (enter table hashOf) start).map (Array.map (Bucket.map f)) := by
    induction newcomers generalizing start with
    | nil => rfl
    | cons entry rest ih =>
        simp only [List.map_cons, List.foldlM_cons, bind, Except.bind]
        rw [enter_map table (same entry List.mem_cons_self)]
        cases enter table hashOf start entry with
        | error cause => rfl
        | ok next => exact ih next fun other member => same other (List.mem_cons_of_mem entry member)
  have empty : (Array.replicate capacity (.empty : Bucket α)).map (Bucket.map f) =
      Array.replicate capacity .empty := by
    rw [Array.map_replicate]
    rfl
  rw [rehash, rehash, Bucket.entries_map, ← empty]
  exact entered _ _ same

section Rehash

variable {table : Rehash} {hashOf : α → UInt64}

theorem enter_le {entry : α} {after : Array (Bucket α)}
    (entered : enter table hashOf buckets entry = .ok after) : after.size = buckets.size ∧
      (Bucket.entries after : Multiset α) ≤ entry ::ₘ (Bucket.entries buckets : Multiset α) := by
  simp only [enter, bind, Except.bind] at entered
  split at entered
  · cases entered
  · split at entered
    · cases entered
      exact ⟨Array.size_setIfInBounds, Bucket.entries_set_le buckets _ (.occupied entry)⟩
    · cases entered

/-- Rehashing makes no entries up. -/
theorem rehash_le {capacity : Nat} {fresh : Array (Bucket α)}
    (rehashed : rehash table hashOf buckets capacity = .ok fresh) : fresh.size = capacity ∧
      (Bucket.entries fresh : Multiset α) ≤ Bucket.entries buckets := by
  have entered (newcomers : List α) (start : Array (Bucket α))
      (all : newcomers.foldlM (enter table hashOf) start = .ok fresh) : fresh.size = start.size ∧
        (Bucket.entries fresh : Multiset α) ≤ (newcomers : Multiset α) + Bucket.entries start := by
    induction newcomers generalizing start with
    | nil =>
        cases all
        exact ⟨rfl, Multiset.le_add_left _ _⟩
    | cons entry rest ih =>
        simp only [List.foldlM_cons, bind, Except.bind] at all
        split at all
        · cases all
        · rename_i next first
          obtain ⟨size, less⟩ := enter_le first
          obtain ⟨sizes, others⟩ := ih next all
          refine ⟨sizes.trans size, others.trans ?_⟩
          calc
            (rest : Multiset α) + Bucket.entries next ≤
                (rest : Multiset α) + (entry ::ₘ (Bucket.entries start : Multiset α)) := by
              gcongr
            _ = _ := by rw [Multiset.add_cons, ← Multiset.cons_add, Multiset.cons_coe]
  have all := entered _ _ rehashed
  rw [Array.size_replicate, entries_replicate, Multiset.coe_nil, add_zero] at all
  exact all

end Rehash

namespace BucketArray

def rename (names : Renaming) (f : α → β) (array : BucketArray α) : BucketArray β :=
  { block := names.block array.block, buckets := array.buckets.map (Bucket.map f) }

variable {array : BucketArray α} {names later : Renaming}

@[simp] theorem capacity_rename (names : Renaming) (f : α → β) (array : BucketArray α) :
    (array.rename names f).capacity = array.capacity := Array.size_map

theorem rename_congr (block : later.block array.block = names.block array.block)
    (same : ∀ entry ∈ Bucket.entries array.buckets, f entry = g entry) :
    array.rename later f = array.rename names g := by
  rw [rename, rename, block, Bucket.map_congr same]

theorem put_rename (names : Renaming) (f : α → β) (index : Nat) (bucket : Bucket α) :
    (array.rename names f).put index (bucket.map f) = (array.put index bucket).rename names f := by
  simp only [put, rename, Array.map_setIfInBounds]

theorem clear_rename (names : Renaming) (f : α → β) :
    (array.rename names f).clear = array.clear.rename names f := by
  simp only [clear, rename, capacity, Array.size_map, Array.map_replicate, Bucket.map]

variable {allocator : Allocator} {grants : Nat → Bool} {manager : Manager}
  {extents : Multiset Extent} {bound room : Nat} {p q : Process} (bySize : allocator.BySize grants bound)
include bySize

theorem create_tandem (manager : Manager) (capacity : Nat)
    (twins : Twins allocator names extents (room + 1) p q) :
    Process.Tandem bound (create manager capacity : Action Process (BucketArray α))
      (create manager capacity : Action Process (BucketArray α)) p q
      (fun array other p q => array.buckets = Array.replicate capacity .empty ∧
        names.Onward extents fun later => (∀ f, other = array.rename later f) ∧
          Twins allocator later (array.extent manager ::ₘ extents) room p q)
      fun _ => Twins allocator names extents room := by
  rw [create]
  refine (Manager.allocateArray_tandem bySize manager _ _ twins).bind (fun _ _ _ left => left) ?_
  rintro a b p q ⟨keeps, twins⟩
  refine ⟨rfl, _, keeps, fun f => ?_, ?_⟩
  · rw [rename, Renaming.block_assign, Array.map_replicate]
    rfl
  · rw [extent, capacity_of_replicate rfl]
    exact twins

theorem rehashed_tandem (array : BucketArray α) (manager : Manager) (table : Rehash)
    {hashOf : α → UInt64} {hashOf' : β → UInt64}
    (same : ∀ entry ∈ Bucket.entries array.buckets, hashOf' (f entry) = hashOf entry)
    (capacity : Nat) (twins : Twins allocator names extents (room + 1) p q) :
    Process.Tandem bound (array.rehashed manager table hashOf capacity)
      ((array.rename names f).rehashed manager table hashOf' capacity) p q
      (fun fresh other p q =>
        (Bucket.entries fresh.buckets : Multiset α) ≤ Bucket.entries array.buckets ∧
          names.Onward extents fun later => other = fresh.rename later f ∧
            Twins allocator later (fresh.extent manager ::ₘ extents) room p q)
      fun _ => Twins allocator names extents room := by
  rw [rehashed, rehashed]
  refine (Manager.allocateArray_tandem bySize manager _ _ twins).bind (fun _ _ _ left => left) ?_
  rintro a b p q ⟨keeps, twins⟩
  rw [rename, rehash_map table same]
  refine .ofMapped (fun _ => (twins.forget (Multiset.le_cons_self _ _)).congr keeps.symm) ?_
  intro buckets rehashed
  obtain ⟨size, less⟩ := rehash_le rehashed
  refine ⟨less, _, keeps, ?_, ?_⟩
  · rw [rename, Renaming.block_assign]
  · rw [extent, BucketArray.capacity, size]
    exact twins

end BucketArray

end SymbolStore
