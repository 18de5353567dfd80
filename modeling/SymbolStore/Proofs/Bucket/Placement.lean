import Mathlib.Data.List.TakeWhile
import SymbolStore.Proofs.Bucket.Search

/-!
Where entries lie in a bucket array: each before the first empty bucket on its own walk. Filling a
bucket, marking one as deleted and rehashing into fresh buckets keep it so.
-/

namespace SymbolStore

variable {α : Type}

/-- The walk for a hash comes to the bucket before it meets an empty one. -/
def Reached (buckets : Array (Bucket α)) (hash : UInt64) (index : Nat) : Prop :=
  ∃ front back, Chain.order hash buckets.size = front ++ index :: back ∧
    ∀ earlier ∈ front, Bucket.emptyAt buckets earlier = false

/-- Every entry is reached on the walk for its hash. -/
def Placed (hashOf : α → UInt64) (buckets : Array (Bucket α)) : Prop :=
  ∀ index entry, buckets[index]? = some (.occupied entry) → Reached buckets (hashOf entry) index

theorem reached_mono {before after : Array (Bucket α)} {hash : UInt64} {index : Nat}
    (size : after.size = before.size)
    (filled : ∀ i, Bucket.emptyAt after i = true → Bucket.emptyAt before i = true)
    (reached : Reached before hash index) : Reached after hash index := by
  rcases reached with ⟨front, back, split, full⟩
  refine ⟨front, back, by rw [size, split], ?_⟩
  intro earlier member
  have fullBefore := full earlier member
  cases empty : Bucket.emptyAt after earlier with
  | false => rfl
  | true =>
      rw [filled earlier empty] at fullBefore
      cases fullBefore

theorem mem_visited_of_reached {buckets : Array (Bucket α)} {hash : UInt64} {index : Nat}
    (reached : Reached buckets hash index) (full : Bucket.emptyAt buckets index = false) :
    index ∈ visited buckets (Chain.order hash buckets.size) := by
  rcases reached with ⟨front, back, split, earlier⟩
  rw [split, visited, List.takeWhile_append_of_pos (by simpa using earlier)]
  simp [full]

theorem reached_of_mem_visited {buckets : Array (Bucket α)} {hash : UInt64} {index : Nat}
    (member : index ∈ visited buckets (Chain.order hash buckets.size)) :
    Reached buckets hash index := by
  obtain ⟨rest, whole⟩ : visited buckets (Chain.order hash buckets.size) <+:
      Chain.order hash buckets.size := List.takeWhile_prefix _
  obtain ⟨front, back, split⟩ := List.append_of_mem member
  refine ⟨front, back ++ rest, by rw [← whole, split]; simp, ?_⟩
  intro earlier inFront
  have inVisited : earlier ∈ visited buckets (Chain.order hash buckets.size) := by
    rw [split]
    exact List.mem_append_left _ inFront
  simpa using List.mem_takeWhile_imp inVisited

section Outcomes

variable {buckets : Array (Bucket α)} {hash : UInt64} {matching : α → Bool} {outcome : Search α}
  {index : Nat}

theorem search_total (hash : UInt64) (matching : α → Bool) (size : TableSize buckets.size) :
    ∃ outcome, search buckets hash matching = .ok outcome :=
  ⟨_, search_eq_scan hash matching size⟩

theorem search_finding (size : TableSize buckets.size)
    (searched : search buckets hash matching = .ok outcome) :
    outcome.finding =
      Finding.expected buckets matching (Chain.order hash buckets.size) none := by
  rw [search_eq_scan hash matching size] at searched
  rw [← Except.ok.inj searched]
  exact finding_scan matching _ none fun _ member => Chain.order_lt size member

theorem search_found (size : TableSize buckets.size)
    (searched : search buckets hash matching = .ok outcome)
    (found : outcome.finding = .found index) :
    ∃ entry, buckets[index]? = some (.occupied entry) ∧ matching entry = true := by
  rw [search_finding size searched, Finding.expected] at found
  split at found
  · rename_i hit
    rw [Finding.found.injEq] at found
    exact Bucket.matchAt_iff.mp (found ▸ List.find?_some hit)
  · simp only at found
    split at found <;> cases found

theorem search_not_found (size : TableSize buckets.size)
    (searched : search buckets hash matching = .ok outcome)
    (missed : ∀ index, outcome.finding ≠ .found index) {entry : α}
    (stored : buckets[index]? = some (.occupied entry)) (reached : Reached buckets hash index) :
    matching entry = false := by
  have full : Bucket.emptyAt buckets index = false := by
    simp [Bucket.emptyAt, stored]
  have member := mem_visited_of_reached reached full
  rw [search_finding size searched, Finding.expected] at missed
  split at missed
  · exact absurd rfl (missed _)
  · rename_i none
    have unmatched := List.find?_eq_none.mp none index member
    rw [Bucket.matchAt_iff] at unmatched
    cases hit : matching entry with
    | false => rfl
    | true => exact absurd ⟨entry, stored, hit⟩ unmatched

theorem search_vacant (size : TableSize buckets.size)
    (searched : search buckets hash matching = .ok outcome)
    (vacant : outcome.finding = .vacant index) :
    (buckets[index]? = some .empty ∨ buckets[index]? = some .deleted) ∧
      Reached buckets hash index := by
  rw [search_finding size searched, Finding.expected] at vacant
  split at vacant
  · cases vacant
  · simp only [Option.none_or] at vacant
    cases deleted : (visited buckets (Chain.order hash buckets.size)).find?
        (Bucket.deletedAt buckets) with
    | some i =>
        simp only [deleted, Option.some_or, Finding.vacant.injEq] at vacant
        subst vacant
        exact ⟨.inr (Bucket.deletedAt_iff.mp (List.find?_some deleted)),
          reached_of_mem_visited (List.mem_of_find?_eq_some deleted)⟩
    | none =>
        cases empty : (Chain.order hash buckets.size).find? (Bucket.emptyAt buckets) with
        | none => simp [deleted, empty] at vacant
        | some i =>
            simp only [deleted, empty, Option.none_or, Finding.vacant.injEq] at vacant
            subst vacant
            obtain ⟨first, front, back, split, full⟩ := List.find?_eq_some_iff_append.mp empty
            exact ⟨.inl (Bucket.emptyAt_iff.mp first), front, back, split, by simpa using full⟩

theorem search_exhausted (size : TableSize buckets.size)
    (searched : search buckets hash matching = .ok outcome)
    (exhausted : outcome.finding = .exhausted) (i : Nat) : Bucket.emptyAt buckets i = false := by
  rw [search_finding size searched, Finding.expected] at exhausted
  split at exhausted
  · cases exhausted
  · cases empty : (Chain.order hash buckets.size).find? (Bucket.emptyAt buckets) with
    | some i =>
        cases deleted : (visited buckets (Chain.order hash buckets.size)).find?
          (Bucket.deletedAt buckets) <;> simp [deleted, empty] at exhausted
    | none =>
        by_cases inside : i < buckets.size
        · simpa using List.find?_eq_none.mp empty i ((Chain.mem_order size).mpr inside)
        · simp [Bucket.emptyAt, inside]

theorem firstEmpty_some (hash : UInt64) (size : TableSize buckets.size)
    (room : ∃ i, Bucket.emptyAt buckets i = true) :
    ∃ index, firstEmpty buckets hash = .ok (some index) ∧
      buckets[index]? = some .empty ∧ Reached buckets hash index := by
  rw [firstEmpty_eq_find hash size]
  rcases room with ⟨i, empty⟩
  have inside : i < buckets.size := by
    obtain ⟨bound, -⟩ := Array.getElem?_eq_some_iff.mp (Bucket.emptyAt_iff.mp empty)
    exact bound
  cases found : (Chain.order hash buckets.size).find? (Bucket.emptyAt buckets) with
  | none =>
      have missed := List.find?_eq_none.mp found i ((Chain.mem_order size).mpr inside)
      exact absurd empty missed
  | some index =>
      obtain ⟨first, front, back, split, full⟩ := List.find?_eq_some_iff_append.mp found
      exact ⟨index, rfl, Bucket.emptyAt_iff.mp first, front, back, split, by simpa using full⟩

end Outcomes

namespace Bucket

def deletedCount (buckets : Array (Bucket α)) : Nat := buckets.toList.countP isDeleted

theorem count_buckets (buckets : Array (Bucket α)) :
    (entries buckets).length + deletedCount buckets + buckets.toList.countP isEmpty =
      buckets.size := by
  rw [entries, deletedCount, ← Array.length_toList]
  induction buckets.toList with
  | nil => rfl
  | cons bucket rest ih =>
      cases bucket <;>
        simp [List.filterMap_cons, List.countP_cons] at ih ⊢ <;> omega

theorem exists_empty {buckets : Array (Bucket α)}
    (room : (entries buckets).length + deletedCount buckets < buckets.size) :
    ∃ i, emptyAt buckets i = true := by
  have count := count_buckets buckets
  have positive : 0 < buckets.toList.countP isEmpty := by omega
  obtain ⟨bucket, member, empty⟩ := List.countP_pos_iff.mp positive
  obtain ⟨i, inside, rfl⟩ := List.getElem_of_mem member
  refine ⟨i, ?_⟩
  have bound : i < buckets.size := by simpa using inside
  simpa [emptyAt, bound] using empty

theorem mem_entries {buckets : Array (Bucket α)} {entry : α} :
    entry ∈ entries buckets ↔ ∃ i : Nat, buckets[i]? = some (occupied entry) := by
  constructor
  · intro member
    obtain ⟨bucket, present, holds⟩ := List.mem_filterMap.mp member
    obtain ⟨i, stored⟩ := List.mem_iff_getElem?.mp present
    rw [Array.getElem?_toList] at stored
    cases bucket <;> simp at holds
    exact ⟨i, holds ▸ stored⟩
  · intro holds
    rcases holds with ⟨i, stored⟩
    rw [← Array.getElem?_toList] at stored
    exact List.mem_filterMap.mpr ⟨_, List.mem_of_getElem? stored, rfl⟩

theorem toList_set {buckets : Array (Bucket α)} {i : Nat} {old : Bucket α}
    (present : buckets[i]? = some old) :
    ∃ front back, buckets.toList = front ++ [old] ++ back ∧
      ∀ new, (buckets.setIfInBounds i new).toList = front ++ [new] ++ back := by
  obtain ⟨inside, rfl⟩ := Array.getElem?_eq_some_iff.mp present
  have bound : i < buckets.toList.length := by simpa using inside
  refine ⟨buckets.toList.take i, buckets.toList.drop (i + 1), ?_, fun new => ?_⟩
  · have whole := List.take_append_drop i buckets.toList
    rw [List.drop_eq_getElem_cons bound] at whole
    simpa using whole.symm
  · rw [Array.toList_setIfInBounds, List.set_eq_take_append_cons_drop, if_pos bound]
    simp

theorem set_cases {buckets : Array (Bucket α)} {i j : Nat} {new bucket : Bucket α}
    (stored : (buckets.setIfInBounds i new)[j]? = some bucket) :
    (j = i ∧ bucket = new) ∨ buckets[j]? = some bucket := by
  rw [Array.getElem?_setIfInBounds] at stored
  split at stored
  · rename_i same
    split at stored
    · rw [Option.some.injEq] at stored
      exact .inl ⟨same.symm, stored.symm⟩
    · cases stored
  · exact .inr stored

theorem set_split {buckets : Array (Bucket α)} {i : Nat} {old : Bucket α}
    (present : buckets[i]? = some old) :
    ∃ front back : List α, ∃ marks : Nat,
      entries buckets = front ++ old.entry?.toList ++ back ∧
      deletedCount buckets = marks + old.isDeleted.toNat ∧
      ∀ new, entries (buckets.setIfInBounds i new) = front ++ new.entry?.toList ++ back ∧
        deletedCount (buckets.setIfInBounds i new) = marks + new.isDeleted.toNat := by
  have single (bucket : Bucket α) : [bucket].filterMap entry? = bucket.entry?.toList := by
    cases bucket <;> rfl
  have mark (bucket : Bucket α) : [bucket].countP isDeleted = bucket.isDeleted.toNat := by
    cases bucket <;> rfl
  rcases toList_set present with ⟨front, back, whole, replaced⟩
  refine ⟨front.filterMap entry?, back.filterMap entry?,
    front.countP isDeleted + back.countP isDeleted, ?_, ?_, fun new => ⟨?_, ?_⟩⟩
  · simp only [entries, whole, List.filterMap_append, single]
  · simp only [deletedCount, whole, List.countP_append, mark]
    omega
  · simp only [entries, replaced, List.filterMap_append, single]
  · simp only [deletedCount, replaced, List.countP_append, mark]
    omega

end Bucket

/-- A bucket that is not empty may take the place of any, and keeps what was reached. -/
theorem reached_set {buckets : Array (Bucket α)} {hash : UInt64} {index : Nat}
    (reached : Reached buckets hash index) (i : Nat) {new : Bucket α} (full : new.isEmpty = false) :
    Reached (buckets.setIfInBounds i new) hash index := by
  apply reached_mono (by simp) _ reached
  intro j empty
  rw [Bucket.emptyAt, Array.getElem?_setIfInBounds] at empty
  split at empty
  · cases new <;> split at empty <;> simp at full empty
  · exact empty

theorem placed_set {hashOf : α → UInt64} {buckets : Array (Bucket α)} {i : Nat} {new : Bucket α}
    (placed : Placed hashOf buckets) (full : new.isEmpty = false)
    (enters : ∀ entry ∈ new.entry?, Reached buckets (hashOf entry) i) :
    Placed hashOf (buckets.setIfInBounds i new) := by
  intro j entry stored
  rcases Bucket.set_cases stored with ⟨rfl, rfl⟩ | before
  · exact reached_set (enters entry rfl) j full
  · exact reached_set (placed j entry before) i full

theorem placed_set_occupied {hashOf : α → UInt64} {buckets : Array (Bucket α)} {i : Nat}
    {entry : α} (placed : Placed hashOf buckets) (reached : Reached buckets (hashOf entry) i) :
    Placed hashOf (buckets.setIfInBounds i (.occupied entry)) := by
  apply placed_set placed rfl
  intro other equal
  cases equal
  exact reached

theorem placed_replicate (hashOf : α → UInt64) (capacity : Nat) :
    Placed hashOf (Array.replicate capacity .empty) := by
  intro i entry stored
  rw [Array.getElem?_replicate] at stored
  split at stored <;> simp at stored

@[simp] theorem entries_replicate (capacity : Nat) :
    Bucket.entries (Array.replicate capacity (.empty : Bucket α)) = [] := by
  simp [Bucket.entries]

@[simp] theorem deletedCount_replicate (capacity : Nat) :
    Bucket.deletedCount (Array.replicate capacity (.empty : Bucket α)) = 0 := by
  simp [Bucket.deletedCount, List.countP_replicate]

section Rehash

variable (table : Rehash) {hashOf : α → UInt64}

theorem enter_placed {buckets : Array (Bucket α)} (entry : α) (size : TableSize buckets.size)
    (placed : Placed hashOf buckets) (undeleted : Bucket.deletedCount buckets = 0)
    (room : (Bucket.entries buckets).length < buckets.size) :
    ∃ after, enter table hashOf buckets entry = .ok after ∧ after.size = buckets.size ∧
      Placed hashOf after ∧ Bucket.deletedCount after = 0 ∧
      (Bucket.entries after).Perm (entry :: Bucket.entries buckets) := by
  rcases firstEmpty_some (hashOf entry) size (Bucket.exists_empty (by omega)) with
    ⟨index, found, empty, reached⟩
  obtain ⟨front, back, marks, before, marked, replaced⟩ := Bucket.set_split empty
  rcases replaced (.occupied entry) with ⟨after, unmarked⟩
  refine ⟨buckets.setIfInBounds index (.occupied entry), ?_, by simp,
    placed_set_occupied placed reached, ?_, ?_⟩
  · simp [enter, found, bind, Except.bind, pure, Except.pure]
  · simp only [Bucket.isDeleted, Bool.toNat_false] at marked unmarked
    omega
  · rw [after, before]
    simp

theorem enterAll_placed (newcomers : List α) {buckets : Array (Bucket α)}
    (size : TableSize buckets.size) (placed : Placed hashOf buckets)
    (undeleted : Bucket.deletedCount buckets = 0)
    (room : (Bucket.entries buckets).length + newcomers.length ≤ buckets.size) :
    ∃ after, newcomers.foldlM (enter table hashOf) buckets = .ok after ∧
      after.size = buckets.size ∧ Placed hashOf after ∧ Bucket.deletedCount after = 0 ∧
      (Bucket.entries after).Perm (newcomers ++ Bucket.entries buckets) := by
  induction newcomers generalizing buckets with
  | nil => exact ⟨buckets, rfl, rfl, placed, undeleted, .refl _⟩
  | cons entry rest ih =>
      simp only [List.length_cons] at room
      rcases enter_placed table entry size placed undeleted (by omega) with
        ⟨middle, entered, sameSize, placedThere, undeletedThere, holds⟩
      have count := holds.length_eq
      simp only [List.length_cons] at count
      rcases ih (sameSize ▸ size) placedThere undeletedThere (by omega) with
        ⟨after, all, finalSize, placedAfter, undeletedAfter, holdsAll⟩
      refine ⟨after, ?_, finalSize.trans sameSize, placedAfter, undeletedAfter, ?_⟩
      · rw [List.foldlM_cons, entered]
        exact all
      · calc
          List.Perm (Bucket.entries after) (rest ++ Bucket.entries middle) := holdsAll
          List.Perm _ (rest ++ (entry :: Bucket.entries buckets)) := holds.append_left rest
          List.Perm _ (entry :: rest ++ Bucket.entries buckets) := List.perm_middle

variable (hashOf) in
/-- Rehashing into fresh buckets that can hold the entries never fails, and keeps the entries. -/
theorem rehash_placed (old : Array (Bucket α)) {capacity : Nat} (size : TableSize capacity)
    (room : (Bucket.entries old).length ≤ capacity) :
    ∃ fresh, rehash table hashOf old capacity = .ok fresh ∧ fresh.size = capacity ∧
      Placed hashOf fresh ∧ Bucket.deletedCount fresh = 0 ∧
      (Bucket.entries fresh).Perm (Bucket.entries old) := by
  have sized : (Array.replicate capacity (.empty : Bucket α)).size = capacity := by simp
  rcases enterAll_placed table (Bucket.entries old) (sized.symm ▸ size)
      (placed_replicate hashOf capacity) (deletedCount_replicate capacity) (by simpa using room) with
    ⟨fresh, entered, freshSize, placed, undeleted, holds⟩
  exact ⟨fresh, entered, freshSize.trans sized, placed, undeleted, by simpa using holds⟩

end Rehash

end SymbolStore
