import SymbolStore.Proofs.Bucket.Placement

/-!
The two ways to a bucket for a new entry: a search that matches nothing, and the first empty bucket on
the chain. Where no bucket is marked as deleted they come to the same bucket, and an entry that is put
there hides no other.
-/

namespace SymbolStore

variable {α : Type} {buckets : Array (Bucket α)} {hash : UInt64} {matching : α → Bool}

/-- What an entry does in a bucket of its chain: it takes the place of none, every bucket that the walk
for any hash came to is still come to, and so is its own. -/
structure Joins (buckets : Array (Bucket α)) (hash : UInt64) (index : Nat) (entry : α)
    (after : Array (Bucket α)) : Prop where
  vacated : buckets[index]? = some .empty
  stored : after[index]? = some (.occupied entry)
  others : ∀ other ≠ index, after[other]? = buckets[other]?
  kept : ∀ walk other, Reached buckets walk other → Reached after walk other
  reached : Reached after hash index

theorem joins_set {index : Nat} (entry : α) (empty : buckets[index]? = some .empty)
    (reached : Reached buckets hash index) :
    Joins buckets hash index entry (buckets.setIfInBounds index (.occupied entry)) where
  vacated := empty
  stored := by
    obtain ⟨inside, -⟩ := Array.getElem?_eq_some_iff.mp empty
    simp [inside]
  others := by
    intro other different
    rw [Array.getElem?_setIfInBounds, if_neg (Ne.symm different)]
  kept _ _ before := reached_set before index rfl
  reached := reached_set reached index rfl

theorem finding_unmatched {outcome : Search α} (size : TableSize buckets.size)
    (undeleted : ∀ index : Nat, buckets[index]? ≠ some .deleted)
    (unmatched : ∀ entry ∈ Bucket.entries buckets, matching entry = false)
    (searched : search buckets hash matching = .ok outcome) :
    outcome.finding =
      (((Chain.order hash buckets.size).find? (Bucket.emptyAt buckets)).map
        Finding.vacant).getD .exhausted := by
  have misses : (visited buckets (Chain.order hash buckets.size)).find?
      (Bucket.matchAt buckets matching) = none := by
    apply List.find?_eq_none.mpr
    intro index _ hit
    obtain ⟨entry, stored, matched⟩ := Bucket.matchAt_iff.mp hit
    rw [unmatched entry (Bucket.mem_entries.mpr ⟨index, stored⟩)] at matched
    cases matched
  have clean : (visited buckets (Chain.order hash buckets.size)).find?
      (Bucket.deletedAt buckets) = none := by
    apply List.find?_eq_none.mpr
    intro index _ marked
    exact undeleted index (Bucket.deletedAt_iff.mp marked)
  rw [search_finding size searched, Finding.expected, misses, clean]
  cases (Chain.order hash buckets.size).find? (Bucket.emptyAt buckets) <;> rfl

/-- An entry that is reached is found, or another one that matches before it. -/
theorem search_placed {hashOf : α → UInt64} {entry : α} (size : TableSize buckets.size)
    (placed : Placed hashOf buckets) (member : entry ∈ Bucket.entries buckets)
    (hit : matching entry = true) :
    ∃ outcome index other, search buckets (hashOf entry) matching = .ok outcome ∧
      outcome.finding = .found index ∧ buckets[index]? = some (.occupied other) ∧
      matching other = true := by
  obtain ⟨outcome, searched⟩ := search_total (hashOf entry) matching size
  obtain ⟨place, stored⟩ := Bucket.mem_entries.mp member
  have reached := placed place entry stored
  by_cases found : ∃ index, outcome.finding = .found index
  · obtain ⟨index, found⟩ := found
    obtain ⟨other, present, matched⟩ := search_found size searched found
    exact ⟨outcome, index, other, searched, found, present, matched⟩
  · have missed := search_not_found size searched (not_exists.mp found) stored reached
    rw [missed] at hit
    cases hit

/-- The entries lie in the buckets, each reached on its own walk, and a search for any of them finds
one that matches. -/
structure HoldsAll (hashOf : α → UInt64) (entries : List α) (after : Array (Bucket α)) : Prop where
  holds : (Bucket.entries after).Perm entries
  placed : Placed hashOf after
  found : ∀ entry ∈ entries, ∀ matching : α → Bool, matching entry = true →
    ∃ outcome index other, search after (hashOf entry) matching = .ok outcome ∧
      outcome.finding = .found index ∧ after[index]? = some (.occupied other) ∧
      matching other = true

theorem enterAll_holdsAll (table : Rehash) (hashOf : α → UInt64) (entries : List α) {capacity : Nat}
    (size : TableSize capacity) (room : entries.length ≤ capacity) :
    ∃ after, entries.foldlM (enter table hashOf) (Array.replicate capacity .empty) = .ok after ∧
      after.size = capacity ∧ HoldsAll hashOf entries after := by
  have sized : (Array.replicate capacity (.empty : Bucket α)).size = capacity := by simp
  obtain ⟨after, entered, same, placed, -, holds⟩ := enterAll_placed table entries
    (sized.symm ▸ size) (placed_replicate hashOf capacity) (deletedCount_replicate capacity)
    (by simpa using room)
  rw [entries_replicate, List.append_nil] at holds
  have there : TableSize after.size := by rwa [same, sized]
  refine ⟨after, entered, same.trans sized, holds, placed, ?_⟩
  intro entry member matching hit
  exact search_placed there placed (holds.mem_iff.mpr member) hit

/-- The two ways to a bucket for a new entry agree. Let no bucket be marked as deleted and no entry
match. For any hash, the search answers a vacant bucket if and only if that is the first empty one on
the chain, and is exhausted if and only if there is none. An entry that is put there leaves every bucket
within reach that was so, and is within reach itself. So any entries, with any hashes, find their places
among as many empty buckets, and each is found there. -/
theorem insertion_searches_agree (buckets : Array (Bucket α)) (hash : UInt64) (matching : α → Bool)
    (power : isPowerOfTwo buckets.size = true) (fits : buckets.size < wordLimit)
    (undeleted : ∀ index : Nat, buckets[index]? ≠ some .deleted)
    (unmatched : ∀ entry ∈ Bucket.entries buckets, matching entry = false) :
    (∃ outcome slot, search buckets hash matching = .ok outcome ∧
      firstEmpty buckets hash = .ok slot ∧
      (∀ index, outcome.finding = .vacant index ↔ slot = some index) ∧
      (outcome.finding = .exhausted ↔ slot = none) ∧
      ∀ index ∈ slot, ∀ entry,
        Joins buckets hash index entry (buckets.setIfInBounds index (.occupied entry))) ∧
    ∀ (table : Rehash) (hashOf : α → UInt64) (entries : List α) (capacity : Nat),
      isPowerOfTwo capacity = true → capacity < wordLimit → entries.length ≤ capacity →
        ∃ after, entries.foldlM (enter table hashOf) (Array.replicate capacity .empty) =
            .ok after ∧ after.size = capacity ∧ HoldsAll hashOf entries after := by
  have size : TableSize buckets.size := (tableSize_iff _).mpr ⟨power, fits⟩
  obtain ⟨outcome, searched⟩ := search_total hash matching size
  have finding := finding_unmatched size undeleted unmatched searched
  refine ⟨⟨outcome, _, searched, firstEmpty_eq_find hash size, ?_, ?_, ?_⟩, ?_⟩
  · intro index
    rw [finding]
    cases (Chain.order hash buckets.size).find? (Bucket.emptyAt buckets) <;> simp
  · rw [finding]
    cases (Chain.order hash buckets.size).find? (Bucket.emptyAt buckets) <;> simp
  · intro index first entry
    rw [Option.mem_def.mp first] at finding
    obtain ⟨free, reached⟩ := search_vacant size searched finding
    exact joins_set entry (free.resolve_right (undeleted index)) reached
  · intro table hashOf entries capacity power fits room
    exact enterAll_holdsAll table hashOf entries ((tableSize_iff _).mpr ⟨power, fits⟩) room

/-- Among four buckets with two entries, and for four entries that all have the same hash. -/
theorem insertion_searches_agree_four :
    let buckets : Array (Bucket Nat) := #[.empty, .occupied 9, .occupied 4, .empty]
    isPowerOfTwo buckets.size = true ∧ buckets.size < wordLimit ∧
      (∀ index : Nat, buckets[index]? ≠ some .deleted) ∧
      (∀ entry ∈ Bucket.entries buckets, (entry == 7) = false) ∧
      search buckets 1 (· == 7) = .ok { finding := .vacant 0, tested := [9, 4] } ∧
      firstEmpty buckets 1 = .ok (some 0) ∧
      ∃ after, [3, 5, 7, 5].foldlM (enter .interner fun _ => 6) (Array.replicate 4 .empty) =
        .ok after ∧ HoldsAll (fun _ => 6) [3, 5, 7, 5] after := by
  intro buckets
  have power : isPowerOfTwo buckets.size = true := by decide
  have fits : buckets.size < wordLimit := by decide
  have undeleted : ∀ index : Nat, buckets[index]? ≠ some .deleted := by
    intro index
    rcases index with _ | _ | _ | _ | index <;> simp [buckets]
  have unmatched : ∀ entry ∈ Bucket.entries buckets, (entry == 7) = false := by decide
  obtain ⟨-, places⟩ := insertion_searches_agree buckets 1 (· == 7) power fits undeleted unmatched
  obtain ⟨after, entered, -, holds⟩ := places .interner (fun _ => 6) [3, 5, 7, 5] 4 (by decide)
    (by decide) (by decide)
  exact ⟨power, fits, undeleted, unmatched, by decide, by decide, after, entered, holds⟩

end SymbolStore
