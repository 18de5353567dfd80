import SymbolStore.Proofs.Bucket.Placement
import SymbolStore.Proofs.Interner.Entry
import SymbolStore.Proofs.Interner.Reference
import SymbolStore.Proofs.Region.Valid

/-!
What holds of the buckets and the entries of an interner at all times, and that a search in such an
interner tells whether bytes are there.
-/

namespace SymbolStore

namespace Interner

def entries (interner : Interner) : List Pointer := Bucket.entries interner.table.buckets

abbrev span (interner : Interner) (heap : Heap) (entry : Pointer) : Nat :=
  Entry.span heap interner.value entry

abbrev content (interner : Interner) (heap : Heap) (entry : Pointer) : List UInt8 :=
  Entry.bytes heap interner.value entry

/-- What holds of an interner at all times. -/
structure Valid (interner : Interner) (heap : Heap) : Prop where
  size : TableSize interner.capacity
  least : minBuckets ≤ interner.capacity
  count : interner.count = interner.entries.length
  undeleted : Bucket.deletedCount interner.table.buckets = 0
  load : 4 * interner.count ≤ 3 * interner.capacity
  hashed : ∀ entry ∈ interner.entries,
    Entry.hash heap entry = interner.hasher (interner.content heap entry)
  placed : Placed (Entry.hash heap) interner.table.buckets
  distinct : (interner.entries.map (interner.content heap)).Nodup
  apart : interner.entries.Pairwise fun first second =>
    first.Apart (interner.span heap first) second (interner.span heap second)
  covered : ∀ entry ∈ interner.entries, interner.region.Covers entry (interner.span heap entry)

variable {interner : Interner} {heap before after : Heap} {entry : Pointer} {content : List UInt8}

theorem mem_entries :
    entry ∈ interner.entries ↔ ∃ i : Nat, interner.table.buckets[i]? = some (.occupied entry) :=
  Bucket.mem_entries

theorem toList_eq (heap : Heap) :
    interner.toList heap = interner.entries.map fun entry =>
      (interner.symbol entry, interner.content heap entry,
        Entry.value heap interner.value entry) := rfl

theorem mem_toList (member : entry ∈ interner.entries) :
    (interner.symbol entry, interner.content heap entry, Entry.value heap interner.value entry) ∈
      interner.toList heap :=
  List.mem_map.mpr ⟨entry, member, rfl⟩

theorem Valid.length_toList (valid : interner.Valid heap) :
    (interner.toList heap).length = interner.count := by
  calc
    (interner.toList heap).length = interner.entries.length := List.length_map _
    _ = interner.count := valid.count.symm

theorem Valid.room (valid : interner.Valid heap) :
    (Bucket.entries interner.table.buckets).length +
      Bucket.deletedCount interner.table.buckets < interner.table.buckets.size := by
  have count := valid.count
  have undeleted := valid.undeleted
  have load := valid.load
  have least := valid.least
  unfold entries at count
  unfold capacity BucketArray.capacity at load least
  unfold minBuckets at least
  omega

theorem symbol_injective : Function.Injective interner.symbol := by
  intro entry other same
  simpa [symbol] using same

theorem Valid.distinct_toList (valid : interner.Valid heap) : Distinct (interner.toList heap) where
  symbols := by
    rw [toList_eq, List.map_map]
    exact valid.distinct.of_map.map symbol_injective
  contents := by
    rw [toList_eq, List.map_map]
    exact valid.distinct

theorem resolve?_eq_some {symbol : Symbol} :
    interner.resolve? symbol = some entry ↔ symbol = interner.symbol entry := by
  rcases symbol with ⟨id, generation, place⟩
  simp only [resolve?, Interner.symbol, Symbol.mk.injEq]
  split
  · rename_i current
    rw [Option.some.injEq, current.1, current.2]
    simp
  · rename_i foreign
    constructor
    · intro none
      cases none
    · intro same
      exact absurd ⟨same.1, same.2.1⟩ foreign

/-- The interner issued the symbol, or it is not of its current generation. -/
def Knows (interner : Interner) (symbol : Symbol) : Prop :=
  ∀ entry, interner.resolve? symbol = some entry → entry ∈ interner.entries

theorem behind_eq {symbol : Symbol} (valid : interner.Valid heap) (knows : interner.Knows symbol) :
    behind (interner.toList heap) symbol = (interner.resolve? symbol).map fun entry =>
      (symbol, interner.content heap entry, Entry.value heap interner.value entry) := by
  cases resolved : interner.resolve? symbol with
  | none =>
      apply behind_eq_none.mpr
      intro _ listed same
      subst same
      obtain ⟨entry, -, rfl⟩ := List.mem_map.mp listed
      rw [resolve?_eq_some.mpr rfl] at resolved
      cases resolved
  | some entry =>
      rw [resolve?_eq_some.mp resolved]
      exact valid.distinct_toList.behind_of_mem (mem_toList (knows entry resolved))

def Lacks (interner : Interner) (heap : Heap) (content : List UInt8) : Prop :=
  ∀ entry ∈ interner.entries, interner.content heap entry ≠ content

theorem holding_of_lacks (lacks : interner.Lacks heap content) :
    holding (interner.toList heap) content = none :=
  holding_eq_none.mpr (List.forall_mem_map.mpr lacks)

theorem lacks_of_holding (none : holding (interner.toList heap) content = none) :
    interner.Lacks heap content := fun _ member =>
  holding_eq_none.mp none _ (List.mem_map_of_mem member)

theorem holds_of_content (valid : interner.Valid heap) (member : entry ∈ interner.entries)
    (same : interner.content heap entry = content) :
    Entry.holds heap interner.value content (interner.hasher content) entry = true := by
  have hash := valid.hashed entry member
  have length := Entry.length_bytes heap interner.value entry
  rw [same] at hash
  rw [show Entry.bytes heap interner.value entry = content from same] at length
  simp only [Entry.holds, hash, ← length, beq_self_eq_true, Bool.and_self, Bool.true_and,
    beq_iff_eq]
  exact same

theorem holding_of_content (valid : interner.Valid heap) (member : entry ∈ interner.entries)
    (same : interner.content heap entry = content) :
    holding (interner.toList heap) content =
      some (interner.symbol entry, content, Entry.value heap interner.value entry) := by
  have found := valid.distinct_toList.holding_of_mem (mem_toList member)
  rwa [same] at found

theorem find_cases (valid : interner.Valid heap) (content : List UInt8) :
    (∃ entry ∈ interner.entries, interner.find heap content = .ok (some entry) ∧
      interner.content heap entry = content) ∨
    (interner.find heap content = .ok none ∧ interner.Lacks heap content) := by
  rcases search_total (interner.hasher content)
      (Entry.holds heap interner.value content (interner.hasher content)) valid.size with
    ⟨outcome, searched⟩
  have lacks (missed : ∀ index, outcome.finding ≠ .found index) : interner.Lacks heap content := by
    intro entry member same
    obtain ⟨i, stored⟩ := mem_entries.mp member
    -- An entry with these bytes has their hash, so its walk is the one that was searched.
    have hash := valid.hashed entry member
    have reached := valid.placed i entry stored
    rw [hash, same] at reached
    have unmatched := search_not_found valid.size searched missed stored reached
    rw [holds_of_content valid member same] at unmatched
    cases unmatched
  simp only [find, findHashed, searched, bind, Except.bind]
  cases finding : outcome.finding with
  | found index =>
      rcases search_found valid.size searched finding with ⟨entry, stored, hit⟩
      have same : interner.content heap entry = content :=
        eq_of_beq (Bool.and_eq_true_iff.mp hit).2
      exact .inl ⟨entry, mem_entries.mpr ⟨index, stored⟩, by simp only [stored]; rfl, same⟩
  | vacant index => exact .inr ⟨rfl, lacks fun i => by simp [finding]⟩
  | exhausted => exact .inr ⟨rfl, lacks fun i => by simp [finding]⟩

/-- The later heap has the same hash and bytes for an entry as the earlier one. -/
structure Alike (interner : Interner) (before after : Heap) (entry : Pointer) : Prop where
  hash : Entry.hash after entry = Entry.hash before entry
  length : Entry.length after entry = Entry.length before entry
  bytes : interner.content after entry = interner.content before entry

theorem Alike.span (alike : interner.Alike before after entry) :
    interner.span after entry = interner.span before entry := by
  calc
    interner.span after entry = (Entry.header interner.value).size + Entry.length after entry := rfl
    _ = (Entry.header interner.value).size + Entry.length before entry := by rw [alike.length]
    _ = interner.span before entry := rfl

theorem alike_of_keeps (positive : 0 < interner.value.align)
    (keeps : before.Keeps after entry (interner.span before entry)) :
    interner.Alike before after entry :=
  ⟨Entry.hash_keeps keeps positive, Entry.length_keeps keeps positive,
    Entry.bytes_keeps keeps positive⟩

theorem placed_congr {hashOf hashOf' : Pointer → UInt64} {buckets : Array (Bucket Pointer)}
    (same : ∀ entry ∈ Bucket.entries buckets, hashOf' entry = hashOf entry)
    (placed : Placed hashOf buckets) : Placed hashOf' buckets := by
  intro i entry stored
  rw [same entry (Bucket.mem_entries.mpr ⟨i, stored⟩)]
  exact placed i entry stored

/-- A heap that is alike for all entries serves as well, and so does a region that covers them. -/
theorem Valid.alike (valid : interner.Valid before)
    (alike : ∀ entry ∈ interner.entries, interner.Alike before after entry) :
    interner.Valid after where
  size := valid.size
  least := valid.least
  count := valid.count
  undeleted := valid.undeleted
  load := valid.load
  hashed entry member := by
    rw [(alike entry member).hash, (alike entry member).bytes]
    exact valid.hashed entry member
  placed := placed_congr (fun entry member => (alike entry member).hash) valid.placed
  distinct := by
    rw [List.map_congr_left fun entry member => (alike entry member).bytes]
    exact valid.distinct
  apart := by
    apply valid.apart.imp_of_mem
    intro first second here there apart
    rw [(alike first here).span, (alike second there).span]
    exact apart
  covered entry member := by
    rw [(alike entry member).span]
    exact valid.covered entry member

theorem toList_inRegion {region : Region} (id : region.id = interner.region.id)
    (generation : region.generation = interner.region.generation) (heap : Heap) :
    Interner.toList { interner with region } heap = interner.toList heap := by
  simp only [toList, symbol, id, generation]

theorem Valid.inRegion {region : Region} (valid : interner.Valid heap)
    (covered : ∀ entry ∈ interner.entries, region.Covers entry (interner.span heap entry)) :
    Valid { interner with region } heap :=
  ⟨valid.size, valid.least, valid.count, valid.undeleted, valid.load, valid.hashed, valid.placed,
    valid.distinct, valid.apart, covered⟩

def withEntry (interner : Interner) (index : Nat) (entry : Pointer) : Interner :=
  { interner with
    table := interner.table.put index (.occupied entry)
    count := interner.count + 1 }

theorem capacity_withEntry (interner : Interner) (index : Nat) (entry : Pointer) :
    (interner.withEntry index entry).capacity = interner.capacity := by
  simp [capacity, withEntry, BucketArray.put, BucketArray.capacity]

section Entered

variable {index : Nat} (present : interner.table.buckets[index]? = some .empty)
include present

theorem entries_withEntry (entry : Pointer) :
    (interner.withEntry index entry).entries.Perm (entry :: interner.entries) := by
  obtain ⟨front, back, _, before, _, after⟩ := Bucket.set_split present
  have entered : (interner.withEntry index entry).entries = front ++ [entry] ++ back :=
    (after (.occupied entry)).1
  have whole : interner.entries = front ++ [] ++ back := before
  rw [entered, whole]
  simp

theorem toList_withEntry (heap : Heap) (entry : Pointer) :
    ((interner.withEntry index entry).toList heap).Perm
      (interner.toList heap ++ [(interner.symbol entry, interner.content heap entry,
        Entry.value heap interner.value entry)]) := by
  rw [toList_eq, toList_eq]
  apply ((entries_withEntry present entry).map _).trans
  exact (List.perm_append_singleton _ _).symm

theorem valid_withEntry (valid : interner.Valid heap)
    (lacks : interner.Lacks heap (interner.content heap entry))
    (hash : Entry.hash heap entry = interner.hasher (interner.content heap entry))
    (reached : Reached interner.table.buckets (Entry.hash heap entry) index)
    (apart : ∀ other ∈ interner.entries,
      entry.Apart (interner.span heap entry) other (interner.span heap other))
    (covered : interner.region.Covers entry (interner.span heap entry))
    (load : 4 * (interner.count + 1) ≤ 3 * interner.capacity) :
    (interner.withEntry index entry).Valid heap := by
  have perm := entries_withEntry present entry
  have capacity := interner.capacity_withEntry index entry
  have member {other : Pointer} (here : other ∈ (interner.withEntry index entry).entries) :
      other = entry ∨ other ∈ interner.entries :=
    List.mem_cons.mp (perm.mem_iff.mp here)
  constructor
  · rw [capacity]
    exact valid.size
  · rw [capacity]
    exact valid.least
  · rw [perm.length_eq, List.length_cons, ← valid.count]
    rfl
  · obtain ⟨_, _, marks, _, marked, after⟩ := Bucket.set_split present
    have undeleted := valid.undeleted
    have entered : Bucket.deletedCount (interner.withEntry index entry).table.buckets = marks + 0 :=
      (after (.occupied entry)).2
    omega
  · rw [capacity]
    exact load
  · intro other here
    rcases member here with rfl | old
    · exact hash
    · exact valid.hashed other old
  · exact placed_set_occupied valid.placed reached
  · refine ((perm.map _).nodup_iff).mpr (List.nodup_cons.mpr ⟨?_, valid.distinct⟩)
    intro known
    obtain ⟨other, there, same⟩ := List.mem_map.mp known
    exact lacks other there same
  · apply perm.symm.pairwise (List.pairwise_cons.mpr ⟨apart, valid.apart⟩)
    intro first second far
    exact far.symm
  · intro other here
    rcases member here with rfl | old
    · exact covered
    · exact valid.covered other old

end Entered

def withTable (interner : Interner) (table : BucketArray Pointer) : Interner :=
  { interner with table }

theorem valid_withTable {table : BucketArray Pointer} (valid : interner.Valid heap)
    (size : TableSize table.capacity) (least : minBuckets ≤ table.capacity)
    (load : 4 * interner.count ≤ 3 * table.capacity)
    (placed : Placed (Entry.hash heap) table.buckets)
    (undeleted : Bucket.deletedCount table.buckets = 0)
    (perm : (Bucket.entries table.buckets).Perm interner.entries) :
    (interner.withTable table).Valid heap where
  size := size
  least := least
  count := valid.count.trans perm.length_eq.symm
  undeleted := undeleted
  load := load
  hashed entry member := valid.hashed entry (perm.mem_iff.mp member)
  placed := placed
  distinct := ((perm.map _).nodup_iff).mpr valid.distinct
  apart := perm.symm.pairwise valid.apart fun far => far.symm
  covered entry member := valid.covered entry (perm.mem_iff.mp member)

def emptied (interner : Interner) : Interner :=
  { interner with table := interner.table.clear, count := 0 }

@[simp] theorem capacity_emptied : interner.emptied.capacity = interner.capacity := by
  simp [capacity, emptied, BucketArray.clear, BucketArray.capacity]

@[simp] theorem entries_emptied : interner.emptied.entries = [] := by
  simp [entries, emptied, BucketArray.clear]

theorem valid_unused {capacity : Nat} (size : TableSize capacity) (least : minBuckets ≤ capacity)
    (count : interner.count = 0)
    (empty : interner.table.buckets = Array.replicate capacity .empty) : interner.Valid heap := by
  have whole := BucketArray.capacity_of_replicate empty
  have none : interner.entries = [] := by rw [entries, empty, entries_replicate]
  subst whole
  constructor
  · exact size
  · exact least
  · rw [none, count]
    rfl
  · rw [empty, deletedCount_replicate]
  · rw [count]
    exact Nat.zero_le _
  · rw [none]
    intro entry member
    cases member
  · rw [empty]
    exact placed_replicate _ _
  · rw [none]
    exact .nil
  · rw [none]
    exact .nil
  · rw [none]
    intro entry member
    cases member

theorem valid_emptied (size : TableSize interner.capacity)
    (least : minBuckets ≤ interner.capacity) : interner.emptied.Valid heap :=
  valid_unused size least rfl rfl

end Interner

end SymbolStore
