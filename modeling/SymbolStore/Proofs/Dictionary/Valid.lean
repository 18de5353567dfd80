import SymbolStore.Proofs.Bucket.Placement
import SymbolStore.Proofs.Dictionary.Reference

/-!
What holds of the buckets and the counts of a dictionary at all times, and that a search in such a
dictionary tells whether a key is there.
-/

namespace SymbolStore

namespace Dictionary

variable {K V : Type}

def nodes (dictionary : Dictionary K V) : List (Node K V) :=
  Bucket.entries dictionary.table.buckets

/-- What holds of a dictionary at all times. -/
structure Valid (dictionary : Dictionary K V) : Prop where
  size : TableSize dictionary.capacity
  least : minBuckets ≤ dictionary.capacity
  count : dictionary.count = dictionary.nodes.length
  deleted : dictionary.deleted = Bucket.deletedCount dictionary.table.buckets
  load : 4 * (dictionary.count + dictionary.deleted) ≤ 3 * dictionary.capacity
  purged : dictionary.count = 0 →
    dictionary.table.buckets = Array.replicate dictionary.capacity .empty
  distinct : dictionary.nodes.Pairwise fun first second =>
    dictionary.rule.same first.key second.key = false
  hashed : ∀ node ∈ dictionary.nodes, node.hash = dictionary.rule.hash node.key
  placed : Placed Node.hash dictionary.table.buckets

variable {dictionary : Dictionary K V} {index : Nat} {node : Node K V} {key : K}

theorem mem_nodes :
    node ∈ dictionary.nodes ↔ ∃ i : Nat, dictionary.table.buckets[i]? = some (.occupied node) :=
  Bucket.mem_entries

theorem toList_eq : dictionary.toList = dictionary.nodes.map fun node => (node.key, node.value) :=
  rfl

theorem Valid.distinct_toList (valid : dictionary.Valid) :
    Distinct dictionary.rule dictionary.toList :=
  List.pairwise_map.mpr valid.distinct

theorem Valid.length_toList (valid : dictionary.Valid) :
    dictionary.toList.length = dictionary.count := by
  calc
    dictionary.toList.length = dictionary.nodes.length := List.length_map _
    _ = dictionary.count := valid.count.symm

theorem Valid.room (valid : dictionary.Valid) :
    (Bucket.entries dictionary.table.buckets).length +
      Bucket.deletedCount dictionary.table.buckets < dictionary.table.buckets.size := by
  have count := valid.count
  have deleted := valid.deleted
  have load := valid.load
  have least := valid.least
  unfold nodes at count
  unfold capacity BucketArray.capacity at load least
  unfold minBuckets at least
  omega

theorem Valid.count_pos (valid : dictionary.Valid)
    (stored : dictionary.table.buckets[index]? = some (.occupied node)) : 1 ≤ dictionary.count := by
  rw [valid.count]
  exact List.length_pos_of_mem (mem_nodes.mpr ⟨index, stored⟩)

def Lacks (dictionary : Dictionary K V) (key : K) : Prop :=
  ∀ node ∈ dictionary.nodes, dictionary.rule.same node.key key = false

/-- What a search in a valid dictionary may come to. -/
inductive Located (dictionary : Dictionary K V) (key : K) : Finding → Prop
  | found {index : Nat} {node : Node K V}
      (stored : dictionary.table.buckets[index]? = some (.occupied node))
      (same : dictionary.rule.same node.key key = true) : Located dictionary key (.found index)
  | vacant {index : Nat} (lacks : dictionary.Lacks key)
      (free : dictionary.table.buckets[index]? = some .empty ∨
        dictionary.table.buckets[index]? = some .deleted)
      (reached : Reached dictionary.table.buckets (dictionary.rule.hash key) index) :
      Located dictionary key (.vacant index)

/-- A search never stops with a fault, never runs out of buckets, and finds a key that is there. -/
theorem searchFor_located (valid : dictionary.Valid) (consistent : dictionary.rule.Consistent)
    (key : K) :
    ∃ outcome, dictionary.searchFor key = .ok outcome ∧
      dictionary.Located key outcome.finding := by
  rcases search_total (dictionary.rule.hash key)
      (fun node => node.hash == dictionary.rule.hash key && dictionary.rule.same node.key key)
      valid.size with ⟨outcome, searched⟩
  refine ⟨outcome, searched, ?_⟩
  have lacks (missed : ∀ index, outcome.finding ≠ .found index) : dictionary.Lacks key := by
    intro node member
    obtain ⟨i, stored⟩ := mem_nodes.mp member
    cases hit : dictionary.rule.same node.key key with
    | false => rfl
    | true =>
        -- A node with the key asked for has its hash, so its walk is the one that was searched.
        have hash : node.hash = dictionary.rule.hash key :=
          (valid.hashed node member).trans (consistent.hash _ _ hit)
        have reached := valid.placed i node stored
        rw [hash] at reached
        have unmatched := search_not_found valid.size searched missed stored reached
        simp [hash, hit] at unmatched
  cases finding : outcome.finding with
  | found index =>
      rcases search_found valid.size searched finding with ⟨node, stored, hit⟩
      exact .found stored (Bool.and_eq_true_iff.mp hit).2
  | vacant index =>
      rcases search_vacant valid.size searched finding with ⟨free, reached⟩
      exact .vacant (lacks fun i => by simp [finding]) free reached
  | exhausted =>
      obtain ⟨i, empty⟩ := Bucket.exists_empty valid.room
      rw [search_exhausted valid.size searched finding i] at empty
      cases empty

theorem find_cases (valid : dictionary.Valid) (consistent : dictionary.rule.Consistent) (key : K) :
    (∃ index node, dictionary.find key = .ok (some (index, node)) ∧
      dictionary.table.buckets[index]? = some (.occupied node) ∧
      dictionary.rule.same node.key key = true) ∨
    (dictionary.find key = .ok none ∧ dictionary.Lacks key) := by
  rcases searchFor_located valid consistent key with ⟨⟨finding, tested⟩, searched, located⟩
  simp only [find, searched, bind, Except.bind]
  cases located with
  | @found index node stored same =>
      exact .inl ⟨index, node, by simp only [stored]; rfl, stored, same⟩
  | vacant lacks _ _ => exact .inr ⟨rfl, lacks⟩

@[simps]
def withBucket (dictionary : Dictionary K V) (index : Nat) (bucket : Bucket (Node K V))
    (count deleted : Nat) : Dictionary K V :=
  { dictionary with table := dictionary.table.put index bucket, count, deleted }

@[simps]
def emptied (dictionary : Dictionary K V) : Dictionary K V :=
  { dictionary with table := dictionary.table.clear, count := 0, deleted := 0 }

@[simps]
def rebuilt (dictionary : Dictionary K V) (table : BucketArray (Node K V)) : Dictionary K V :=
  { dictionary with table, deleted := 0 }

section Bucket

variable {old new : Bucket (Node K V)} {count deleted : Nat}

@[simp] theorem capacity_withBucket :
    (dictionary.withBucket index new count deleted).capacity = dictionary.capacity := by
  simp [capacity, BucketArray.put, BucketArray.capacity]

theorem nodes_withBucket (present : dictionary.table.buckets[index]? = some old) :
    ∃ front back, dictionary.nodes = front ++ old.entry?.toList ++ back ∧
      ∀ new count deleted, (dictionary.withBucket index new count deleted).nodes =
        front ++ new.entry?.toList ++ back := by
  obtain ⟨front, back, _, before, _, after⟩ := Bucket.set_split present
  exact ⟨front, back, before, fun new _ _ => (after new).1⟩

theorem counts_withBucket (present : dictionary.table.buckets[index]? = some old)
    (counts : dictionary.count = dictionary.nodes.length)
    (marks : dictionary.deleted = Bucket.deletedCount dictionary.table.buckets)
    (counted : count + old.entry?.toList.length = dictionary.count + new.entry?.toList.length)
    (marked : deleted + old.isDeleted.toNat = dictionary.deleted + new.isDeleted.toNat) :
    count = (dictionary.withBucket index new count deleted).nodes.length ∧
      deleted = Bucket.deletedCount (dictionary.withBucket index new count deleted).table.buckets := by
  obtain ⟨front, back, others, before, markedBefore, after⟩ := Bucket.set_split present
  obtain ⟨nodes, markedAfter⟩ := after new
  constructor
  · show count = (Bucket.entries (dictionary.table.buckets.setIfInBounds index new)).length
    rw [Dictionary.nodes, before] at counts
    rw [nodes]
    simp only [List.length_append] at counts ⊢
    omega
  · show deleted = Bucket.deletedCount (dictionary.table.buckets.setIfInBounds index new)
    omega

variable (valid : dictionary.Valid) (present : dictionary.table.buckets[index]? = some old)
include valid present

/-- What a new content of a bucket has to bring along for the dictionary to stay valid. -/
theorem valid_withBucket (full : new.isEmpty = false) (positive : 0 < count)
    (counted : count + old.entry?.toList.length = dictionary.count + new.entry?.toList.length)
    (marked : deleted + old.isDeleted.toNat = dictionary.deleted + new.isDeleted.toNat)
    (load : 4 * (count + deleted) ≤ 3 * dictionary.capacity)
    (distinct : (dictionary.withBucket index new count deleted).nodes.Pairwise fun first second =>
      dictionary.rule.same first.key second.key = false)
    (enters : ∀ node ∈ new.entry?, node.hash = dictionary.rule.hash node.key ∧
      Reached dictionary.table.buckets node.hash index) :
    (dictionary.withBucket index new count deleted).Valid := by
  have counts := counts_withBucket present valid.count valid.deleted counted marked
  constructor
  · rw [capacity_withBucket]
    exact valid.size
  · rw [capacity_withBucket]
    exact valid.least
  · exact counts.1
  · exact counts.2
  · rw [capacity_withBucket]
    exact load
  · intro zero
    exact absurd zero (Nat.ne_of_gt positive)
  · exact distinct
  · intro node member
    obtain ⟨i, stored⟩ := mem_nodes.mp member
    rcases Bucket.set_cases stored with ⟨-, rfl⟩ | before
    · exact (enters node rfl).1
    · exact valid.hashed node (mem_nodes.mpr ⟨i, before⟩)
  · exact placed_set valid.placed full fun node entered => (enters node entered).2

end Bucket

section Stored

variable (valid : dictionary.Valid) (consistent : dictionary.rule.Consistent)
  (stored : dictionary.table.buckets[index]? = some (.occupied node))
  (same : dictionary.rule.same node.key key = true)
include valid consistent stored same

/-- The node of a key among the others, none of which has that key. -/
theorem nodes_split : ∃ front back, dictionary.nodes = front ++ [node] ++ back ∧
    (∀ other ∈ front ++ back, dictionary.rule.same other.key key = false) ∧
    ∀ new count deleted, (dictionary.withBucket index new count deleted).nodes =
      front ++ new.entry?.toList ++ back := by
  rcases nodes_withBucket stored with ⟨front, back, before, after⟩
  have whole : dictionary.nodes = front ++ [node] ++ back := before
  refine ⟨front, back, whole, ?_, after⟩
  have distinct := valid.distinct_toList
  simp only [toList_eq, whole, List.map_append, List.map_cons, List.map_nil] at distinct
  have others := (lookup_split consistent distinct same).1
  intro other member
  rw [← List.map_append] at others
  exact others _ (List.mem_map_of_mem member)

theorem lookup_stored : lookup dictionary.rule dictionary.toList key = some node.value := by
  rcases nodes_split valid consistent stored same with ⟨front, back, whole, -⟩
  have distinct := valid.distinct_toList
  simp only [toList_eq, whole, List.map_append, List.map_cons, List.map_nil] at distinct ⊢
  exact (lookup_split consistent distinct same).2

theorem valid_replaced (value : V) :
    (dictionary.withBucket index (.occupied { node with value }) dictionary.count
      dictionary.deleted).Valid := by
  rcases nodes_split valid consistent stored same with ⟨front, back, whole, -, after⟩
  have count := valid.count
  have distinct := valid.distinct
  rw [whole] at count distinct
  apply valid_withBucket valid stored rfl
  · rw [count]
    simp
  · rfl
  · rfl
  · exact valid.load
  · rw [after]
    simpa [List.pairwise_append] using distinct
  · intro _ equal
    cases equal
    exact ⟨valid.hashed node (mem_nodes.mpr ⟨index, stored⟩), valid.placed index node stored⟩

theorem toList_replaced (f : V → V) :
    (dictionary.withBucket index (.occupied { node with value := f node.value }) dictionary.count
      dictionary.deleted).toList = alter dictionary.rule key f dictionary.toList := by
  rcases nodes_split valid consistent stored same with ⟨front, back, whole, others, after⟩
  have apart : ∀ other ∈ front.map (fun node => (node.key, node.value)) ++
      back.map (fun node => (node.key, node.value)), dictionary.rule.same other.1 key = false := by
    rw [← List.map_append]
    exact List.forall_mem_map.mpr others
  have changed := alter_split (node.key, node.value) apart same f
  rw [toList_eq, toList_eq, after, whole]
  simpa using changed.symm

theorem blocks_replaced (value : V) (count deleted : Nat) :
    (dictionary.withBucket index (.occupied { node with value }) count deleted).blocks =
      dictionary.blocks := by
  rcases nodes_split valid consistent stored same with ⟨front, back, whole, -, after⟩
  show (Dictionary.nodes _).map Node.block = dictionary.nodes.map Node.block
  rw [after, whole]
  simp

theorem valid_struck (more : 1 < dictionary.count) :
    (dictionary.withBucket index .deleted (dictionary.count - 1) (dictionary.deleted + 1)).Valid :=
    by
  rcases nodes_split valid consistent stored same with ⟨front, back, whole, -, after⟩
  have load := valid.load
  have distinct := valid.distinct
  rw [whole] at distinct
  apply valid_withBucket valid stored rfl
  · omega
  · simp only [Bucket.entry?, Option.toList_some, Option.toList_none, List.length_cons,
      List.length_nil]
    omega
  · rfl
  · omega
  · rw [after]
    apply distinct.sublist ?_
    simp
  · intro _ equal
    cases equal

theorem toList_struck (count deleted : Nat) :
    (dictionary.withBucket index .deleted count deleted).toList =
      without dictionary.rule key dictionary.toList := by
  rcases nodes_split valid consistent stored same with ⟨front, back, whole, others, after⟩
  have apart : ∀ other ∈ front.map (fun node => (node.key, node.value)) ++
      back.map (fun node => (node.key, node.value)), dictionary.rule.same other.1 key = false := by
    rw [← List.map_append]
    exact List.forall_mem_map.mpr others
  have left := without_split (node.key, node.value) apart same
  rw [toList_eq, toList_eq, after, whole]
  simpa using left.symm

theorem without_last (last : dictionary.count - 1 = 0) :
    without dictionary.rule key dictionary.toList = [] := by
  rcases nodes_split valid consistent stored same with ⟨front, back, whole, -, after⟩
  have count := valid.count
  rw [whole] at count
  simp only [List.length_append, List.length_singleton] at count
  have none : (dictionary.withBucket index .deleted 0 0).nodes = [] := by
    rw [after]
    apply List.eq_nil_of_length_eq_zero
    simp only [Bucket.entry?, Option.toList_none, List.length_append, List.length_nil]
    omega
  rw [← toList_struck valid consistent stored same 0 0, toList_eq, none]
  rfl

end Stored

theorem lookup_of_lacks (lacks : dictionary.Lacks key) :
    lookup dictionary.rule dictionary.toList key = none :=
  lookup_eq_none.mpr (List.forall_mem_map.mpr lacks)

section Vacant

variable {old : Bucket (Node K V)} {block deleted : Nat} {value : V}
  (present : dictionary.table.buckets[index]? = some old) (vacant : old.entry? = none)
include present vacant

theorem nodes_inserted (count : Nat) :
    (dictionary.withBucket index (.occupied node) count deleted).nodes.Perm
      (node :: dictionary.nodes) := by
  rcases nodes_withBucket present with ⟨front, back, before, after⟩
  rw [after, before, vacant]
  simp

theorem valid_inserted (valid : dictionary.Valid) (consistent : dictionary.rule.Consistent)
    (lacks : dictionary.Lacks key)
    (reached : Reached dictionary.table.buckets (dictionary.rule.hash key) index)
    (marked : deleted + old.isDeleted.toNat = dictionary.deleted)
    (load : 4 * (dictionary.count + 1 + deleted) ≤ 3 * dictionary.capacity) :
    (dictionary.withBucket index
      (.occupied { block, hash := dictionary.rule.hash key, key, value })
      (dictionary.count + 1) deleted).Valid := by
  apply valid_withBucket valid present rfl
  · omega
  · rw [vacant]
    rfl
  · exact marked
  · exact load
  · apply (nodes_inserted present vacant _).symm.pairwise
    · refine List.pairwise_cons.mpr ⟨?_, valid.distinct⟩
      intro other member
      rw [consistent.comm]
      exact lacks other member
    · intro first second different
      rwa [consistent.comm]
  · intro _ equal
    cases equal
    exact ⟨rfl, reached⟩

theorem toList_inserted (count : Nat) (hash : UInt64) :
    (dictionary.withBucket index (.occupied { block, hash, key, value }) count
      deleted).toList.Perm (dictionary.toList ++ [(key, value)]) := by
  rw [toList_eq, toList_eq]
  apply ((nodes_inserted present vacant count).map _).trans
  exact (List.perm_append_singleton _ _).symm

end Vacant

theorem valid_unused {capacity : Nat} (size : TableSize capacity) (least : minBuckets ≤ capacity)
    (count : dictionary.count = 0) (deleted : dictionary.deleted = 0)
    (empty : dictionary.table.buckets = Array.replicate capacity .empty) : dictionary.Valid := by
  have whole := BucketArray.capacity_of_replicate empty
  have none : dictionary.nodes = [] := by rw [nodes, empty, entries_replicate]
  subst whole
  constructor
  · exact size
  · exact least
  · rw [none, count]
    rfl
  · rw [empty, deletedCount_replicate, deleted]
  · rw [count, deleted]
    exact Nat.zero_le _
  · intro _
    exact empty
  · rw [none]
    exact .nil
  · rw [none]
    intro node member
    cases member
  · rw [empty]
    exact placed_replicate _ _

@[simp] theorem capacity_emptied : dictionary.emptied.capacity = dictionary.capacity := by
  simp [capacity, BucketArray.clear, BucketArray.capacity]

@[simp] theorem nodes_emptied : dictionary.emptied.nodes = [] := by
  simp [nodes, BucketArray.clear]

theorem valid_emptied (valid : dictionary.Valid) : dictionary.emptied.Valid :=
  valid_unused valid.size valid.least rfl rfl rfl

theorem replicate_of_unused {buckets : Array (Bucket (Node K V))}
    (unoccupied : (Bucket.entries buckets).length = 0) (undeleted : Bucket.deletedCount buckets = 0) :
    buckets = Array.replicate buckets.size .empty := by
  have count := Bucket.count_buckets buckets
  have all : ∀ bucket ∈ buckets.toList, bucket.isEmpty = true := by
    apply List.countP_eq_length.mp
    rw [Array.length_toList]
    omega
  apply Array.toList_inj.mp
  rw [Array.toList_replicate, List.eq_replicate_iff]
  refine ⟨Array.length_toList, ?_⟩
  intro bucket member
  have empty := all bucket member
  cases bucket <;> simp at empty ⊢

theorem valid_rebuilt {table : BucketArray (Node K V)} (valid : dictionary.Valid)
    (consistent : dictionary.rule.Consistent) (size : TableSize table.capacity)
    (least : minBuckets ≤ table.capacity) (load : 4 * dictionary.count ≤ 3 * table.capacity)
    (placed : Placed Node.hash table.buckets) (undeleted : Bucket.deletedCount table.buckets = 0)
    (perm : (Bucket.entries table.buckets).Perm dictionary.nodes) :
    (dictionary.rebuilt table).Valid where
  size := size
  least := least
  count := valid.count.trans perm.length_eq.symm
  deleted := undeleted.symm
  load := load
  purged zero := by
    have zero : dictionary.count = 0 := zero
    apply replicate_of_unused ?_ undeleted
    calc
      (Bucket.entries table.buckets).length = dictionary.nodes.length := perm.length_eq
      _ = dictionary.count := valid.count.symm
      _ = 0 := zero
  distinct := by
    refine perm.symm.pairwise valid.distinct ?_
    intro first second different
    rwa [rebuilt_rule, consistent.comm]
  hashed node member := valid.hashed node (perm.mem_iff.mp member)
  placed := placed

end Dictionary

end SymbolStore
