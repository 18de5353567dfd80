import SymbolStore.Proofs.Dictionary.Stocked
import SymbolStore.Proofs.Twin.Tables

/-!
Dictionaries of two processes that stand for each other. Their nodes are at other addresses, but in
the same buckets and with the same hashes, keys and values; no search reads an address.
-/

namespace SymbolStore

open SymbolStore.Action (Lockstep)
open SymbolStore.Process (Twins)

variable {K V : Type} {allocator : Allocator} {grants : Nat → Bool} {names later : Renaming}
  {rest extents : Multiset Extent} {bound room : Nat} {p q : Process}

def Node.rename (names : Renaming) (node : Node K V) : Node K V :=
  { node with block := names.block node.block }

namespace Dictionary

def rename (names : Renaming) (dictionary : Dictionary K V) : Dictionary K V :=
  { dictionary with table := dictionary.table.rename names (Node.rename names) }

variable {dictionary : Dictionary K V} {index count deleted : Nat} {node : Node K V} {key : K}

abbrev Beside := SymbolStore.Beside (holdings : Dictionary K V → Multiset Extent) rename
  fun _ _ => True

abbrev Onto := SymbolStore.Onto (holdings : Dictionary K V → Multiset Extent) rename
  (fun _ _ => True) (fun _ => 0) fun _ => none

@[simp] theorem capacity_rename (names : Renaming) (dictionary : Dictionary K V) :
    (dictionary.rename names).capacity = dictionary.capacity := BucketArray.capacity_rename ..

theorem node_congr (keeps : names.Keeps later dictionary.holdings) (member : node ∈ dictionary.nodes) :
    node.rename later = node.rename names := by
  have held : dictionary.nodeExtent node.block ∈ dictionary.holdings :=
    Multiset.mem_cons_of_mem (Multiset.mem_map_of_mem _
      (Multiset.mem_coe.mpr (List.mem_map_of_mem member)))
  have same : later.block node.block = names.block node.block := keeps.block _ held
  rw [Node.rename, Node.rename, same]

theorem rename_congr (keeps : names.Keeps later dictionary.holdings) :
    dictionary.rename later = dictionary.rename names := by
  have table : later.block dictionary.table.block = names.block dictionary.table.block :=
    keeps.block (dictionary.table.extent dictionary.manager) (Multiset.mem_cons_self _ _)
  rw [rename, rename, BucketArray.rename_congr table fun node => node_congr keeps]

section Reads

variable (names) (dictionary)

theorem searchFor_rename (key : K) : (dictionary.rename names).searchFor key =
    (dictionary.searchFor key).map (Search.map (Node.rename names)) := by
  rw [searchFor, searchFor]
  exact search_map (fun _ _ => rfl) _

theorem find_rename (key : K) : (dictionary.rename names).find key =
    (dictionary.find key).map (Option.map fun (index, node) => (index, node.rename names)) := by
  simp only [find, bind, Except.bind, searchFor_rename]
  cases dictionary.searchFor key with
  | error cause => rfl
  | ok outcome =>
      simp only [Except.map, Search.map]
      cases outcome.finding with
      | found index =>
          simp only [rename, BucketArray.rename, Array.getElem?_map, pure, Except.pure]
          cases dictionary.table.buckets[index]? with
          | none => rfl
          | some bucket => cases bucket <;> rfl
      | vacant | exhausted => rfl

theorem get_rename (key : K) : (dictionary.rename names).get key = dictionary.get key := by
  rw [get, get, find_rename]
  cases dictionary.find key with
  | error cause => rfl
  | ok found => cases found <;> rfl

theorem contains_rename (key : K) :
    (dictionary.rename names).contains key = dictionary.contains key := by
  rw [contains, contains, find_rename]
  cases dictionary.find key with
  | error cause => rfl
  | ok found => cases found <;> rfl

theorem toList_rename : (dictionary.rename names).toList = dictionary.toList := by
  rw [toList, toList, rename, BucketArray.rename, Bucket.entries_map, List.map_map]
  rfl

theorem blocks_rename : (dictionary.rename names).blocks = dictionary.blocks.map names.block := by
  rw [blocks, blocks, rename, BucketArray.rename, Bucket.entries_map, List.map_map, List.map_map]
  rfl

theorem withBucket_rename (index : Nat) (bucket : Bucket (Node K V)) (count deleted : Nat) :
    (dictionary.rename names).withBucket index (bucket.map (Node.rename names)) count deleted =
      (dictionary.withBucket index bucket count deleted).rename names := by
  simp only [withBucket, rename, BucketArray.put_rename]

theorem emptied_rename : (dictionary.rename names).emptied = dictionary.emptied.rename names := by
  simp only [emptied, rename, BucketArray.clear_rename]

end Reads

theorem stored_of_find {found : Option (Nat × Node K V)} (searched : dictionary.find key = .ok found) :
    ∀ entry ∈ found, dictionary.table.buckets[entry.1]? = some (.occupied entry.2) := by
  simp only [find, bind, Except.bind] at searched
  split at searched
  · cases searched
  · split at searched
    · rename_i index _
      cases searched
      intro entry member
      obtain ⟨node, there, rfl⟩ := Option.map_eq_some_iff.mp member
      obtain ⟨bucket, present, holds⟩ := Option.bind_eq_some_iff.mp there
      cases bucket <;> cases holds
      exact present
    · cases searched
      exact fun entry none => absurd none (Option.not_mem_none entry)

section Blocks

theorem nodes_le {table : BucketArray (Node K V)} {nodes : Multiset (Node K V)}
    (less : (Bucket.entries table.buckets : Multiset (Node K V)) ≤ nodes) (count deleted : Nat) :
    { dictionary with table, count, deleted : Dictionary K V }.holdings ≤
      table.extent dictionary.manager ::ₘ
        nodes.map fun node => dictionary.nodeExtent node.block := by
  rw [holdings]
  refine Multiset.cons_le_cons _ ?_
  show ((Bucket.entries table.buckets).map Node.block : Multiset Nat).map dictionary.nodeExtent ≤ _
  rw [← Multiset.map_coe, Multiset.map_map]
  exact Multiset.map_le_map less

theorem holdings_nodes (dictionary : Dictionary K V) : dictionary.holdings =
    dictionary.table.extent dictionary.manager ::ₘ
      (dictionary.nodes : Multiset (Node K V)).map fun node =>
        dictionary.nodeExtent node.block := by
  rw [holdings, blocks, ← Multiset.map_coe, Multiset.map_map]
  rfl

theorem rebuilt_le {table : BucketArray (Node K V)}
    (less : (Bucket.entries table.buckets : Multiset (Node K V)) ≤ dictionary.nodes) :
    (dictionary.rebuilt table).holdings ≤ table.extent dictionary.manager ::ₘ
      (dictionary.nodes : Multiset (Node K V)).map fun node =>
        dictionary.nodeExtent node.block := nodes_le less dictionary.count 0

theorem holdings_put_le (index : Nat) (node : Node K V) (count deleted : Nat) :
    (dictionary.withBucket index (.occupied node) count deleted).holdings ≤
      dictionary.nodeExtent node.block ::ₘ dictionary.holdings := by
  have entered := Bucket.entries_set_le dictionary.table.buckets index (.occupied node)
  refine (nodes_le entered count deleted).trans_eq ?_
  rw [BucketArray.extent_put, holdings_nodes, Multiset.cons_swap]
  rfl

end Blocks

theorem beside_withBucket {bucket : Bucket (Node K V)} (twins : Twins allocator names
      ((dictionary.withBucket index bucket count deleted).holdings + rest) room p q) :
    Beside allocator names rest room (dictionary.withBucket index bucket count deleted, p)
      ((dictionary.rename names).withBucket index (bucket.map (Node.rename names)) count deleted,
        q) :=
  ⟨withBucket_rename names dictionary index bucket count deleted, trivial, twins⟩

theorem beside_inserted {a b : Nat} {hash : UInt64} {value : V}
    (keeps : names.Keeps (names.assign a b) (dictionary.holdings + rest))
    (twins : Twins allocator (names.assign a b)
      (⟨dictionary.manager, a, dictionary.node.size * 1⟩ ::ₘ (dictionary.holdings + rest)) room p q) :
    Beside allocator (names.assign a b) rest room
      (dictionary.withBucket index (.occupied { block := a, hash, key, value }) count deleted, p)
      ((dictionary.rename names).withBucket index (.occupied { block := b, hash, key, value }) count
        deleted, q) where
  same := by
    rw [← rename_congr (keeps.mono (Multiset.le_add_right dictionary.holdings rest)),
      ← withBucket_rename, Bucket.map, Node.rename, Renaming.block_assign]
  level := trivial
  twins := by
    rw [Nat.mul_one, ← Multiset.cons_add] at twins
    exact twins.forget (add_le_add_left (holdings_put_le index _ count deleted) rest)

theorem emptied_holdings (dictionary : Dictionary K V) :
    dictionary.emptied.holdings = {dictionary.table.extent dictionary.manager} := by
  rw [holdings_nodes, nodes_emptied, emptied_table, BucketArray.extent_clear]
  rfl

theorem emptied_le (dictionary : Dictionary K V) (index count deleted : Nat) :
    dictionary.emptied.holdings ≤ (dictionary.withBucket index .deleted count deleted).holdings := by
  rw [emptied_holdings, holdings, withBucket_table, BucketArray.extent_put]
  exact Multiset.singleton_le.mpr (Multiset.mem_cons_self _ _)

theorem beside_emptied (twins : Twins allocator names (dictionary.emptied.holdings + rest) room p q) :
    Beside allocator names rest room (dictionary.emptied, p) ((dictionary.rename names).emptied, q) :=
  ⟨emptied_rename names dictionary, trivial, twins⟩

section Operations

theorem replaceAt_tandem {excused pardoned : Failure → Dictionary K V × Process → Prop}
    (index : Nat) (value : V)
    (beside : Beside allocator names rest room (dictionary, p) (dictionary.rename names, q)) :
    Lockstep excused pardoned (replaceAt index value) (replaceAt index value) (dictionary, p)
      (dictionary.rename names, q)
      (fun a b s t => b = a ∧ Onto allocator names rest room dictionary (fun _ => True) s t)
      fun _ => Onto allocator names rest room dictionary fun _ => True := by
  rw [replaceAt]
  refine .step (by rfl) (by rfl) ?_
  have stands : ((dictionary.rename names).table.buckets[index]?).bind Bucket.entry? =
      ((dictionary.table.buckets[index]?).bind Bucket.entry?).map (Node.rename names) := by
    simp only [rename, BucketArray.rename, Array.getElem?_map]
    cases dictionary.table.buckets[index]? with
    | none => rfl
    | some bucket => exact Bucket.map_entry _ bucket
  dsimp only
  rw [stands]
  cases found : (dictionary.table.buckets[index]?).bind Bucket.entry? with
  | none => exact Action.lockstep_stop (beside.onto trivial)
  | some node =>
      obtain ⟨bucket, present, holds⟩ := Option.bind_eq_some_iff.mp found
      cases bucket <;> cases holds
      have held : (dictionary.withBucket index (.occupied { node with value }) dictionary.count
          dictionary.deleted).holdings = dictionary.holdings := by
        apply holdings_replaced present
        rfl
      have after := beside_withBucket (held.symm ▸ beside.twins)
      exact .step (by rfl) (by rfl)
        (.last (by rfl) (by rfl) ⟨rfl, after.moved (.refl names rest) trivial⟩)

theorem modify_tandem {excused pardoned : Failure → Dictionary K V × Process → Prop} (key : K)
    (f : V → V)
    (beside : Beside allocator names rest room (dictionary, p) (dictionary.rename names, q)) :
    Lockstep excused pardoned (modify key f) (modify key f) (dictionary, p)
      (dictionary.rename names, q)
      (fun a b s t => b = a ∧ Onto allocator names rest room dictionary (fun _ => True) s t)
      fun _ => Onto allocator names rest room dictionary fun _ => True := by
  rw [modify]
  refine .step (by rfl) (by rfl) ?_
  rw [find_rename]
  refine .ofMapped (fun _ => beside.onto trivial) fun found _ => ?_
  cases found with
  | none => exact .last (by rfl) (by rfl) ⟨rfl, beside.onto trivial⟩
  | some entry =>
      refine (replaceAt_tandem entry.1 (f entry.2.value) beside).bind (fun _ _ _ => id) ?_
      exact fun _ _ _ _ ends => .last (by rfl) (by rfl) ⟨rfl, ends.2⟩

theorem remove_tandem {excused pardoned : Failure → Dictionary K V × Process → Prop} (key : K)
    (beside : Beside allocator names rest room (dictionary, p) (dictionary.rename names, q)) :
    Lockstep excused pardoned (remove key) (remove key) (dictionary, p)
      (dictionary.rename names, q)
      (fun a b s t => b = a ∧ Onto allocator names rest room dictionary (fun _ => True) s t)
      fun _ => Onto allocator names rest room dictionary fun _ => True := by
  rw [remove]
  refine .step (by rfl) (by rfl) ?_
  rw [find_rename]
  refine .ofMapped (fun _ => beside.onto trivial) fun found searched => ?_
  cases found with
  | none => exact .last (by rfl) (by rfl) ⟨rfl, beside.onto trivial⟩
  | some entry =>
      obtain ⟨index, node⟩ := entry
      have stored := stored_of_find searched _ rfl
      refine .ofFault (fun _ => beside.onto trivial) fun count _ => ?_
      refine .ofFault (fun _ => beside.onto trivial) fun deleted _ => ?_
      have twins := beside.twins
      rw [holdings_struck stored count deleted, Multiset.cons_add] at twins
      dsimp only
      split
      · rename_i last
        obtain rfl := last
        refine .step (by rfl) (by rfl) ?_
        refine Method.lockstep_process (Manager.free_tandem twins) (fun _ _ _ => False.elim) ?_
        intro _ _ p q twins
        have less := emptied_le dictionary index 0 deleted
        have after := beside_emptied (twins.forget (add_le_add_left less rest))
        exact .last (by rfl) (by rfl) ⟨rfl, after.moved (.refl names rest) trivial⟩
      · refine .step (by rfl) (by rfl) ?_
        refine Method.lockstep_process (Manager.free_tandem twins) (fun _ _ _ => False.elim) ?_
        intro _ _ p q twins
        have after := beside_withBucket twins
        exact .last (by rfl) (by rfl) ⟨rfl, after.moved (.refl names rest) trivial⟩

theorem delete_tandem {excused pardoned : Failure → Dictionary K V × Process → Prop} (key : K)
    (beside : Beside allocator names rest room (dictionary, p) (dictionary.rename names, q)) :
    Lockstep excused pardoned (delete key) (delete key) (dictionary, p)
      (dictionary.rename names, q)
      (fun a b s t => b = a ∧ Onto allocator names rest room dictionary (fun _ => True) s t)
      fun _ => Onto allocator names rest room dictionary fun _ => True := by
  rw [delete]
  refine Action.lockstep_map ((remove_tandem key beside).mono ?_ fun _ _ _ => id)
  exact fun _ _ _ _ ends => ⟨congrArg Option.isSome ends.1, ends.2⟩

theorem freeAll_tandem {excused pardoned : Failure → Process → Prop} (manager : Manager)
    (size : Nat) {blocks : List Nat}
    (twins : Twins allocator names ((blocks : Multiset Nat).map (⟨manager, ·, size⟩) + rest) room
      p q) :
    Lockstep excused pardoned (blocks.forM manager.free) ((blocks.map names.block).forM manager.free)
      p q (fun _ _ => Twins allocator names rest room) fun _ _ _ => False := by
  induction blocks generalizing p q with
  | nil =>
      rw [Multiset.coe_nil, Multiset.map_zero, zero_add] at twins
      exact twins
  | cons block blocks ih =>
      rw [← Multiset.cons_coe, Multiset.map_cons, Multiset.cons_add] at twins
      show Lockstep _ _ (manager.free block >>= fun _ => blocks.forM manager.free)
        (manager.free (names.block block) >>= fun _ =>
          (blocks.map names.block).forM manager.free) p q _ _
      exact (Manager.free_tandem twins).bind (fun _ _ _ => False.elim) fun _ _ _ _ => ih

theorem freeNodes_tandem {excused pardoned : Failure → Process → Prop}
    (twins : Twins allocator names (dictionary.holdings + rest) room p q) :
    Lockstep excused pardoned (dictionary.blocks.forM dictionary.manager.free)
      ((dictionary.rename names).blocks.forM dictionary.manager.free) p q
      (fun _ _ => Twins allocator names
        (dictionary.table.extent dictionary.manager ::ₘ rest) room) fun _ _ _ => False := by
  rw [blocks_rename]
  refine freeAll_tandem dictionary.manager dictionary.node.size ?_
  rw [holdings, Multiset.cons_add, ← Multiset.add_cons] at twins
  exact twins

theorem clear_tandem {excused pardoned : Failure → Dictionary K V × Process → Prop}
    (beside : Beside allocator names rest room (dictionary, p) (dictionary.rename names, q)) :
    Lockstep excused pardoned clear clear (dictionary, p) (dictionary.rename names, q)
      (fun _ _ => Onto allocator names rest room dictionary fun _ => True)
      fun _ => Onto allocator names rest room dictionary fun _ => True := by
  rw [clear]
  refine .step (by rfl) (by rfl) ?_
  refine Method.lockstep_process (freeNodes_tandem beside.twins) (fun _ _ _ => False.elim) ?_
  intro _ _ p q twins
  rw [← Multiset.singleton_add, ← emptied_holdings] at twins
  have after := beside_emptied twins
  exact .last (by rfl) (by rfl) (after.moved (.refl names rest) trivial)

theorem discard_tandem {excused pardoned : Failure → Process → Prop}
    (twins : Twins allocator names (dictionary.holdings + rest) room p q) :
    Lockstep excused pardoned dictionary.discard (dictionary.rename names).discard p q
      (fun _ _ => Twins allocator names rest room) fun _ _ _ => False := by
  rw [discard, discard]
  refine (freeNodes_tandem twins).bind (fun _ _ _ => False.elim) fun _ _ p q twins => ?_
  refine (Manager.free_tandem twins).bind (fun _ _ _ => False.elim) ?_
  exact fun _ _ _ _ twins => twins.release _

variable (bySize : allocator.BySize grants bound)
include bySize

theorem rebuild_tandem
    (beside : Beside allocator names rest (room + 1) (dictionary, p) (dictionary.rename names, q)) :
    Method.Tandem bound rebuild rebuild (dictionary, p) (dictionary.rename names, q)
      (fun _ _ => Onto allocator names rest room dictionary fun _ => True)
      fun _ => Onto allocator names rest room dictionary fun _ => True := by
  have lessened := beside.less (Nat.le_succ room)
  have hashes : ∀ node ∈ Bucket.entries dictionary.table.buckets,
      (node.rename names).hash = node.hash := fun _ _ => rfl
  have capacity : (dictionary.rename names).rebuiltCapacity = dictionary.rebuiltCapacity := by
    simp only [rebuiltCapacity, capacity_rename]
    rfl
  rw [rebuild]
  refine .step (by rfl) (by rfl) ?_
  rw [capacity]
  refine .ofFault (fun _ => lessened.onto trivial) fun capacity _ => ?_
  refine Method.lockstep_process (BucketArray.rehashed_tandem bySize dictionary.table
    dictionary.manager .dictionary hashes capacity beside.twins) ?_ ?_
  · intro _ p q twins
    have beside : Beside allocator names rest room (dictionary, p) (dictionary.rename names, q) :=
      { lessened with twins }
    exact beside.onto trivial
  rintro table _ p q ⟨less, later, keeps, rfl, twins⟩
  refine .step (by rfl) (by rfl) (.step (by rfl) (by rfl) ?_)
  have whole : dictionary.holdings + rest = dictionary.table.extent dictionary.manager ::ₘ
      ((dictionary.nodes : Multiset (Node K V)).map
        (fun node => dictionary.nodeExtent node.block) + rest) := by
    rw [holdings_nodes, Multiset.cons_add]
  have block : names.block dictionary.table.block = later.block dictionary.table.block :=
    (keeps.block (dictionary.table.extent dictionary.manager)
      (whole ▸ Multiset.mem_cons_self _ _)).symm
  have own := keeps.mono (Multiset.le_add_right dictionary.holdings rest)
  have both : Twins allocator later (dictionary.table.extent dictionary.manager ::ₘ
      (table.extent dictionary.manager ::ₘ
        ((dictionary.nodes : Multiset (Node K V)).map
          (fun node => dictionary.nodeExtent node.block) + rest))) room p q := by
    rw [Multiset.cons_swap, ← whole]
    exact twins
  show Method.Tandem bound (liftM (dictionary.manager.free dictionary.table.block))
    (liftM (dictionary.manager.free (names.block dictionary.table.block))) _ _ _ _
  rw [block]
  refine Method.lockstep_lift (Lockstep.mono (Manager.free_tandem (both.printed _ _)) ?_
    fun _ _ _ => False.elim)
  intro _ _ p q twins
  have renamed : table.rename later (Node.rename names) = table.rename later (Node.rename later) :=
    BucketArray.rename_congr rfl fun node member =>
      (node_congr own (Multiset.mem_coe.mp (Multiset.mem_of_le less member))).symm
  have after : Beside allocator later rest room (dictionary.rebuilt table, p)
      ((dictionary.rename names).rebuilt (table.rename later (Node.rename names)), q) := by
    rw [renamed]
    refine ⟨rfl, trivial, twins.forget ?_⟩
    rw [← Multiset.cons_add]
    exact add_le_add_left (rebuilt_le less) rest
  exact after.moved (keeps.mono (Multiset.le_add_left rest _)) trivial

theorem storeAt_tandem (index : Nat) (hash : UInt64) (key : K) (value : V)
    (beside : Beside allocator names rest (room + 1) (dictionary, p) (dictionary.rename names, q)) :
    Method.Tandem bound (storeAt index hash key value) (storeAt index hash key value)
      (dictionary, p) (dictionary.rename names, q)
      (fun _ _ => Onto allocator names rest room dictionary fun _ => True)
      fun _ => Onto allocator names rest room dictionary fun _ => True := by
  have lessened := beside.less (Nat.le_succ room)
  have returned {p q : Process} (twins : Twins allocator names (dictionary.holdings + rest) room p q) :
      Onto allocator names rest room dictionary (fun _ => True) (dictionary, p)
        (dictionary.rename names, q) := by
    have beside : Beside allocator names rest room (dictionary, p) (dictionary.rename names, q) :=
      { lessened with twins }
    exact beside.onto trivial
  rw [storeAt]
  refine .step (by rfl) (by rfl) ?_
  refine Method.lockstep_process (Manager.allocateArray_tandem bySize dictionary.manager
    dictionary.node 1 beside.twins) (fun _ _ _ => returned) ?_
  rintro a b p q ⟨keeps, twins⟩
  have failed := returned ((twins.forget (Multiset.le_cons_self _ _)).congr keeps.symm)
  have reused : ((dictionary.rename names).table.buckets[index]?).map Bucket.isDeleted =
      (dictionary.table.buckets[index]?).map Bucket.isDeleted := by
    simp only [rename, BucketArray.rename, Array.getElem?_map, Option.map_map]
    congr 1
    funext bucket
    exact Bucket.isDeleted_map _ bucket
  have stored (count deleted : Nat) :
      Onto allocator names rest room dictionary (fun _ => True)
        (dictionary.withBucket index (.occupied { block := a, hash, key, value }) count deleted, p)
        ((dictionary.rename names).withBucket index
          (.occupied { block := b, hash, key, value }) count deleted, q) :=
    (beside_inserted keeps twins).moved (keeps.mono (Multiset.le_add_left rest _)) trivial
  dsimp only
  rw [reused]
  split
  · refine .ofFault (fun _ => failed) fun deleted _ => ?_
    refine .ofFault (fun _ => failed) fun count _ => ?_
    exact .last (by rfl) (by rfl) (stored count deleted)
  · refine .step (by rfl) (by rfl) ?_
    refine .ofFault (fun _ => failed) fun count _ => ?_
    exact .last (by rfl) (by rfl) (stored count dictionary.deleted)

theorem storeRebuilt_tandem (hash : UInt64) (key : K) (value : V)
    (beside : Beside allocator names rest (room + 2) (dictionary, p) (dictionary.rename names, q)) :
    Method.Tandem bound (storeRebuilt hash key value) (storeRebuilt hash key value)
      (dictionary, p) (dictionary.rename names, q)
      (fun _ _ => Onto allocator names rest room dictionary fun _ => True)
      fun _ => Onto allocator names rest room dictionary fun _ => True := by
  have beside : Beside allocator names rest (room + 1 + 1) (dictionary, p)
      (dictionary.rename names, q) := beside
  rw [storeRebuilt]
  refine (rebuild_tandem bySize beside).bind
    (fun _ _ _ onto => onto.mono (Nat.le_succ room) fun _ => id) ?_
  rintro _ _ ⟨fresh, p⟩ ⟨_, q⟩ ⟨grows, number, later, keeps, beside, -⟩
  obtain rfl := beside.same
  have lessened := beside.less (Nat.le_succ room)
  have back {s t : Dictionary K V × Process}
      (onto : Onto allocator later rest room fresh (fun _ => True) s t) :
      Onto allocator names rest room dictionary (fun _ => True) s t :=
    onto.after grows number keeps fun _ => id
  refine .step (by rfl) (by rfl) ?_
  have found : firstEmpty (fresh.rename later).table.buckets hash =
      firstEmpty fresh.table.buckets hash := firstEmpty_map _ _ hash
  show Method.Tandem bound (liftM (firstEmpty fresh.table.buckets hash) >>= _)
    (liftM (firstEmpty (fresh.rename later).table.buckets hash) >>= _) _ _ _ _
  rw [found]
  refine .ofFault (fun _ => back (lessened.onto trivial)) fun found _ => ?_
  cases found with
  | none => exact Action.lockstep_stop (back (lessened.onto trivial))
  | some index =>
      exact (storeAt_tandem bySize index hash key value beside).mono (fun _ _ _ _ => back)
        fun _ _ _ => back

theorem set_tandem (key : K) (value : V)
    (beside : Beside allocator names rest (room + 2) (dictionary, p) (dictionary.rename names, q)) :
    Method.Tandem bound (set key value) (set key value) (dictionary, p) (dictionary.rename names, q)
      (fun a b s t => b = a ∧ Onto allocator names rest room dictionary (fun _ => True) s t)
      fun _ => Onto allocator names rest room dictionary fun _ => True := by
  have lessened := beside.less (Nat.le_add_right room 2)
  rw [set]
  refine .step (by rfl) (by rfl) ?_
  rw [searchFor_rename]
  refine .ofMapped (fun _ => lessened.onto trivial) fun outcome _ => ?_
  dsimp only [Search.map]
  have rebuilt := storeRebuilt_tandem bySize (dictionary.rule.hash key) key value beside
  cases outcome.finding with
  | found index =>
      refine (replaceAt_tandem index value lessened).bind (fun _ _ _ => id) ?_
      exact fun _ _ _ _ ends => .last (by rfl) (by rfl) ⟨congrArg some ends.1, ends.2⟩
  | vacant index =>
      refine .ofFault (fun _ => lessened.onto trivial) fun occupied _ => ?_
      refine .ofFault (fun _ => lessened.onto trivial) fun used _ => ?_
      rw [capacity_rename]
      split
      · exact rebuilt.bind (fun _ _ _ => id) fun _ _ _ _ onto => .last (by rfl) (by rfl) ⟨rfl, onto⟩
      · have stored := storeAt_tandem bySize index (dictionary.rule.hash key) key value
          (beside.less (Nat.le_succ (room + 1)))
        exact stored.bind (fun _ _ _ => id) fun _ _ _ _ onto => .last (by rfl) (by rfl) ⟨rfl, onto⟩
  | exhausted =>
      exact rebuilt.bind (fun _ _ _ => id) fun _ _ _ _ onto => .last (by rfl) (by rfl) ⟨rfl, onto⟩

theorem create_tandem (manager : Manager) (requested : Nat) (rule : KeyRule K) (node : Layout)
    (twins : Twins allocator names extents (room + 1) p q) :
    Process.Tandem bound
      (create manager requested rule node : Action Process (Dictionary K V))
      (create manager requested rule node) p q
      (fun dictionary other p q => names.Onward extents fun later =>
        Beside allocator later extents room (dictionary, p) (other, q))
      fun _ => Twins allocator names extents room := by
  have lessened := twins.less (Nat.le_succ room)
  rw [create]
  refine .require lessened fun _ => .ofFault (fun _ => lessened) fun capacity _ => ?_
  refine (BucketArray.create_tandem bySize manager capacity twins).bind (fun _ _ _ => id) ?_
  rintro table _ p q ⟨empty, later, keeps, renamed, twins⟩
  obtain rfl := renamed (Node.rename later)
  refine (twins.retain manager).bind (fun _ _ _ => False.elim) ?_
  rintro _ _ p q ⟨-, twins⟩
  have none : nodes { manager, table, rule, node : Dictionary K V } = [] := by
    rw [nodes, empty, entries_replicate]
  refine ⟨later, keeps, rfl, trivial, ?_⟩
  rw [holdings_nodes, none, Multiset.coe_nil, Multiset.map_zero, Multiset.cons_add, zero_add]
  exact twins

end Operations

end Dictionary

end SymbolStore
