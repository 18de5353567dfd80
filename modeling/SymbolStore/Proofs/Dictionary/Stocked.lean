import SymbolStore.Proofs.Bucket.Stocked
import SymbolStore.Proofs.Dictionary.Operations

/-!
Dictionaries and the accounts of their blocks. Whatever a dictionary does, its buckets and its nodes
are exactly the blocks that it has, by whichever rule it compares keys.
-/

namespace SymbolStore

open SymbolStore.Action (Ends)

namespace Dictionary

variable {K V : Type}

def nodeExtent (dictionary : Dictionary K V) (block : Nat) : Extent :=
  { manager := dictionary.manager, address := block, size := dictionary.node.size }

def holdings (dictionary : Dictionary K V) : Multiset Extent :=
  dictionary.table.extent dictionary.manager ::ₘ
    (dictionary.blocks : Multiset Nat).map dictionary.nodeExtent

/-- The dictionary is in order as far as its blocks go, and has them. -/
structure Stocked (dictionary : Dictionary K V) (process : Process) (account : Account) :
    Prop where
  size : TableSize dictionary.capacity
  least : minBuckets ≤ dictionary.capacity
  count : dictionary.count = dictionary.nodes.length
  deleted : dictionary.deleted = Bucket.deletedCount dictionary.table.buckets
  houses : process.Houses dictionary.holdings account

structure Same (dictionary after : Dictionary K V) : Prop where
  manager : after.manager = dictionary.manager
  rule : after.rule = dictionary.rule
  node : after.node = dictionary.node

structure Keeps (dictionary : Dictionary K V) (account : Account)
    (after : Dictionary K V × Process) : Prop where
  same : dictionary.Same after.1
  stocked : after.1.Stocked after.2 account

/-- A failure that is nobody's misuse and leaves the dictionary with its blocks. -/
def Spares (dictionary : Dictionary K V) (account : Account) (failure : Failure)
    (after : Dictionary K V × Process) : Prop :=
  failure.isMisuse = false ∧ dictionary.Keeps account after

variable {dictionary middle : Dictionary K V} {process : Process} {account : Account} {index : Nat}
  {node : Node K V} {key : K}

theorem Same.refl (dictionary : Dictionary K V) : dictionary.Same dictionary := ⟨rfl, rfl, rfl⟩

theorem Same.trans {last : Dictionary K V} (first : dictionary.Same middle)
    (second : middle.Same last) : dictionary.Same last where
  manager := second.manager.trans first.manager
  rule := second.rule.trans first.rule
  node := second.node.trans first.node

theorem Keeps.trans {last : Dictionary K V × Process} (first : dictionary.Same middle)
    (second : middle.Keeps account last) : dictionary.Keeps account last :=
  ⟨first.trans second.same, second.stocked⟩

theorem Spares.trans {last : Dictionary K V × Process} {failure : Failure}
    (first : dictionary.Same middle) (second : middle.Spares account failure last) :
    dictionary.Spares account failure last :=
  ⟨second.1, second.2.trans first⟩

theorem Stocked.keeps (stocked : dictionary.Stocked process account) :
    dictionary.Keeps account (dictionary, process) := ⟨.refl dictionary, stocked⟩

theorem Stocked.capacity_lt (stocked : dictionary.Stocked process account) :
    16 * dictionary.capacity < wordLimit :=
  BucketArray.capacity_lt_of_houses stocked.houses

theorem Stocked.count_le (stocked : dictionary.Stocked process account) :
    dictionary.count ≤ dictionary.capacity := by
  rw [stocked.count]
  exact Bucket.length_entries_le _

theorem Stocked.withBucket {old new : Bucket (Node K V)} {count deleted : Nat} {after : Process}
    (stocked : dictionary.Stocked process account)
    (present : dictionary.table.buckets[index]? = some old)
    (counted : count + old.entry?.toList.length = dictionary.count + new.entry?.toList.length)
    (marked : deleted + old.isDeleted.toNat = dictionary.deleted + new.isDeleted.toNat)
    (houses : after.Houses (dictionary.withBucket index new count deleted).holdings account) :
    dictionary.Keeps account (dictionary.withBucket index new count deleted, after) where
  same := ⟨rfl, rfl, rfl⟩
  stocked := by
    have counts := counts_withBucket present stocked.count stocked.deleted counted marked
    refine ⟨?_, ?_, counts.1, counts.2, houses⟩
    · rw [capacity_withBucket]
      exact stocked.size
    · rw [capacity_withBucket]
      exact stocked.least

theorem holdings_inserted {old : Bucket (Node K V)}
    (present : dictionary.table.buckets[index]? = some old) (vacant : old.entry? = none)
    (count deleted : Nat) :
    (dictionary.withBucket index (.occupied node) count deleted).holdings =
      dictionary.nodeExtent node.block ::ₘ dictionary.holdings := by
  have entered : (dictionary.withBucket index (.occupied node) count deleted).nodes.Perm
      (node :: dictionary.nodes) := nodes_inserted present vacant count
  have perm := entered.map Node.block
  have blocks : ((dictionary.withBucket index (.occupied node) count deleted).blocks :
      Multiset Nat) = node.block ::ₘ (dictionary.blocks : Multiset Nat) :=
    Multiset.coe_eq_coe.mpr perm
  rw [holdings, blocks, Multiset.map_cons, Multiset.cons_swap, holdings, withBucket_table,
    BucketArray.extent_put]
  rfl

theorem holdings_struck (stored : dictionary.table.buckets[index]? = some (.occupied node))
    (count deleted : Nat) :
    dictionary.holdings = dictionary.nodeExtent node.block ::ₘ
      (dictionary.withBucket index .deleted count deleted).holdings := by
  obtain ⟨front, back, before, after⟩ := nodes_withBucket stored
  have whole : dictionary.blocks =
      (front ++ [node] ++ back).map Node.block := congrArg (List.map Node.block) before
  have left : (dictionary.withBucket index .deleted count deleted).blocks =
      (front ++ [] ++ back).map Node.block := congrArg (List.map Node.block) (after _ _ _)
  have blocks : (dictionary.blocks : Multiset Nat) = node.block ::ₘ
      ((dictionary.withBucket index .deleted count deleted).blocks : Multiset Nat) := by
    rw [whole, left]
    apply Multiset.coe_eq_coe.mpr
    simp
  rw [holdings, blocks, Multiset.map_cons, Multiset.cons_swap, holdings, withBucket_table,
    BucketArray.extent_put]
  rfl

theorem holdings_replaced {new : Node K V}
    (stored : dictionary.table.buckets[index]? = some (.occupied node))
    (same : new.block = node.block) (count deleted : Nat) :
    (dictionary.withBucket index (.occupied new) count deleted).holdings = dictionary.holdings := by
  obtain ⟨front, back, before, after⟩ := nodes_withBucket stored
  have whole : dictionary.blocks =
      (front ++ [node] ++ back).map Node.block := congrArg (List.map Node.block) before
  have left : (dictionary.withBucket index (.occupied new) count deleted).blocks =
      (front ++ [new] ++ back).map Node.block := congrArg (List.map Node.block) (after _ _ _)
  have blocks : ((dictionary.withBucket index (.occupied new) count deleted).blocks :
      Multiset Nat) = dictionary.blocks := by
    rw [whole, left]
    apply Multiset.coe_eq_coe.mpr
    simp [same]
  rw [holdings, blocks, holdings, withBucket_table, BucketArray.extent_put]
  rfl

theorem storeAt_keeps {old : Bucket (Node K V)} (hash : UInt64) (key : K) (value : V)
    (stocked : dictionary.Stocked process account) (holder : dictionary.manager ∈ account.holders)
    (present : dictionary.table.buckets[index]? = some old) (vacant : old.entry? = none) :
    Ends (storeAt index hash key value) (dictionary, process)
      (fun _ after => dictionary.Keeps account after) (dictionary.Spares account) := by
  have small := stocked.capacity_lt
  have most := stocked.count_le
  have least := stocked.least
  unfold minBuckets at least
  have countFits : dictionary.count + 1 < wordLimit := by omega
  have marked : old.isDeleted.toNat ≤ dictionary.deleted := by
    obtain ⟨_, _, marks, -, marked, -⟩ := Bucket.set_split present
    rw [stocked.deleted]
    omega
  rw [ends_storeAt present marked countFits]
  apply (stocked.houses.allocateArray holder dictionary.node 1).mono
  · intro block after houses
    rw [Nat.mul_one] at houses
    refine stocked.withBucket present ?_ (Nat.sub_add_cancel marked) ?_
    · rw [vacant]
      rfl
    · rw [holdings_inserted present vacant]
      exact houses
  · intro failure after spares
    exact ⟨spares.1, .refl dictionary, { stocked with houses := spares.2 }⟩

theorem rebuild_keeps (stocked : dictionary.Stocked process account)
    (holder : dictionary.manager ∈ account.holders) :
    Ends rebuild (dictionary, process) (fun _ after => dictionary.Keeps account after)
      (dictionary.Spares account) := by
  have quiet : Level.debug ≠ .warn := by decide
  have enough := dictionary.capacity_le_nextCapacity
  have least := Nat.le_trans stocked.least enough
  obtain ⟨computed, size⟩ := rebuiltCapacity_eq stocked.size stocked.least stocked.capacity_lt
    stocked.count_le
  apply rebuild_rehashes computed
  apply (BucketArray.rehashed_houses dictionary.table .dictionary Node.hash size enough
    stocked.houses holder).mono
  · intro fresh after ends text
    obtain ⟨replaces, houses⟩ := ends
    rw [holdings, Multiset.cons_swap] at houses
    refine (houses.logged quiet _ _).free.mono ?_ fun _ _ none => none.elim
    intro _ final left
    have blocks : ((dictionary.rebuilt fresh).blocks : Multiset Nat) = dictionary.blocks :=
      Multiset.coe_eq_coe.mpr (replaces.entries.map Node.block)
    refine ⟨⟨rfl, rfl, rfl⟩, ⟨?_, ?_, ?_, ?_, ?_⟩⟩
    · exact (congrArg TableSize replaces.capacity).mpr size
    · exact (congrArg (minBuckets ≤ ·) replaces.capacity).mpr least
    · exact stocked.count.trans replaces.entries.length_eq.symm
    · exact replaces.undeleted.symm
    · show final.Houses (_ ::ₘ ((dictionary.rebuilt fresh).blocks : Multiset Nat).map _) account
      rw [blocks]
      exact left
  · intro failure after spares
    exact ⟨spares.1, .refl dictionary, { stocked with houses := spares.2 }⟩

theorem storeRebuilt_keeps (hash : UInt64) (key : K) (value : V)
    (stocked : dictionary.Stocked process account)
    (holder : dictionary.manager ∈ account.holders) :
    Ends (storeRebuilt hash key value) (dictionary, process)
      (fun _ after => dictionary.Keeps account after) (dictionary.Spares account) := by
  apply (rebuild_keeps stocked holder).bind (fun _ _ spares => spares)
  intro _ last rebuilt
  obtain ⟨fresh, after⟩ := last
  have searched := firstEmpty_eq_find hash rebuilt.stocked.size
  rw [← rebuilt.same.manager] at holder
  simp only [Action.ends_bind, Method.ends_self, Action.ends_liftFault]
  rw [searched]
  cases found : (Chain.order hash fresh.table.buckets.size).find?
      (Bucket.emptyAt fresh.table.buckets) with
  | none => exact ⟨rfl, rebuilt⟩
  | some index =>
      have empty := Bucket.emptyAt_iff.mp (List.find?_some found)
      exact (storeAt_keeps hash key value rebuilt.stocked holder empty rfl).mono
        (fun _ _ keeps => keeps.trans rebuilt.same) fun _ _ spares => spares.trans rebuilt.same

theorem replaceAt_keeps (value : V) (stocked : dictionary.Stocked process account)
    (stored : dictionary.table.buckets[index]? = some (.occupied node)) :
    Ends (replaceAt index value) (dictionary, process)
      (fun _ after => dictionary.Keeps account after) fun _ _ => False := by
  rw [ends_replaceAt stored]
  have same : (dictionary.withBucket index (.occupied { node with value }) dictionary.count
      dictionary.deleted).holdings = dictionary.holdings := by
    apply holdings_replaced stored
    rfl
  refine stocked.withBucket stored rfl rfl ?_
  rw [same]
  exact stocked.houses

theorem set_keeps (key : K) (value : V) (stocked : dictionary.Stocked process account)
    (holder : dictionary.manager ∈ account.holders) :
    Ends (set key value) (dictionary, process)
      (fun _ after => dictionary.Keeps account after) (dictionary.Spares account) := by
  obtain ⟨⟨finding, tested⟩, searched⟩ := search_total (dictionary.rule.hash key)
    (fun node => node.hash == dictionary.rule.hash key && dictionary.rule.same node.key key)
    stocked.size
  simp only [set, searchFor, Action.ends_bind, Method.ends_self, Action.ends_liftFault, searched]
  cases finding with
  | found index =>
      obtain ⟨node, stored, -⟩ := search_found stocked.size searched rfl
      simp only [Action.ends_bind, Action.ends_pure]
      exact (replaceAt_keeps value stocked stored).mono (fun _ _ keeps => keeps)
        fun _ _ none => none.elim
  | vacant index =>
      obtain ⟨old, present, vacant⟩ : ∃ old : Bucket (Node K V),
          dictionary.table.buckets[index]? = some old ∧ old.entry? = none := by
        rcases (search_vacant stocked.size searched rfl).1 with empty | deleted
        · exact ⟨_, empty, rfl⟩
        · exact ⟨_, deleted, rfl⟩
      simp only [Action.ends_bind, Action.ends_liftFault]
      cases counted : Word.add dictionary.count dictionary.deleted with
      | error cause => exact ⟨Word.isMisuse_add counted, stocked.keeps⟩
      | ok occupied =>
          dsimp only
          cases added : Word.add occupied 1 with
          | error cause => exact ⟨Word.isMisuse_add added, stocked.keeps⟩
          | ok used =>
              dsimp only
              split
              · simp only [Action.ends_bind, Action.ends_pure]
                exact storeRebuilt_keeps _ key value stocked holder
              · simp only [Action.ends_bind, Action.ends_pure]
                exact storeAt_keeps _ key value stocked holder present vacant
  | exhausted =>
      simp only [Action.ends_bind, Action.ends_pure]
      exact storeRebuilt_keeps _ key value stocked holder

theorem Stocked.find_cases (stocked : dictionary.Stocked process account) (key : K) :
    ∃ found, dictionary.find key = .ok found ∧ ∀ entry ∈ found,
      dictionary.table.buckets[entry.1]? = some (.occupied entry.2) := by
  obtain ⟨outcome, searched⟩ := search_total (dictionary.rule.hash key)
    (fun node => node.hash == dictionary.rule.hash key && dictionary.rule.same node.key key)
    stocked.size
  simp only [find, searchFor, searched, bind, Except.bind]
  split
  · rename_i index _
    refine ⟨_, rfl, ?_⟩
    intro entry member
    obtain ⟨node, there, rfl⟩ := Option.map_eq_some_iff.mp member
    obtain ⟨bucket, present, holds⟩ := Option.bind_eq_some_iff.mp there
    cases bucket <;> cases holds
    exact present
  · exact ⟨none, rfl, by simp⟩

theorem modify_keeps (key : K) (f : V → V) (stocked : dictionary.Stocked process account) :
    Ends (modify key f) (dictionary, process) (fun _ after => dictionary.Keeps account after)
      fun _ _ => False := by
  obtain ⟨found, searched, stored⟩ := stocked.find_cases key
  simp only [modify, Action.ends_bind, Method.ends_self, Action.ends_liftFault, searched]
  cases found with
  | none => exact stocked.keeps
  | some entry =>
      simp only [Action.ends_bind, Action.ends_pure]
      exact replaceAt_keeps (f entry.2.value) stocked (stored entry rfl)

theorem holdings_emptied (stored : dictionary.table.buckets[index]? = some (.occupied node))
    (last : dictionary.nodes.length = 1) :
    dictionary.holdings = dictionary.nodeExtent node.block ::ₘ dictionary.emptied.holdings := by
  have blocks : dictionary.blocks = [node.block] := by
    obtain ⟨only, single⟩ := List.length_eq_one_iff.mp last
    have member := mem_nodes.mpr ⟨index, stored⟩
    rw [single, List.mem_singleton] at member
    rw [member]
    exact congrArg (List.map Node.block) single
  have none : dictionary.emptied.blocks = [] := congrArg (List.map Node.block) nodes_emptied
  rw [holdings, blocks, holdings, none, emptied_table, BucketArray.extent_clear]
  exact Multiset.cons_swap (dictionary.table.extent dictionary.manager)
    (dictionary.nodeExtent node.block) 0

theorem Stocked.emptied {after : Process} (stocked : dictionary.Stocked process account)
    (houses : after.Houses dictionary.emptied.holdings account) :
    dictionary.Keeps account (dictionary.emptied, after) where
  same := ⟨rfl, rfl, rfl⟩
  stocked :=
    { size := by
        rw [capacity_emptied]
        exact stocked.size
      least := by
        rw [capacity_emptied]
        exact stocked.least
      count := by
        rw [nodes_emptied]
        rfl
      deleted := deletedCount_replicate _ |>.symm
      houses := houses }

theorem remove_keeps (key : K) (stocked : dictionary.Stocked process account) :
    Ends (remove key) (dictionary, process) (fun _ after => dictionary.Keeps account after)
      (dictionary.Spares account) := by
  obtain ⟨found, searched, stored⟩ := stocked.find_cases key
  simp only [remove, Action.ends_bind, Method.ends_self, Action.ends_liftFault, searched]
  cases found with
  | none => exact stocked.keeps
  | some entry =>
      obtain ⟨index, node⟩ := entry
      have stored : dictionary.table.buckets[index]? = some (.occupied node) := stored _ rfl
      simp only [Action.ends_bind, Action.ends_liftFault]
      cases counted : Word.subtract dictionary.count 1 with
      | error cause => exact ⟨Word.isMisuse_subtract counted, stocked.keeps⟩
      | ok count =>
          dsimp only
          cases marked : Word.add dictionary.deleted 1 with
          | error cause => exact ⟨Word.isMisuse_add marked, stocked.keeps⟩
          | ok deleted =>
              have positive : 1 ≤ dictionary.count ∧ count = dictionary.count - 1 := by
                unfold Word.subtract at counted
                split at counted <;> cases counted
                exact ⟨‹_›, rfl⟩
              have next : deleted = dictionary.deleted + 1 := by
                unfold Word.add at marked
                split at marked <;> cases marked
                rfl
              dsimp only
              split
              · rename_i last
                have one : dictionary.nodes.length = 1 := by
                  rw [← stocked.count]
                  omega
                have houses := stocked.houses
                rw [holdings_emptied stored one] at houses
                simp only [Action.ends_bind, Method.ends_update, Method.ends_liftProcess,
                  Action.ends_pure]
                rw [last]
                exact houses.free.mono (fun _ _ left => stocked.emptied left)
                  fun _ _ none => none.elim
              · have houses := stocked.houses
                rw [holdings_struck stored count deleted] at houses
                simp only [Action.ends_bind, Method.ends_update, Method.ends_liftProcess,
                  Action.ends_pure]
                apply houses.free.mono ?_ fun _ _ none => none.elim
                intro _ final left
                refine stocked.withBucket stored ?_ ?_ left
                · show count + 1 = dictionary.count + 0
                  omega
                · exact next

theorem delete_keeps (key : K) (stocked : dictionary.Stocked process account) :
    Ends (delete key) (dictionary, process) (fun _ after => dictionary.Keeps account after)
      (dictionary.Spares account) := by
  rw [delete, Action.ends_map]
  exact remove_keeps key stocked

theorem freeNodes_houses {extents : Multiset Extent}
    (houses : process.Houses
      ((dictionary.blocks : Multiset Nat).map dictionary.nodeExtent + extents) account) :
    Ends (dictionary.blocks.forM dictionary.manager.free) process
      (fun _ after => after.Houses extents account) fun _ _ => False :=
  houses.freeAll dictionary.blocks fun _ _ => ⟨rfl, rfl⟩

theorem holdings_eq : dictionary.holdings = (dictionary.blocks : Multiset Nat).map
    dictionary.nodeExtent + {dictionary.table.extent dictionary.manager} := by
  rw [holdings, ← Multiset.singleton_add, add_comm]

theorem clear_keeps (stocked : dictionary.Stocked process account) :
    Ends clear (dictionary, process) (fun _ after => dictionary.Keeps account after)
      fun _ _ => False := by
  have houses := stocked.houses
  have none : dictionary.emptied.blocks = [] := congrArg (List.map Node.block) nodes_emptied
  have empty : dictionary.emptied.holdings = {dictionary.table.extent dictionary.manager} := by
    rw [holdings, none, emptied_table, BucketArray.extent_clear]
    rfl
  rw [holdings_eq] at houses
  simp only [clear, Action.ends_bind, Method.ends_self, Method.ends_ofProcess]
  apply (freeNodes_houses houses).mono ?_ fun _ _ none => none
  intro _ after left
  rw [← empty] at left
  exact stocked.emptied left

theorem create_keeps {manager : Manager} (requested : Nat) (rule : KeyRule K) (node : Layout)
    (houses : process.Houses 0 account) (holder : manager ∈ account.holders) :
    Ends (create manager requested rule node : Action Process (Dictionary K V)) process
      (fun dictionary after => dictionary.manager = manager ∧
        dictionary.Stocked after (account.joined manager))
      (Process.Spares 0 account) := by
  rw [create, Action.ends_bind, Action.ends_require]
  split
  · rw [Action.ends_bind, Action.ends_liftFault]
    cases counted : bucketCount requested with
    | error cause => exact ⟨isMisuse_bucketCount counted, houses⟩
    | ok capacity =>
        obtain ⟨size, least⟩ := tableSize_bucketCount counted
        apply (BucketArray.create_houses capacity houses holder).bind (fun _ _ spares => spares)
        intro table granted ends
        obtain ⟨empty, housed⟩ := ends
        have whole := BucketArray.capacity_of_replicate empty
        have unused : Bucket.entries table.buckets = [] := by rw [empty, entries_replicate]
        have undeleted : Bucket.deletedCount table.buckets = 0 := by
          rw [empty, deletedCount_replicate]
        apply (housed.retain holder).bind (fun _ _ none => none.elim)
        intro _ last retained
        refine ⟨rfl, (congrArg TableSize whole).mpr size,
          (congrArg (minBuckets ≤ ·) whole).mpr least, ?_, undeleted.symm, ?_⟩
        · show 0 = (Bucket.entries table.buckets).length
          rw [unused]
          rfl
        · rw [holdings, blocks, unused]
          exact retained
  · exact ⟨rfl, houses⟩

theorem discard_houses
    (houses : process.Houses dictionary.holdings (account.joined dictionary.manager)) :
    Ends dictionary.discard process
      (fun _ after => after.Houses 0 (account.parted dictionary.manager)) fun _ _ => False := by
  rw [holdings_eq] at houses
  apply (freeNodes_houses houses).bind (fun _ _ none => none)
  intro _ after left
  rw [← Multiset.cons_zero] at left
  exact left.free.bind (fun _ _ none => none) fun _ _ final => final.release

end Dictionary

end SymbolStore
