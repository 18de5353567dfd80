import SymbolStore.Proofs.Bucket.Storage
import SymbolStore.Proofs.Dictionary.Valid

/-!
The operations of a dictionary in a sound process. Each keeps the dictionary valid and in possession
of its blocks, and does to its entries what it says. Only a shortage of memory makes one fail.
-/

namespace SymbolStore

open SymbolStore.Action (Ends)

namespace Dictionary

variable {K V : Type}

/-- The blocks of a dictionary are live, and no two are one. -/
structure Owns (dictionary : Dictionary K V) (process : Process) : Prop where
  table : dictionary.manager.Holds process dictionary.table.block
    (BucketArray.bucketLayout.size * dictionary.capacity)
  nodes : ∀ block ∈ dictionary.blocks,
    dictionary.manager.Holds process block dictionary.node.size
  apart : (dictionary.table.block :: dictionary.blocks).Nodup

structure SoundIn (dictionary : Dictionary K V) (process : Process) : Prop where
  memory : process.Sound
  valid : dictionary.Valid
  owns : dictionary.Owns process
  consistent : dictionary.rule.Consistent
  align : isPowerOfTwo dictionary.node.align = true

/-- The same dictionary later on, in order and with the given entries. -/
structure Continues (dictionary : Dictionary K V) (content : List (K × V))
    (after : Dictionary K V × Process) : Prop where
  sound : after.1.SoundIn after.2
  rule : after.1.rule = dictionary.rule
  manager : after.1.manager = dictionary.manager
  content : after.1.toList.Perm content

variable {dictionary : Dictionary K V} {process : Process} {index : Nat} {node : Node K V}
  {key : K}

theorem SoundIn.continues (sound : dictionary.SoundIn process) :
    dictionary.Continues dictionary.toList (dictionary, process) :=
  ⟨sound, rfl, rfl, .refl _⟩

theorem SoundIn.capacity_lt (sound : dictionary.SoundIn process) :
    16 * dictionary.capacity < wordLimit :=
  BucketArray.capacity_lt sound.memory sound.owns.table

theorem Owns.evolves {after : Process} {freed : List Nat} (owns : dictionary.Owns process)
    (evolves : process.Evolves after freed)
    (kept : ∀ block ∈ dictionary.table.block :: dictionary.blocks, block ∉ freed) :
    dictionary.Owns after where
  table := evolves.held _ _ _ (kept _ List.mem_cons_self) owns.table
  nodes block member :=
    evolves.held _ _ _ (kept _ (List.mem_cons_of_mem _ member)) (owns.nodes block member)
  apart := owns.apart

theorem SoundIn.evolves {after : Process} (sound : dictionary.SoundIn process)
    (evolves : process.Evolves after []) : dictionary.SoundIn after where
  memory := evolves.sound
  valid := sound.valid
  owns := sound.owns.evolves evolves fun _ _ => List.not_mem_nil
  consistent := sound.consistent
  align := sound.align

theorem Owns.fresh {address : Nat} (owns : dictionary.Owns process)
    (fresh : process.heap.find? address = none) :
    address ∉ dictionary.table.block :: dictionary.blocks := by
  intro member
  rcases List.mem_cons.mp member with same | member
  · exact owns.table.ne_of_fresh fresh same.symm
  · exact (owns.nodes address member).ne_of_fresh fresh rfl

theorem deleted_of_present {old : Bucket (Node K V)} (valid : dictionary.Valid)
    (present : dictionary.table.buckets[index]? = some old) :
    old.isDeleted.toNat ≤ dictionary.deleted := by
  obtain ⟨_, _, marks, -, marked, -⟩ := Bucket.set_split present
  rw [valid.deleted]
  omega

theorem SoundIn.inserted {old : Bucket (Node K V)} {after : Process} {block : Nat} (value : V)
    (sound : dictionary.SoundIn process)
    (granted : dictionary.manager.Grants process after
      { size := dictionary.node.size * 1, align := dictionary.node.align } block)
    (lacks : dictionary.Lacks key) (present : dictionary.table.buckets[index]? = some old)
    (vacant : old.entry? = none)
    (reached : Reached dictionary.table.buckets (dictionary.rule.hash key) index)
    (load : 4 * (dictionary.count + 1 + (dictionary.deleted - old.isDeleted.toNat)) ≤
      3 * dictionary.capacity) :
    dictionary.Continues (dictionary.toList ++ [(key, value)])
      (dictionary.withBucket index
        (.occupied { block, hash := dictionary.rule.hash key, key, value })
        (dictionary.count + 1) (dictionary.deleted - old.isDeleted.toNat), after) := by
  have marked := deleted_of_present sound.valid present
  have owns := sound.owns.evolves granted.evolves fun _ _ => List.not_mem_nil
  have nodes : (dictionary.withBucket index
      (.occupied { block, hash := dictionary.rule.hash key, key, value }) (dictionary.count + 1)
      (dictionary.deleted - old.isDeleted.toNat)).nodes.Perm
      ({ block, hash := dictionary.rule.hash key, key, value } :: dictionary.nodes) :=
    nodes_inserted present vacant _
  have blocks := nodes.map Node.block
  have holds := granted.holds
  rw [Nat.mul_one] at holds
  refine ⟨⟨granted.evolves.sound, ?_, ⟨?_, ?_, ?_⟩, sound.consistent, sound.align⟩, rfl, rfl, ?_⟩
  · exact valid_inserted present vacant sound.valid sound.consistent lacks reached
      (Nat.sub_add_cancel marked) load
  · rw [capacity_withBucket]
    exact owns.table
  · intro b member
    rcases List.mem_cons.mp (blocks.mem_iff.mp member) with rfl | member
    · exact holds
    · exact owns.nodes b member
  · apply ((blocks.cons _).nodup_iff).mpr
    refine (List.Perm.swap _ _ _).nodup_iff.mpr (List.nodup_cons.mpr ⟨?_, sound.owns.apart⟩)
    exact sound.owns.fresh granted.fresh
  · exact toList_inserted present vacant _ _

section Operation

variable {done : Unit → Dictionary K V × Process → Prop}
  {failed : Failure → Dictionary K V × Process → Prop}

theorem ends_storeAt {old : Bucket (Node K V)} {hash : UInt64} {value : V}
    (present : dictionary.table.buckets[index]? = some old)
    (marked : old.isDeleted.toNat ≤ dictionary.deleted) (fits : dictionary.count + 1 < wordLimit) :
    Ends (storeAt index hash key value) (dictionary, process) done failed ↔
      Ends (dictionary.manager.allocateArray dictionary.node 1) process
        (fun block after =>
          done () (dictionary.withBucket index (.occupied { block, hash, key, value })
            (dictionary.count + 1) (dictionary.deleted - old.isDeleted.toNat), after))
        fun failure after => failed failure (dictionary, after) := by
  simp only [storeAt, Action.ends_bind, Method.ends_self, Method.ends_liftProcess, present,
    Option.map_some, Option.getD_some]
  cases reused : old.isDeleted with
  | false =>
      simp only [Bool.false_eq_true, if_false, Action.ends_bind, Action.ends_pure,
        Action.ends_add, if_pos fits, Method.ends_update]
      rfl
  | true =>
      rw [reused, Bool.toNat_true] at marked
      simp only [if_true, Action.ends_bind, Action.ends_subtract, if_pos marked, Action.ends_add,
        if_pos fits, Method.ends_update]
      rfl

/-- The entries move to the new buckets before the old ones go, whatever is printed of it. -/
theorem rebuild_rehashes {capacity : Nat} (computed : dictionary.rebuiltCapacity = .ok capacity)
    (rehashes : Ends (dictionary.table.rehashed dictionary.manager .dictionary Node.hash capacity)
      process
      (fun fresh after => ∀ text, Ends (dictionary.manager.free dictionary.table.block)
        { after with journal := after.journal.log .debug Origin.dictionary.target text }
        (fun _ final => done () (dictionary.rebuilt fresh, final))
        fun failure final => failed failure (dictionary.rebuilt fresh, final))
      fun failure after => failed failure (dictionary, after)) :
    Ends rebuild (dictionary, process) done failed := by
  simp only [rebuild, Action.ends_bind, Method.ends_self, Action.ends_liftFault, computed,
    Method.ends_liftProcess, Process.ends_log, Method.ends_update]
  exact rehashes.mono (fun _ _ frees => frees _) fun _ _ denied => denied

end Operation

theorem storeAt_ends {old : Bucket (Node K V)} (value : V) (sound : dictionary.SoundIn process)
    (lacks : dictionary.Lacks key) (present : dictionary.table.buckets[index]? = some old)
    (vacant : old.entry? = none)
    (reached : Reached dictionary.table.buckets (dictionary.rule.hash key) index)
    (load : 4 * (dictionary.count + 1 + (dictionary.deleted - old.isDeleted.toNat)) ≤
      3 * dictionary.capacity) :
    Ends (storeAt index (dictionary.rule.hash key) key value) (dictionary, process)
      (fun _ after => dictionary.Continues (dictionary.toList ++ [(key, value)]) after)
      fun failure after => dictionary.manager.Denies after.2 failure ∧
        dictionary.Continues dictionary.toList after := by
  have capacity := sound.capacity_lt
  have marked := deleted_of_present sound.valid present
  have countFits : dictionary.count + 1 < wordLimit := by omega
  rw [ends_storeAt present marked countFits]
  apply (Manager.allocateArray_ends dictionary.node 1 sound.memory sound.align).mono
  · intro block after granted
    exact sound.inserted value granted lacks present vacant reached load
  · intro failure after ends
    rcases ends with ⟨evolves, denies⟩
    exact ⟨denies, (sound.evolves evolves).continues⟩

/-- How many buckets there are after a rebuild: twice as many, unless half of them hold the entries and
one more. -/
def nextCapacity (dictionary : Dictionary K V) : Nat :=
  if 2 * (dictionary.count + 1) ≤ dictionary.capacity then dictionary.capacity
  else 2 * dictionary.capacity

theorem rebuiltCapacity_eq (size : TableSize dictionary.capacity)
    (least : minBuckets ≤ dictionary.capacity) (small : 16 * dictionary.capacity < wordLimit)
    (most : dictionary.count ≤ dictionary.capacity) :
    dictionary.rebuiltCapacity = .ok dictionary.nextCapacity ∧ TableSize dictionary.nextCapacity := by
  have grown := grownCapacity_eq size least small
  unfold minBuckets at least
  have next : dictionary.count + 1 < wordLimit := by omega
  have twice : (dictionary.count + 1) * 2 < wordLimit := by omega
  have above : dictionary.capacity + 1 < wordLimit := by omega
  simp only [rebuiltCapacity, nextCapacity, Word.add, if_pos next, Word.multiply, bind, Except.bind,
    if_pos twice, if_pos above, pure, Except.pure]
  by_cases half : 2 * (dictionary.count + 1) ≤ dictionary.capacity
  · rw [if_neg (by omega), if_pos half]
    exact ⟨rfl, size⟩
  · rw [if_pos (by omega), if_neg half, grown.1]
    exact ⟨rfl, grown.2⟩

theorem capacity_le_nextCapacity (dictionary : Dictionary K V) :
    dictionary.capacity ≤ dictionary.nextCapacity := by
  unfold nextCapacity
  split <;> omega

/-- The rebuilt array has room for one more entry without half of it being used. -/
theorem SoundIn.rebuiltCapacity_eq (sound : dictionary.SoundIn process) :
    dictionary.rebuiltCapacity = .ok dictionary.nextCapacity ∧ TableSize dictionary.nextCapacity ∧
      2 * (dictionary.count + 1) ≤ dictionary.nextCapacity := by
  have load := sound.valid.load
  have least := sound.valid.least
  have next := Dictionary.rebuiltCapacity_eq sound.valid.size least sound.capacity_lt (by omega)
  unfold minBuckets at least
  refine ⟨next.1, next.2, ?_⟩
  unfold nextCapacity
  split <;> omega

theorem SoundIn.entries_le_nextCapacity (sound : dictionary.SoundIn process) :
    (Bucket.entries dictionary.table.buckets).length ≤ dictionary.nextCapacity := by
  have count : dictionary.count = (Bucket.entries dictionary.table.buckets).length :=
    sound.valid.count
  have room := sound.rebuiltCapacity_eq.2.2
  omega

theorem free_table_ends {fresh : BucketArray (Node K V)} {capacity : Nat} {after : Process}
    (sound : dictionary.SoundIn process)
    (granted : dictionary.manager.Grants process after (BucketArray.layout capacity) fresh.block)
    (replaces : fresh.Replaces dictionary.table Node.hash capacity) (size : TableSize capacity)
    (least : minBuckets ≤ capacity) (room : 2 * (dictionary.count + 1) ≤ capacity)
    (journal : Journal) :
    Ends (dictionary.manager.free dictionary.table.block) { after with journal }
      (fun _ final => dictionary.Continues dictionary.toList (dictionary.rebuilt fresh, final))
      fun _ _ => False := by
  have logged := granted.evolves.trans (Process.evolves_journal granted.evolves.sound journal)
  have owns := sound.owns.evolves logged fun _ _ => List.not_mem_nil
  have holds := (Process.evolves_journal granted.evolves.sound journal).held _ _ _
    List.not_mem_nil granted.holds
  have distinct := List.nodup_cons.mp owns.apart
  have blocks := replaces.entries.map Node.block
  have unknown := sound.owns.fresh granted.fresh
  apply (Manager.free_ends logged.sound owns.table).mono ?_ fun _ _ none => none
  intro _ final evolves
  refine ⟨⟨evolves.sound, ?_, ⟨?_, ?_, ?_⟩, sound.consistent, sound.align⟩, rfl, rfl, ?_⟩
  · refine valid_rebuilt sound.valid sound.consistent (replaces.capacity ▸ size)
      (replaces.capacity ▸ least) ?_ replaces.placed replaces.undeleted replaces.entries
    rw [replaces.capacity]
    omega
  · show dictionary.manager.Holds final fresh.block (_ * fresh.capacity)
    rw [replaces.capacity]
    apply evolves.held _ _ _ ?_ holds
    intro same
    exact unknown (List.mem_singleton.mp same ▸ List.mem_cons_self)
  · intro b member
    have member := blocks.mem_iff.mp member
    apply evolves.held _ _ _ ?_ (owns.nodes b member)
    intro same
    exact distinct.1 (List.mem_singleton.mp same ▸ member)
  · refine List.nodup_cons.mpr ⟨?_, blocks.nodup_iff.mpr distinct.2⟩
    intro member
    exact unknown (List.mem_cons_of_mem _ (blocks.mem_iff.mp member))
  · exact replaces.entries.map _

theorem rebuild_ends (sound : dictionary.SoundIn process) :
    Ends rebuild (dictionary, process)
      (fun _ after => dictionary.Continues dictionary.toList after ∧ after.1.deleted = 0 ∧
        after.1.nodes.Perm dictionary.nodes ∧ 2 * (dictionary.count + 1) ≤ after.1.capacity)
      fun failure after => dictionary.manager.Denies after.2 failure ∧
        dictionary.Continues dictionary.toList after := by
  obtain ⟨computed, size, room⟩ := sound.rebuiltCapacity_eq
  have least := Nat.le_trans sound.valid.least dictionary.capacity_le_nextCapacity
  have fits := sound.entries_le_nextCapacity
  apply rebuild_rehashes computed
  apply (dictionary.table.rehashed_ends .dictionary Node.hash sound.memory size fits).mono
  · intro fresh after ends text
    rcases ends with ⟨granted, replaces⟩
    refine (free_table_ends sound granted replaces size least room _).mono ?_
      fun _ _ none => none.elim
    intro _ final continues
    have enough : 2 * (dictionary.count + 1) ≤ fresh.capacity := by
      calc
        2 * (dictionary.count + 1) ≤ dictionary.nextCapacity := room
        _ = fresh.capacity := replaces.capacity.symm
    exact ⟨continues, rfl, replaces.entries, enough⟩
  · intro failure after ends
    rcases ends with ⟨evolves, denies⟩
    exact ⟨denies, (sound.evolves evolves).continues⟩

theorem Continues.lacks {after : Dictionary K V × Process} (lacks : dictionary.Lacks key)
    (continues : dictionary.Continues dictionary.toList after) : after.1.Lacks key := by
  have absent : lookup dictionary.rule after.1.toList key = none := by
    rw [lookup_eq_none]
    intro entry member
    exact lookup_eq_none.mp (lookup_of_lacks lacks) entry (continues.content.mem_iff.mp member)
  intro node member
  rw [continues.rule]
  exact List.forall_mem_map.mp (lookup_eq_none.mp absent) node member

theorem Continues.trans {after final : Dictionary K V × Process}
    {content others last : List (K × V)} (first : dictionary.Continues content after)
    (second : after.1.Continues others final) (perm : others.Perm last) :
    dictionary.Continues last final where
  sound := second.sound
  rule := second.rule.trans first.rule
  manager := second.manager.trans first.manager
  content := second.content.trans perm

/-- Rebuilt buckets have an empty one for every key. -/
theorem storeRebuilt_stores {hash : UInt64} {value : V}
    {done : Unit → Dictionary K V × Process → Prop}
    {failed : Failure → Dictionary K V × Process → Prop} (sound : dictionary.SoundIn process)
    (denied : ∀ failure after,
      rebuild.runFrom (dictionary, process) = (.error failure, after) → failed failure after)
    (stores : ∀ fresh after index, rebuild.runFrom (dictionary, process) = (.ok (), fresh, after) →
      fresh.table.buckets[index]? = some .empty → Reached fresh.table.buckets hash index →
        Ends (storeAt index hash key value) (fresh, after) done failed) :
    Ends (storeRebuilt hash key value) (dictionary, process) done failed := by
  apply ((rebuild_ends sound).and (Action.ends_ran rebuild (dictionary, process))).bind
  · exact fun failure after ends => denied failure after ends.2
  · rintro ⟨⟩ ⟨fresh, after⟩ ⟨⟨continues, -⟩, ran⟩
    rcases firstEmpty_some hash continues.sound.valid.size
      (Bucket.exists_empty continues.sound.valid.room) with ⟨index, found, empty, reached⟩
    simp only [Action.ends_bind, Method.ends_self, Action.ends_liftFault, found]
    exact stores fresh after index ran empty reached

theorem storeRebuilt_ends (value : V) (sound : dictionary.SoundIn process)
    (lacks : dictionary.Lacks key) :
    Ends (storeRebuilt (dictionary.rule.hash key) key value) (dictionary, process)
      (fun _ after => dictionary.Continues (dictionary.toList ++ [(key, value)]) after)
      fun failure after => dictionary.manager.Denies after.2 failure ∧
        dictionary.Continues dictionary.toList after := by
  apply storeRebuilt_stores sound fun _ _ ran => (rebuild_ends sound).of_error ran
  intro fresh after index ran empty reached
  rcases (rebuild_ends sound).of_ok ran with ⟨continues, undeleted, nodes, room⟩
  have count : fresh.count = dictionary.count := by
    calc
      fresh.count = fresh.nodes.length := continues.sound.valid.count
      _ = dictionary.nodes.length := nodes.length_eq
      _ = dictionary.count := sound.valid.count.symm
  have soundThere : fresh.SoundIn after := continues.sound
  have roomThere : 2 * (dictionary.count + 1) ≤ fresh.capacity := room
  have undeletedThere : fresh.deleted = 0 := undeleted
  have rule : fresh.rule = dictionary.rule := continues.rule
  have manager : fresh.manager = dictionary.manager := continues.manager
  rw [← rule] at reached ⊢
  apply (storeAt_ends value soundThere (continues.lacks lacks) empty rfl reached (by
    rw [undeletedThere]
    omega)).mono
  · intro _ final stored
    exact continues.trans stored (continues.content.append_right _)
  · intro failure final ends
    rcases ends with ⟨denies, kept⟩
    exact ⟨manager ▸ denies, continues.trans kept continues.content⟩

section Stored

variable (sound : dictionary.SoundIn process)
  (stored : dictionary.table.buckets[index]? = some (.occupied node))

include stored in
theorem ends_replaceAt {done : V → Dictionary K V × Process → Prop}
    {failed : Failure → Dictionary K V × Process → Prop} (value : V) :
    Ends (replaceAt index value) (dictionary, process) done failed ↔
      done node.value (dictionary.withBucket index (.occupied { node with value }) dictionary.count
        dictionary.deleted, process) := by
  simp only [replaceAt, Action.ends_bind, Method.ends_self, stored, Option.bind_some,
    Bucket.entry?, Method.ends_update, Action.ends_pure]
  rfl

include sound stored in
theorem SoundIn.replaced (same : dictionary.rule.same node.key key = true) (f : V → V) :
    dictionary.Continues (alter dictionary.rule key f dictionary.toList)
      (dictionary.withBucket index (.occupied { node with value := f node.value })
        dictionary.count dictionary.deleted, process) := by
  have owns := sound.owns
  have blocks := blocks_replaced sound.valid sound.consistent stored same (f node.value)
    dictionary.count dictionary.deleted
  have valid := valid_replaced sound.valid sound.consistent stored same (f node.value)
  refine ⟨⟨sound.memory, valid, ⟨?_, ?_, ?_⟩, sound.consistent, sound.align⟩, rfl, rfl, ?_⟩
  · rw [capacity_withBucket]
    exact owns.table
  · rw [blocks]
    exact owns.nodes
  · rw [blocks]
    exact owns.apart
  · rw [toList_replaced sound.valid sound.consistent stored same f]

end Stored

/-- What setting a value comes to. A key that is there has its value replaced. A new one goes to a
vacant bucket, after a rebuild if it would be one entry too many. -/
theorem set_cases {value : V} {done : Option V → Dictionary K V × Process → Prop}
    {failed : Failure → Dictionary K V × Process → Prop} (sound : dictionary.SoundIn process)
    (replaces : ∀ index node, dictionary.table.buckets[index]? = some (.occupied node) →
      dictionary.rule.same node.key key = true →
        done (some node.value) (dictionary.withBucket index (.occupied { node with value })
          dictionary.count dictionary.deleted, process))
    (rebuilds : dictionary.Lacks key →
      3 * dictionary.capacity < 4 * (dictionary.count + dictionary.deleted + 1) →
        Ends (storeRebuilt (dictionary.rule.hash key) key value) (dictionary, process)
          (fun _ => done none) failed)
    (stores : ∀ index old, dictionary.Lacks key →
      ¬ 3 * dictionary.capacity < 4 * (dictionary.count + dictionary.deleted + 1) →
      dictionary.table.buckets[index]? = some old → old.entry? = none →
      Reached dictionary.table.buckets (dictionary.rule.hash key) index →
        Ends (storeAt index (dictionary.rule.hash key) key value) (dictionary, process)
          (fun _ => done none) failed) :
    Ends (set key value) (dictionary, process) done failed := by
  rcases searchFor_located sound.valid sound.consistent key with
    ⟨⟨finding, tested⟩, searched, located⟩
  have small := sound.capacity_lt
  have load := sound.valid.load
  have least := sound.valid.least
  unfold minBuckets at least
  simp only [set, Action.ends_bind, Method.ends_self, Action.ends_liftFault, searched]
  cases located with
  | @found index node stored same =>
      simp only [Action.ends_bind, ends_replaceAt stored, Action.ends_pure]
      exact replaces index node stored same
  | @vacant index lacks free reached =>
      have used : dictionary.count + dictionary.deleted < wordLimit := by omega
      have next : dictionary.count + dictionary.deleted + 1 < wordLimit := by omega
      simp only [Action.ends_bind, Action.ends_add, if_pos used, if_pos next]
      split
      · rename_i heavy
        simp only [Action.ends_bind, Action.ends_pure]
        exact rebuilds lacks ((overloaded_iff small).mp heavy)
      · rename_i light
        simp only [Action.ends_bind, Action.ends_pure]
        have room := fun heavy => light ((overloaded_iff small).mpr heavy)
        rcases free with empty | deleted
        · exact stores index .empty lacks room empty rfl reached
        · exact stores index .deleted lacks room deleted rfl reached

/-- Setting a value in a full picture: what was there is answered, and only a new key can fail. -/
theorem set_ends (key : K) (value : V) (sound : dictionary.SoundIn process) :
    Ends (set key value) (dictionary, process)
      (fun answer after => answer = lookup dictionary.rule dictionary.toList key ∧
        dictionary.Continues (put dictionary.rule key value dictionary.toList) after)
      fun failure after => lookup dictionary.rule dictionary.toList key = none ∧
        dictionary.manager.Denies after.2 failure ∧
        dictionary.Continues dictionary.toList after := by
  apply set_cases sound
  · intro index node stored same
    have known := lookup_stored sound.valid sound.consistent stored same
    simp only [known, put]
    exact ⟨trivial, sound.replaced stored same fun _ => value⟩
  · intro lacks _
    simp only [put, lookup_of_lacks lacks]
    exact (storeRebuilt_ends value sound lacks).mono (fun _ _ continues => ⟨trivial, continues⟩)
      fun _ _ failed => ⟨trivial, failed⟩
  · intro index old lacks room present vacant reached
    simp only [put, lookup_of_lacks lacks]
    exact (storeAt_ends value sound lacks present vacant reached (by omega)).mono
      (fun _ _ continues => ⟨trivial, continues⟩) fun _ _ failed => ⟨trivial, failed⟩

theorem modify_ends (key : K) (f : V → V) (sound : dictionary.SoundIn process) :
    Ends (modify key f) (dictionary, process)
      (fun answer after => answer = (lookup dictionary.rule dictionary.toList key).map f ∧
        dictionary.Continues (alter dictionary.rule key f dictionary.toList) after)
      fun _ _ => False := by
  rcases find_cases sound.valid sound.consistent key with
    ⟨index, node, found, stored, same⟩ | ⟨missed, lacks⟩
  · have known := lookup_stored sound.valid sound.consistent stored same
    simp only [modify, Action.ends_bind, Method.ends_self, Action.ends_liftFault, found,
      ends_replaceAt stored, Action.ends_pure, known]
    exact ⟨rfl, sound.replaced stored same f⟩
  · have absent := lookup_of_lacks lacks
    simp only [modify, Action.ends_bind, Method.ends_self, Action.ends_liftFault, missed,
      Action.ends_pure, absent, alter_of_absent (lookup_eq_none.mp absent)]
    exact ⟨rfl, sound.continues⟩

theorem Owns.left {left : Dictionary K V} (owns : dictionary.Owns process)
    (manager : left.manager = dictionary.manager) (layout : left.node = dictionary.node)
    (block : left.table.block = dictionary.table.block)
    (capacity : left.capacity = dictionary.capacity)
    (blocks : left.blocks.Sublist dictionary.blocks) : left.Owns process where
  table := by
    rw [manager, block, capacity]
    exact owns.table
  nodes b member := by
    rw [manager, layout]
    exact owns.nodes b (blocks.subset member)
  apart := by
    rw [block]
    exact owns.apart.sublist (blocks.cons_cons _)

theorem SoundIn.emptied {after : Process} {freed : List Nat} (sound : dictionary.SoundIn process)
    (evolves : process.Evolves after freed) (kept : dictionary.table.block ∉ freed) :
    dictionary.Continues [] (dictionary.emptied, after) := by
  have none : dictionary.emptied.blocks = [] := congrArg (List.map Node.block) nodes_emptied
  have owns : dictionary.emptied.Owns process := by
    refine sound.owns.left rfl rfl rfl capacity_emptied ?_
    rw [none]
    exact List.nil_sublist _
  refine ⟨⟨evolves.sound, valid_emptied sound.valid, owns.evolves evolves ?_, sound.consistent,
    sound.align⟩, rfl, rfl, ?_⟩
  · rw [none]
    intro block member
    exact List.mem_singleton.mp member ▸ kept
  · rw [toList_eq, nodes_emptied]
    exact .refl _

theorem SoundIn.struck {after : Process} (sound : dictionary.SoundIn process)
    (stored : dictionary.table.buckets[index]? = some (.occupied node))
    (same : dictionary.rule.same node.key key = true) (more : 1 < dictionary.count)
    (evolves : process.Evolves after [node.block]) :
    dictionary.Continues (without dictionary.rule key dictionary.toList)
      (dictionary.withBucket index .deleted (dictionary.count - 1) (dictionary.deleted + 1),
        after) := by
  rcases nodes_split sound.valid sound.consistent stored same with ⟨front, back, whole, -, left⟩
  have blocks : dictionary.blocks = (front ++ [node] ++ back).map Node.block :=
    congrArg (List.map Node.block) whole
  have blocksLeft : (dictionary.withBucket index .deleted (dictionary.count - 1)
      (dictionary.deleted + 1)).blocks = (front ++ back).map Node.block :=
    congrArg (List.map Node.block) ((left _ _ _).trans (by simp))
  have apart := sound.owns.apart
  rw [blocks] at apart
  refine ⟨⟨evolves.sound, valid_struck sound.valid sound.consistent stored same more,
    Owns.evolves (sound.owns.left rfl rfl rfl capacity_withBucket ?_) evolves ?_,
    sound.consistent, sound.align⟩, rfl, rfl, ?_⟩
  · rw [blocks, blocksLeft]
    apply List.Sublist.map _
    simp
  · rw [blocksLeft]
    have perm : (dictionary.table.block :: (front ++ [node] ++ back).map Node.block).Perm
        (node.block :: dictionary.table.block :: (front ++ back).map Node.block) := by
      refine .trans (.cons _ ?_) (.swap _ _ _)
      simp
    have unlike := (List.nodup_cons.mp (perm.nodup_iff.mp apart)).1
    intro block member gone
    exact unlike (List.mem_singleton.mp gone ▸ member)
  · rw [toList_struck sound.valid sound.consistent stored same]

/-- The dictionary without the entry of a bucket. With the last entry all deleted buckets go. -/
def struck (dictionary : Dictionary K V) (index : Nat) : Dictionary K V :=
  if dictionary.count = 1 then dictionary.emptied
  else dictionary.withBucket index .deleted (dictionary.count - 1) (dictionary.deleted + 1)

/-- What taking a key out comes to: it was not there, or the block of its node was given back. -/
inductive Removed (dictionary : Dictionary K V) (process : Process) (key : K) :
    Option V → Dictionary K V × Process → Prop
  | absent (lacks : dictionary.Lacks key) :
      Removed dictionary process key none (dictionary, process)
  | taken {index : Nat} {node : Node K V} {after : Process}
      (stored : dictionary.table.buckets[index]? = some (.occupied node))
      (same : dictionary.rule.same node.key key = true)
      (freed : (dictionary.manager.free node.block).runFrom process = (.ok (), after)) :
      Removed dictionary process key (some node.value) (dictionary.struck index, after)

/-- Taking a key out never fails. -/
theorem remove_removes (key : K) (sound : dictionary.SoundIn process) :
    Ends (remove key) (dictionary, process)
      (fun answer after => dictionary.Removed process key answer after) fun _ _ => False := by
  simp only [remove, Action.ends_bind, Method.ends_self, Action.ends_liftFault]
  rcases find_cases sound.valid sound.consistent key with
    ⟨index, node, found, stored, same⟩ | ⟨missed, lacks⟩
  · have member := mem_nodes.mpr ⟨index, stored⟩
    have positive := sound.valid.count_pos stored
    have small := sound.capacity_lt
    have load := sound.valid.load
    have fits : dictionary.deleted + 1 < wordLimit := by omega
    have frees : Ends (dictionary.manager.free node.block) process
        (fun _ after =>
          dictionary.Removed process key (some node.value) (dictionary.struck index, after))
        fun _ _ => False :=
      ((Action.ends_ran (dictionary.manager.free node.block) process).and
        (Manager.free_ends sound.memory (sound.owns.nodes _ (List.mem_map_of_mem member)))).mono
          (fun _ _ ends => .taken stored same ends.1) fun _ _ none => none.2
    simp only [found, Word.subtract, if_pos positive, Word.add, if_pos fits, Action.ends_bind,
      Action.ends_liftFault]
    split
    · rename_i last
      have left : { dictionary with
          table := dictionary.table.clear
          count := dictionary.count - 1
          deleted := 0 } = dictionary.struck index := by
        rw [struck, if_pos (by omega), last]
        rfl
      simp only [Action.ends_bind, Method.ends_update, left, Method.ends_liftProcess,
        Action.ends_pure]
      exact frees
    · rename_i more
      have left : { dictionary with
          table := dictionary.table.put index .deleted
          count := dictionary.count - 1
          deleted := dictionary.deleted + 1 } = dictionary.struck index := by
        rw [struck, if_neg (by omega)]
        rfl
      simp only [Action.ends_bind, Method.ends_update, left, Method.ends_liftProcess,
        Action.ends_pure]
      exact frees
  · simp only [missed, Action.ends_pure]
    exact .absent lacks

theorem remove_ends (key : K) (sound : dictionary.SoundIn process) :
    Ends (remove key) (dictionary, process)
      (fun answer after => answer = lookup dictionary.rule dictionary.toList key ∧
        dictionary.Continues (without dictionary.rule key dictionary.toList) after)
      fun _ _ => False := by
  apply (remove_removes key sound).mono ?_ fun _ _ none => none
  intro _ _ removed
  cases removed with
  | absent lacks =>
      have absent := lookup_of_lacks lacks
      rw [absent, without_of_absent (lookup_eq_none.mp absent)]
      exact ⟨rfl, sound.continues⟩
  | @taken index node after stored same freed =>
      have member := mem_nodes.mpr ⟨index, stored⟩
      have block : node.block ∈ dictionary.blocks := List.mem_map_of_mem member
      have evolves := (Manager.free_ends sound.memory (sound.owns.nodes _ block)).of_ok freed
      refine ⟨(lookup_stored sound.valid sound.consistent stored same).symm, ?_⟩
      rw [struck]
      split
      · rename_i last
        rw [without_last sound.valid sound.consistent stored same (by omega)]
        apply sound.emptied evolves
        intro same
        exact (List.nodup_cons.mp sound.owns.apart).1 (List.mem_singleton.mp same ▸ block)
      · rename_i more
        have positive := sound.valid.count_pos stored
        exact sound.struck stored same (by omega) evolves

theorem freeNodes_ends (sound : dictionary.SoundIn process) :
    Ends (dictionary.blocks.forM dictionary.manager.free) process
      (fun _ after => process.Evolves after dictionary.blocks) fun _ _ => False := by
  have apart := (List.nodup_cons.mp sound.owns.apart).2
  exact Manager.freeAll_ends _ sound.memory apart fun block member =>
    ⟨_, sound.owns.nodes block member⟩

theorem clear_empties (sound : dictionary.SoundIn process) :
    Ends clear (dictionary, process)
      (fun _ after => after.1 = dictionary.emptied ∧
        (dictionary.blocks.forM dictionary.manager.free).runFrom process = (.ok ⟨⟩, after.2))
      fun _ _ => False := by
  have frees := (Action.ends_ran (dictionary.blocks.forM dictionary.manager.free) process).and
    (freeNodes_ends sound)
  simp only [clear, Action.ends_bind, Method.ends_self, Method.ends_ofProcess, Method.ends_update]
  exact frees.mono (fun _ _ ends => ⟨rfl, ends.1⟩) fun _ _ none => none.2

theorem clear_ends (sound : dictionary.SoundIn process) :
    Ends clear (dictionary, process) (fun _ after => dictionary.Continues [] after)
      fun _ _ => False := by
  apply (clear_empties sound).mono ?_ fun _ _ none => none
  rintro _ ⟨left, after⟩ ⟨rfl, freed⟩
  have evolves := (freeNodes_ends sound).of_ok freed
  exact sound.emptied evolves (List.nodup_cons.mp sound.owns.apart).1

theorem create_ends {manager : Manager} (requested : Nat) {rule : KeyRule K} {layout : Layout}
    (sound : process.Sound) (consistent : rule.Consistent)
    (align : isPowerOfTwo layout.align = true) :
    Ends (create manager requested rule layout : Action Process (Dictionary K V)) process
      (fun dictionary after => dictionary.SoundIn after ∧ dictionary.rule = rule ∧
        dictionary.manager = manager ∧ dictionary.toList = [])
      fun _ after => process.Evolves after [] := by
  rw [create, Action.ends_bind, Action.ends_require]
  split
  · rw [Action.ends_bind, Action.ends_liftFault]
    cases counted : bucketCount requested with
    | error cause => exact .refl sound
    | ok capacity =>
        rcases tableSize_bucketCount counted with ⟨size, least⟩
        apply (BucketArray.create_ends capacity sound).bind (fun _ _ denied => denied.1)
        intro table after ends
        rcases ends with ⟨granted, empty⟩
        apply (Manager.retain_ends granted.evolves.sound).bind (fun _ _ none => none.elim)
        intro _ final ends
        rcases ends with ⟨retained, -⟩
        have whole := BucketArray.capacity_of_replicate empty
        have none : Bucket.entries table.buckets = [] := by simp [empty]
        have holds := retained.held _ _ _ List.not_mem_nil granted.holds
        refine ⟨⟨retained.sound, valid_unused size least rfl rfl empty, ⟨?_, ?_, ?_⟩, consistent,
          align⟩, rfl, rfl, ?_⟩
        · show manager.Holds final table.block (_ * table.capacity)
          rw [whole]
          exact holds
        · show ∀ block ∈ (Bucket.entries table.buckets).map Node.block, _
          rw [none]
          intro block member
          cases member
        · show (table.block :: (Bucket.entries table.buckets).map Node.block).Nodup
          rw [none]
          exact List.nodup_singleton _
        · show (Bucket.entries table.buckets).map _ = []
          rw [none]
          rfl
  · exact .refl sound

end Dictionary

end SymbolStore
