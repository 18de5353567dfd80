import SymbolStore.Proofs.Bucket.Exchange
import SymbolStore.Proofs.Dictionary.Run

/-!
New keys that are turned down. No entry is lost and none is added. But buckets that were rebuilt before
the node was turned down stay so.
-/

namespace SymbolStore

open SymbolStore.Action (Ends)

namespace Dictionary

variable {K V : Type} {dictionary : Dictionary K V} {process : Process} {key : K} {hash : UInt64}
  {index : Nat}

/-- The states that a dictionary and its process come to: the dictionary is made, requests are made to
it, and meanwhile the process changes in ways that leave its blocks alone. -/
inductive Reachable : Dictionary K V × Process → Prop
  | made {manager : Manager} {requested : Nat} {rule : KeyRule K} {node : Layout}
      {dictionary : Dictionary K V} {process after : Process} (memory : process.Sound)
      (consistent : rule.Consistent) (align : isPowerOfTwo node.align = true)
      (created : (create manager requested rule node).runFrom process = (.ok dictionary, after)) :
      Reachable (dictionary, after)
  | asked {state : Dictionary K V × Process} (request : Request K V) (earlier : Reachable state) :
      Reachable ((perform request).runFrom state).2
  | aside {dictionary : Dictionary K V} {process later : Process} {freed : List Nat}
      (earlier : Reachable (dictionary, process)) (evolves : process.Evolves later freed)
      (spared : ∀ block ∈ dictionary.table.block :: dictionary.blocks, block ∉ freed) :
      Reachable (dictionary, later)

theorem Reachable.sound {state : Dictionary K V × Process} (reachable : Reachable state) :
    state.1.SoundIn state.2 := by
  induction reachable with
  | made memory consistent align created =>
      exact ((create_ends _ memory consistent align).of_ok created).1
  | asked request earlier sound =>
      obtain ⟨content, continues⟩ := perform_continues request sound
      exact continues.sound
  | aside earlier evolves spared sound =>
      exact { sound with memory := evolves.sound, owns := sound.owns.evolves evolves spared }

/-- A key more would be too many for the buckets, the deleted ones included. -/
def Crowded (dictionary : Dictionary K V) : Prop :=
  3 * dictionary.capacity < 4 * (dictionary.count + dictionary.deleted + 1)

instance (dictionary : Dictionary K V) : Decidable dictionary.Crowded :=
  inferInstanceAs (Decidable (_ < _))

/-- The dictionary has other buckets now, none of them deleted. What its manager counts has changed by
the difference, and the manager had room for the new buckets beside the old ones. -/
structure Rebucketed (dictionary : Dictionary K V) (process : Process)
    (after : Dictionary K V × Process) : Prop where
  table : ∃ table, after.1 = dictionary.rebuilt table
  capacity : after.1.capacity = dictionary.nextCapacity
  exchanges : dictionary.manager.Exchanges process after.2
    (BucketArray.layout dictionary.capacity).size (BucketArray.layout after.1.capacity).size
  within : (dictionary.manager.ledgerIn process).isTracked = true →
    ∀ limit ∈ (dictionary.manager.ledgerIn process).config.byteLimit,
      (dictionary.manager.ledgerIn process).counters.liveBytes +
        (BucketArray.layout after.1.capacity).size ≤ limit

/-- A rebuild exchanges the bucket array, or fails and does nothing but print. -/
theorem rebuild_effect (sound : dictionary.SoundIn process) :
    Ends rebuild (dictionary, process) (fun _ after => dictionary.Rebucketed process after)
      (process.Declines dictionary) := by
  obtain ⟨computed, size, -⟩ := sound.rebuiltCapacity_eq
  apply rebuild_rehashes computed
  apply (dictionary.table.rehashed_effect .dictionary Node.hash sound.memory size
    sound.entries_le_nextCapacity).mono
  · intro fresh after ends text
    obtain ⟨handed, replaces⟩ := ends
    apply (Manager.free_exchanges sound.memory sound.owns.table handed _).mono ?_
      fun _ _ none => none.elim
    intro _ final exchanges
    have capacity : (dictionary.rebuilt fresh).capacity = dictionary.nextCapacity :=
      replaces.capacity
    rw [← capacity] at exchanges handed
    exact ⟨⟨fresh, rfl⟩, capacity, exchanges, handed.within⟩
  · exact fun _ _ refused => refused.declines dictionary

theorem storeAt_fails (value : V) (memory : process.Sound) :
    Ends (storeAt index hash key value) (dictionary, process) (fun _ _ => True)
      (process.Declines dictionary) := by
  simp only [storeAt, Action.ends_bind, Method.ends_self, Method.ends_liftProcess]
  apply (Manager.allocateArray_effect dictionary.node 1 memory).mono
  · intro block after _
    -- Once the block is there, only a count could be too large, and that is no error.
    have stored (deleted : Nat) : Ends (do
        let count ← Word.add dictionary.count 1
        Method.update fun dictionary : Dictionary K V => { dictionary with
          table := dictionary.table.put index (.occupied { block, hash, key, value })
          count
          deleted }) (dictionary, after) (fun _ _ => True) (process.Declines dictionary) := by
      rw [Action.ends_bind, Action.ends_liftFault]
      cases Word.add dictionary.count 1 with
      | error fault => exact Process.declines_fault fault _
      | ok count => trivial
    cases ((dictionary.table.buckets[index]?).map Bucket.isDeleted).getD false with
    | false => exact stored dictionary.deleted
    | true =>
        simp only [if_true]
        cases Word.subtract dictionary.deleted 1 with
        | error fault => exact Process.declines_fault fault _
        | ok deleted => exact stored deleted
  · exact fun _ _ refused => refused.declines dictionary

/-- A new key begins with a rebuild of the buckets. -/
def Rebuilds (dictionary : Dictionary K V) (process : Process) : Prop :=
  dictionary.Crowded ∧ (rebuild.runFrom (dictionary, process)).1.isOk

/-- What a new key that is turned down comes to: nothing is different, or the buckets were rebuilt. -/
inductive Unserved (dictionary : Dictionary K V) (process : Process) :
    Dictionary K V × Process → Prop
  | kept {after : Process} (stays : ¬ dictionary.Rebuilds process)
      (remarks : process.Remarks after) : Unserved dictionary process (dictionary, after)
  | rebuilt {middle : Dictionary K V × Process} {after : Process}
      (rebuilds : dictionary.Rebuilds process) (rebucketed : dictionary.Rebucketed process middle)
      (remarks : middle.2.Remarks after) : Unserved dictionary process (middle.1, after)

theorem storeRebuilt_fails (value : V) (sound : dictionary.SoundIn process)
    (crowded : dictionary.Crowded) :
    Ends (storeRebuilt hash key value) (dictionary, process) (fun _ _ => True)
      fun failure after => ∀ cause, failure = .error cause →
        dictionary.Unserved process after := by
  apply storeRebuilt_stores sound
  · intro failure last ran cause same
    have stays : ¬ dictionary.Rebuilds process := fun rebuilds => by
      rw [Rebuilds, ran] at rebuilds
      cases rebuilds.2
    obtain ⟨after, remarks, rfl⟩ := ((rebuild_effect sound).of_error ran).exists_eq same
    exact .kept stays remarks
  · intro fresh after index ran _ _
    have rebuilds : dictionary.Rebuilds process := ⟨crowded, by rw [ran]; rfl⟩
    have rebucketed := (rebuild_effect sound).of_ok ran
    apply (storeAt_fails value ((rebuild_ends sound).of_ok ran).1.sound.memory).mono
      fun _ _ _ => trivial
    intro failure _ declines cause same
    obtain ⟨final, remarks, rfl⟩ := declines.exists_eq same
    exact .rebuilt rebuilds rebucketed remarks

theorem set_fails (value : V) (sound : dictionary.SoundIn process) :
    Ends (set key value) (dictionary, process) (fun _ _ => True)
      fun failure after => ∀ cause, failure = .error cause → dictionary.Unserved process after := by
  apply set_cases sound
  · intros
    trivial
  · intro _ crowded
    exact storeRebuilt_fails value sound crowded
  · intro index old _ room _ _ _
    have stays : ¬ dictionary.Rebuilds process := fun rebuilds => room rebuilds.1
    apply (storeAt_fails value sound.memory).mono fun _ _ _ => trivial
    intro failure _ declines cause same
    obtain ⟨after, remarks, rfl⟩ := declines.exists_eq same
    exact .kept stays remarks

/-- What there is to be said of the dictionary after a new key was turned down. -/
structure Endures (dictionary : Dictionary K V) (process : Process)
    (after : Dictionary K V × Process) : Prop where
  kept : ¬ dictionary.Rebuilds process →
    after.1 = dictionary ∧ ∃ journal, after.2 = { process with journal }
  rebuilt : dictionary.Rebuilds process → after.1.capacity = dictionary.nextCapacity ∧
    ∃ table, after.1 = dictionary.rebuilt table
  exchanges : dictionary.manager.Exchanges process after.2
    (BucketArray.layout dictionary.capacity).size (BucketArray.layout after.1.capacity).size
  within : dictionary.Rebuilds process → (dictionary.manager.ledgerIn process).isTracked = true →
    ∀ limit ∈ (dictionary.manager.ledgerIn process).config.byteLimit,
      dictionary.node.size ≤ (BucketArray.layout dictionary.capacity).size →
      (dictionary.manager.ledgerIn after.2).counters.liveBytes + dictionary.node.size ≤ limit

theorem Unserved.endures {after : Dictionary K V × Process}
    (unserved : dictionary.Unserved process after) : dictionary.Endures process after := by
  cases unserved with
  | kept stays remarks =>
      have exchanges := Manager.Exchanges.of_remarks dictionary.manager remarks
        (BucketArray.layout dictionary.capacity).size
      obtain ⟨journal, -, same⟩ := remarks
      exact ⟨fun _ => ⟨rfl, journal, same⟩, fun rebuilds => absurd rebuilds stays, exchanges,
        fun rebuilds => absurd rebuilds stays⟩
  | @rebuilt middle after rebuilds rebucketed remarks =>
      have exchanges := rebucketed.exchanges.remarks remarks
      refine ⟨fun stays => absurd rebuilds stays,
        fun _ => ⟨rebucketed.capacity, rebucketed.table⟩, exchanges, ?_⟩
      intro _ tracked limit limited small
      have within := rebucketed.within tracked limit limited
      have live := exchanges.liveBytes
      rw [Ledger.charge, Ledger.charge, if_pos tracked, if_pos tracked] at live
      dsimp only at live within ⊢
      omega

/-- Rebuilt buckets show: there are more of them, or some were deleted. -/
theorem Endures.eq_self_iff {after : Dictionary K V × Process} (valid : dictionary.Valid)
    (endures : dictionary.Endures process after) :
    after.1 = dictionary ↔ ¬ dictionary.Rebuilds process := by
  refine ⟨fun same rebuilds => ?_, fun stays => (endures.kept stays).1⟩
  obtain ⟨capacity, table, rebuilt⟩ := endures.rebuilt rebuilds
  have deleted : dictionary.deleted = 0 := by
    rw [← same, rebuilt]
    rfl
  have crowded := rebuilds.1
  have least := valid.least
  rw [same] at capacity
  unfold nextCapacity at capacity
  unfold Crowded at crowded
  unfold minBuckets at least
  split at capacity <;> omega

/-- At any time, setting a key fails only where the key is new and too little memory is left. It
leaves the dictionary as it was if and only if the buckets were
not rebuilt first; then it did nothing to the process but print. In any case the entries are the same,
up to their order, and so is their number. But buckets that were rebuilt stay so: the deleted ones are
gone, there may be twice as many, and a tracked manager has 16 bytes more for each new one. A limit
can come between a rebuild and the node only if the node is larger than all the old buckets. -/
theorem failed_set_unchanged_iff {after : Dictionary K V × Process}
    (reachable : Reachable (dictionary, process)) {value : V} {cause : MemoryError}
    (failed : (set key value).runFrom (dictionary, process) = (.error (.error cause), after)) :
    (∃ requested, cause = .outOfMemory requested) ∧
      (after.1 = dictionary ↔ ¬ dictionary.Rebuilds process) ∧
      dictionary.Endures process after ∧ after.1.count = dictionary.count ∧
      after.1.toList.Perm dictionary.toList := by
  have sound := reachable.sound
  have unserved := (set_fails value sound).of_error failed cause rfl
  obtain ⟨-, denies, continues⟩ := (set_ends key value sound).of_error failed
  have short : ∃ requested, cause = .outOfMemory requested := by
    rcases denies with ⟨requested, same⟩ | ⟨fault, -⟩
    · exact ⟨requested, Failure.error.inj same⟩
    · cases fault
  have count : after.1.count = dictionary.count := by
    calc
      after.1.count = after.1.toList.length := continues.sound.valid.length_toList.symm
      _ = dictionary.toList.length := continues.content.length_eq
      _ = dictionary.count := sound.valid.length_toList
  exact ⟨short, unserved.endures.eq_self_iff sound.valid, unserved.endures, count,
    continues.content⟩

def sampleRule : KeyRule Nat := .byContent fun key => [.ofNat key]

def limited (limit : Nat) : Process :=
  ((Manager.create (Config.tracked.withByteLimit limit)).runFrom {}).2

/-- A dictionary of this manager with four buckets and with nodes of 128 bytes. -/
def sample (limit : Nat) : Dictionary Nat Nat × Process :=
  ({ manager := ⟨0⟩
     table := { block := 65552, buckets := Array.replicate 4 .empty }
     rule := sampleRule
     node := ⟨128, 8⟩ },
    ((create ⟨0⟩ 4 sampleRule ⟨128, 8⟩ : Action Process (Dictionary Nat Nat)).runFrom
      (limited limit)).2)

def sampleOne : Dictionary Nat Nat × Process := Method.final perform [.set 1 0] (sample 300)

/-- The same with three keys, and with room for more buckets or for another node. -/
def sampleThree : Dictionary Nat Nat × Process :=
  Method.final perform [.set 1 0, .set 2 0, .set 3 0] (sample 600)

theorem sample_reachable : Reachable sampleOne ∧ Reachable sampleThree := by
  have memory (limit : Nat) : (limited limit).Sound :=
    Manager.sound_create Allocator.ascending_lawful _
  have consistent : sampleRule.Consistent := KeyRule.consistent_byContent _
  have small : (create ⟨0⟩ 4 sampleRule ⟨128, 8⟩).runFrom (limited 300) =
      (.ok (sample 300).1, (sample 300).2) := rfl
  have large : (create ⟨0⟩ 4 sampleRule ⟨128, 8⟩).runFrom (limited 600) =
      (.ok (sample 600).1, (sample 600).2) := rfl
  have one : Reachable (sample 300) := .made (memory 300) consistent rfl small
  have three : Reachable (sample 600) := .made (memory 600) consistent rfl large
  exact ⟨.asked _ one, .asked _ (.asked _ (.asked _ three))⟩

theorem failed_set_unchanged_sampleOne :
    ((set 2 0).runFrom sampleOne).1 = .error (.error (.outOfMemory 128)) ∧
      ((set 2 0).runFrom sampleOne).2.1 = sampleOne.1 := by
  have failed : ((set 2 0).runFrom sampleOne).1 = .error (.error (.outOfMemory 128)) := by
    decide +kernel
  have reachable := sample_reachable.1
  have roomy : ¬ sampleOne.1.Crowded := by decide +kernel
  generalize sampleOne = state at *
  rcases state with ⟨dictionary, process⟩
  have kept := (failed_set_unchanged_iff reachable (Prod.fst_eq_iff.mp failed)).2.1.mpr
    fun rebuilds => roomy rebuilds.1
  exact ⟨failed, kept⟩

/-- The node of the fourth key is turned down when the buckets have been rebuilt. They stay so. -/
theorem failed_set_keeps_rebuild :
    let before := sampleThree
    let ran := (set 4 0).runFrom before
    Reachable before ∧ ran.1 = .error (.error (.outOfMemory 128)) ∧
      (before.1.capacity = 4 ∧ ran.2.1.capacity = 8) ∧ ran.2.1 ≠ before.1 ∧
      (before.1.manager.ledgerIn before.2).counters.liveBytes = 448 ∧
      (before.1.manager.ledgerIn ran.2.2).counters.liveBytes = 512 := by
  have capacities : sampleThree.1.capacity = 4 ∧ ((set 4 0).runFrom sampleThree).2.1.capacity = 8 := by
    decide +kernel
  refine ⟨sample_reachable.2, by decide +kernel, capacities, ?_, by decide +kernel,
    by decide +kernel⟩
  intro same
  rw [same] at capacities
  omega

end Dictionary

end SymbolStore
