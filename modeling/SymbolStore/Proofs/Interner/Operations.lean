import SymbolStore.Proofs.Bucket.Storage
import SymbolStore.Proofs.Interner.Valid
import SymbolStore.Proofs.Region.Operations

/-!
The operations of an interner in a sound process. Each keeps the interner valid and in possession of
its blocks, and does to its records what it says. Only a shortage of memory makes one fail.
-/

namespace SymbolStore

open SymbolStore.Action (Ends)

namespace Interner

structure SoundIn (interner : Interner) (process : Process) : Prop where
  region : interner.region.SoundIn process
  valid : interner.Valid process.heap
  manager : interner.region.manager = interner.manager
  table : interner.manager.Holds process interner.table.block
    (BucketArray.bucketLayout.size * interner.capacity)
  apart : interner.table.block ∉ interner.region.chunks.map Chunk.block
  align : isPowerOfTwo interner.value.align = true

/-- The same interner later on, in order, in the given generation and with the given records. -/
structure Continues (interner : Interner) (generation : Nat) (records : List Record)
    (after : Interner × Process) : Prop where
  sound : after.1.SoundIn after.2
  manager : after.1.manager = interner.manager
  hasher : after.1.hasher = interner.hasher
  value : after.1.value = interner.value
  id : after.1.region.id = interner.region.id
  generation : after.1.region.generation = generation
  records : (after.1.toList after.2.heap).Perm records

variable {interner : Interner} {process after : Process} {entry : Pointer} {content : List UInt8}
  {hash : UInt64} {freed : List Nat}

theorem SoundIn.continues (sound : interner.SoundIn process) :
    interner.Continues interner.region.generation (interner.toList process.heap)
      (interner, process) :=
  ⟨sound, rfl, rfl, rfl, rfl, rfl, .refl _⟩

theorem Continues.trans {middle last : Interner × Process} {generation later : Nat}
    {records others whole : List Record} (first : interner.Continues generation records middle)
    (second : middle.1.Continues later others last) (perm : others.Perm whole) :
    interner.Continues later whole last where
  sound := second.sound
  manager := second.manager.trans first.manager
  hasher := second.hasher.trans first.hasher
  value := second.value.trans first.value
  id := second.id.trans first.id
  generation := second.generation
  records := second.records.trans perm

theorem SoundIn.positive (sound : interner.SoundIn process) : 0 < interner.value.align :=
  isPowerOfTwo_pos sound.align

theorem SoundIn.eq_of_address {other : Pointer} (sound : interner.SoundIn process)
    (member : entry ∈ interner.entries) (there : other ∈ interner.entries)
    (same : other.address = entry.address) : other = entry := by
  have some (entry : Pointer) : 0 < interner.span process.heap entry := by
    have offset := Entry.valueOffset_ge sound.positive
    have inside := Entry.value_inside interner.value
    unfold span Entry.span
    omega
  exact sound.region.memory.heap.eq_of_address
    (sound.region.covers (sound.valid.covered entry member))
    (sound.region.covers (sound.valid.covered other there)) (some entry) (some other) same

/-- Symbols that the interner lists are the same exactly if their strings are. -/
theorem SoundIn.same_iff {symbol symbol' : Symbol} {content' value value' : List UInt8}
    (sound : interner.SoundIn process)
    (member : (symbol, content, value) ∈ interner.toList process.heap)
    (member' : (symbol', content', value') ∈ interner.toList process.heap) :
    (symbol' = symbol ↔ content' = content) ∧ (symbol.same symbol' = true ↔ content' = content) := by
  have distinct := sound.valid.distinct_toList
  have equal : symbol' = symbol ↔ content' = content := by
    constructor
    · intro same
      exact congrArg (fun record => record.2.1)
        (List.inj_on_of_nodup_map distinct.symbols member' member same)
    · intro same
      exact congrArg Prod.fst (List.inj_on_of_nodup_map distinct.contents member' member same)
  refine ⟨equal, Iff.trans ?_ equal⟩
  obtain ⟨entry, listed, is⟩ := List.mem_map.mp member
  obtain ⟨other, listed', is'⟩ := List.mem_map.mp member'
  cases is
  cases is'
  rw [Symbol.same, decide_eq_true_iff]
  constructor
  · intro same
    rw [sound.eq_of_address listed listed' same.2.2.symm]
  · intro same
    rw [same]
    exact ⟨rfl, rfl, rfl⟩

theorem SoundIn.capacity_lt (sound : interner.SoundIn process) :
    16 * interner.capacity < wordLimit :=
  BucketArray.capacity_lt sound.region.memory sound.table

theorem SoundIn.mem_blocks (sound : interner.SoundIn process) (member : entry ∈ interner.entries) :
    entry.block ∈ interner.region.chunks.map Chunk.block :=
  (sound.valid.covered entry member).mem_blocks

theorem SoundIn.keeps (sound : interner.SoundIn process)
    (evolves : process.Evolves after freed)
    (kept : ∀ block ∈ interner.region.chunks.map Chunk.block, block ∉ freed)
    (member : entry ∈ interner.entries) :
    process.heap.Keeps after.heap entry (interner.span process.heap entry) :=
  evolves.keeps (kept _ (sound.mem_blocks member))
    (sound.region.present (sound.mem_blocks member)) _

theorem toList_keeps {before after : Heap} (positive : 0 < interner.value.align)
    (keeps : ∀ entry ∈ interner.entries, before.Keeps after entry (interner.span before entry)) :
    interner.toList after = interner.toList before := by
  rw [toList_eq, toList_eq]
  refine List.map_congr_left fun entry member => ?_
  have kept := keeps entry member
  rw [content, content, Entry.bytes_keeps kept positive, Entry.value_keeps kept]

theorem Valid.keeps {before after : Heap} (valid : interner.Valid before)
    (positive : 0 < interner.value.align)
    (keeps : ∀ entry ∈ interner.entries, before.Keeps after entry (interner.span before entry)) :
    interner.Valid after :=
  valid.alike fun entry member => alike_of_keeps positive (keeps entry member)

theorem SoundIn.evolves (sound : interner.SoundIn process) (evolves : process.Evolves after []) :
    interner.Continues interner.region.generation (interner.toList process.heap)
      (interner, after) := by
  have keeps : ∀ entry ∈ interner.entries,
      process.heap.Keeps after.heap entry (interner.span process.heap entry) :=
    fun _ member => sound.keeps evolves (fun _ _ => List.not_mem_nil) member
  refine ⟨⟨sound.region.evolves evolves, sound.valid.keeps sound.positive keeps, sound.manager,
    evolves.held _ _ _ List.not_mem_nil sound.table, sound.apart, sound.align⟩, rfl, rfl, rfl, rfl,
    rfl, ?_⟩
  rw [toList_keeps sound.positive keeps]

theorem SoundIn.replaced {fresh : BucketArray Pointer} {capacity : Nat}
    (sound : interner.SoundIn process) (evolves : process.Evolves after [interner.table.block])
    (unknown : process.heap.find? fresh.block = none)
    (holds : interner.manager.Holds after fresh.block (BucketArray.layout capacity).size)
    (replaces : fresh.Replaces interner.table (Entry.hash process.heap) capacity)
    (size : TableSize capacity) (least : minBuckets ≤ capacity)
    (load : 4 * interner.count ≤ 3 * capacity) :
    interner.Continues interner.region.generation (interner.toList process.heap)
      (interner.withTable fresh, after) := by
  have spared : ∀ block ∈ interner.region.chunks.map Chunk.block,
      block ∉ [interner.table.block] := by
    intro block member gone
    exact sound.apart (List.mem_singleton.mp gone ▸ member)
  have keeps : ∀ entry ∈ (interner.withTable fresh).entries,
      process.heap.Keeps after.heap entry (interner.span process.heap entry) := fun entry member =>
    sound.keeps evolves spared (replaces.entries.mem_iff.mp member)
  have valid := valid_withTable sound.valid (replaces.capacity ▸ size) (replaces.capacity ▸ least)
    (replaces.capacity ▸ load) replaces.placed replaces.undeleted replaces.entries
  refine ⟨⟨sound.region.spared evolves spared, valid.keeps sound.positive keeps, sound.manager, ?_,
    ?_, sound.align⟩, rfl, rfl, rfl, rfl, rfl, ?_⟩
  · show interner.manager.Holds after fresh.block (_ * fresh.capacity)
    rw [replaces.capacity]
    exact holds
  · show fresh.block ∉ _
    intro member
    rcases sound.region.present member with ⟨block, found⟩
    rw [unknown] at found
    cases found
  · have same : (interner.withTable fresh).toList after.heap =
        (interner.withTable fresh).toList process.heap := toList_keeps sound.positive keeps
    rw [same]
    exact replaces.entries.map _

/-- The entries move to twice as many buckets before the old ones go, whatever is printed of it. -/
theorem grow_rehashes {done : Unit → Interner × Process → Prop}
    {failed : Failure → Interner × Process → Prop} (size : TableSize interner.capacity)
    (least : minBuckets ≤ interner.capacity) (small : 16 * interner.capacity < wordLimit)
    (rehashes : Ends (interner.table.rehashed interner.manager .interner (Entry.hash process.heap)
        (2 * interner.capacity)) process
      (fun fresh after => ∀ text, Ends (interner.manager.free interner.table.block)
        { after with journal := after.journal.log .debug Origin.interner.target text }
        (fun _ final => done () (interner.withTable fresh, final))
        fun failure final => failed failure (interner.withTable fresh, final))
      fun failure after => failed failure (interner, after)) :
    Ends grow (interner, process) done failed := by
  have grown := (grownCapacity_eq size least small).1
  unfold minBuckets at least
  have above : interner.capacity + 1 < wordLimit := by omega
  simp only [grow, Action.ends_bind, Method.ends_self, Method.ends_heap, Action.ends_add,
    if_pos above, grown, Method.ends_liftProcess, Process.ends_log, Method.ends_update]
  exact rehashes.mono (fun _ _ frees => frees _) fun _ _ denied => denied

theorem SoundIn.entries_le (sound : interner.SoundIn process) :
    (Bucket.entries interner.table.buckets).length ≤ 2 * interner.capacity := by
  have count : interner.count = (Bucket.entries interner.table.buckets).length :=
    sound.valid.count
  have load := sound.valid.load
  omega

theorem grow_ends (sound : interner.SoundIn process) :
    Ends grow (interner, process)
      (fun _ after => after.1.capacity = 2 * interner.capacity ∧
        interner.Continues interner.region.generation (interner.toList process.heap) after)
      fun failure after => after.1 = interner ∧ interner.manager.Denies after.2 failure ∧
        interner.Continues interner.region.generation (interner.toList process.heap) after := by
  have small := sound.capacity_lt
  have load := sound.valid.load
  have least := sound.valid.least
  have size := (grownCapacity_eq sound.valid.size least small).2
  apply grow_rehashes sound.valid.size least small
  unfold minBuckets at least
  refine (interner.table.rehashed_ends .interner (Entry.hash process.heap) sound.region.memory size
    sound.entries_le).mono ?_ ?_
  · intro fresh after ends text
    rcases ends with ⟨granted, replaces⟩
    have logged (journal : Journal) :=
      granted.evolves.trans (Process.evolves_journal granted.evolves.sound journal)
    have holds (journal : Journal) :=
      (Process.evolves_journal granted.evolves.sound journal).held _ _ _ List.not_mem_nil
        granted.holds
    refine (Manager.free_ends (logged _).sound
      ((logged _).held _ _ _ List.not_mem_nil sound.table)).mono ?_ fun _ _ none => none.elim
    intro _ final evolves
    refine ⟨replaces.capacity, sound.replaced ((logged _).trans evolves) granted.fresh ?_ replaces
      size ?_ ?_⟩
    · apply evolves.held _ _ _ ?_ (holds _)
      intro same
      exact sound.table.ne_of_fresh granted.fresh (List.mem_singleton.mp same).symm
    · unfold minBuckets
      omega
    · omega
  · intro failure after ends
    rcases ends with ⟨evolves, denies⟩
    exact ⟨rfl, denies, sound.evolves evolves⟩

/-- There is always a vacancy in an interner that is in order, so none grows for want of one. -/
theorem vacancy_ends (valid : interner.Valid process.heap) (hash : UInt64) (fuel : Nat) :
    Ends (vacancy hash (fuel + 1)) (interner, process)
      (fun index after => after = (interner, process) ∧
        interner.table.buckets[index]? = some .empty ∧
        Reached interner.table.buckets hash index) fun _ _ => False := by
  rcases firstEmpty_some hash valid.size (Bucket.exists_empty valid.room) with
    ⟨index, found, empty, reached⟩
  simp only [vacancy, Action.ends_bind, Method.ends_self, Action.ends_liftFault, found,
    Action.ends_pure]
  exact ⟨trivial, empty, reached⟩

/-- An entry that is written but not yet in a bucket. -/
structure Stored (interner : Interner) (records : List Record) (content : List UInt8)
    (hash : UInt64) (value : List UInt8) (entry : Pointer) (after : Interner × Process) : Prop where
  table : after.1.table = interner.table
  count : after.1.count = interner.count
  continues : interner.Continues interner.region.generation records after
  hash : Entry.hash after.2.heap entry = hash
  content : after.1.content after.2.heap entry = content
  value : Entry.value after.2.heap interner.value entry = interner.value.fit value
  apart : ∀ other ∈ after.1.entries,
    entry.Apart (after.1.span after.2.heap entry) other (after.1.span after.2.heap other)
  covered : after.1.region.Covers entry (after.1.span after.2.heap entry)

theorem exists_overwrites_write (memory : process.Sound) (layout : Layout) (entry : Pointer)
    (content : List UInt8) (hash : UInt64) (value : List UInt8) :
    ∃ blocks, process.Overwrites { process with
      heap := Entry.write process.heap layout entry content hash value } blocks := by
  have first := Process.overwrites_write memory entry (Word.toBytes hash)
  have second := Process.overwrites_write first.sound (entry.plus 8)
    (Word.toBytes content.length.toUInt64)
  have third := Process.overwrites_write second.sound (entry.plus (Entry.valueOffset layout)) value
  have fourth := Process.overwrites_write third.sound (entry.plus (Entry.header layout).size) content
  exact ⟨_, first.trans (second.trans (third.trans fourth))⟩

section Taken

variable {region : Region} {layout : Layout} {place : Region.Range}
  (sound : interner.SoundIn process)
include sound

theorem SoundIn.apart_taken (takes : interner.region.Takes region layout place)
    (there : region.SoundIn after) (member : entry ∈ interner.entries) :
    entry.Apart (interner.span process.heap entry) (region.pointer place) layout.size := by
  intro same
  rcases takes.apart there.owns.apart (sound.valid.covered entry member) with different | behind
  · exact absurd same different
  · exact .inl behind

/-- The bucket array lies in no chunk, also when the region has obtained another. -/
theorem SoundIn.table_apart (obtains : interner.region.Obtains region process) :
    interner.table.block ∉ region.chunks.map Chunk.block := by
  intro member
  rcases obtains _ member with old | fresh
  · exact sound.apart old
  · exact sound.table.ne_of_fresh fresh rfl

theorem SoundIn.stored (value : List UInt8) (fits : content.length < wordLimit)
    (takes : interner.region.Takes region
      { size := (Entry.header interner.value).size + content.length
        align := (Entry.header interner.value).align } place)
    (there : region.SoundIn after) (evolves : process.Evolves after [])
    (obtains : interner.region.Obtains region process) :
    interner.Stored (interner.toList process.heap) content hash value (region.pointer place)
      ({ interner with region }, { after with
        heap := Entry.write after.heap interner.value (region.pointer place) content hash
          (interner.value.fit value) }) := by
  have positive := sound.positive
  have size := Layout.length_fit interner.value value
  have covers := takes.covers
  have present := there.present covers.mem_blocks
  have span : Entry.span (Entry.write after.heap interner.value (region.pointer place) content hash
      (interner.value.fit value)) interner.value (region.pointer place) =
      (Entry.header interner.value).size + content.length := by
    rw [Entry.span, Entry.length_write present positive size fits]
  have keeps : ∀ other ∈ interner.entries, process.heap.Keeps
      (Entry.write after.heap interner.value (region.pointer place) content hash
        (interner.value.fit value)) other (interner.span process.heap other) := by
    intro other member
    exact (sound.keeps evolves (fun _ _ => List.not_mem_nil) member).trans
      (Entry.keeps_write (sound.apart_taken takes there member) positive size)
  rcases exists_overwrites_write there.memory interner.value (region.pointer place) content hash
      (interner.value.fit value) with ⟨blocks, overwrites⟩
  have valid := (sound.valid.inRegion fun other member =>
    takes.keeps (sound.valid.covered other member)).keeps positive keeps
  have manager := takes.manager_eq.trans sound.manager
  have table := overwrites.held _ _ _ (evolves.held _ _ _ List.not_mem_nil sound.table)
  constructor
  · rfl
  · rfl
  · refine ⟨⟨there.overwrites overwrites, valid, manager, table, sound.table_apart obtains,
      sound.align⟩, rfl, rfl, rfl, takes.id_eq, takes.generation_eq, ?_⟩
    rw [toList_inRegion takes.id_eq takes.generation_eq, toList_keeps positive keeps]
  · exact Entry.hash_write present positive size
  · exact Entry.bytes_write present positive size fits
  · exact Entry.value_write present size
  · intro other member
    have far := (sound.apart_taken takes there member).symm
    rw [Interner.span, Interner.span, span, Entry.span_keeps (keeps other member) positive]
    exact far
  · rw [Interner.span, span]
    exact covers

end Taken

theorem Continues.moved {current : Nat} {records : List Record}
    (continues : interner.Continues interner.region.generation records (interner, after))
    (there : (interner.region.moved current).SoundIn after) :
    interner.Continues interner.region.generation records
      ({ interner with region := interner.region.moved current }, after) where
  sound :=
    { region := there
      valid := continues.sound.valid.inRegion continues.sound.valid.covered
      manager := continues.sound.manager
      table := continues.sound.table
      apart := continues.sound.apart
      align := continues.sound.align }
  manager := rfl
  hasher := rfl
  value := rfl
  id := rfl
  generation := rfl
  records := continues.records

theorem storeEntry_ends (value : List UInt8) (sound : interner.SoundIn process) :
    Ends (storeEntry content hash value) (interner, process)
      (interner.Stored (interner.toList process.heap) content hash value)
      fun failure after => interner.manager.Denies after.2 failure ∧
        interner.Continues interner.region.generation (interner.toList process.heap) after := by
  simp only [storeEntry, Action.ends_bind, Method.ends_self, Word.add?]
  by_cases fits : (Entry.header interner.value).size + content.length < wordLimit
  · simp only [if_pos fits, ofRegion, Action.ends_bind, Method.ends_ofPart]
    apply (Region.allocate_ends _ sound.region).mono
    · intro place last ends
      rcases last with ⟨region, after⟩
      rcases ends with ⟨takes, there, evolves, obtains⟩
      simp only [Method.ends_self, Method.ends_liftProcess]
      rw [Entry.ends_store sound.positive (Layout.length_fit _ _) (there.covers takes.covers)]
      exact sound.stored value (Nat.lt_of_le_of_lt (Nat.le_add_left _ _) fits) takes there evolves
        obtains
    · intro failure last ends
      rcases last with ⟨region, after⟩
      rcases ends with ⟨⟨current, moved⟩, there, evolves, refuses⟩
      simp only at moved there
      subst moved
      refine ⟨?_, (sound.evolves evolves).moved there⟩
      rcases refuses with ⟨-, crooked⟩ | denies
      · have power := Entry.isPowerOfTwo_header sound.align
        rw [crooked] at power
        cases power
      · rwa [sound.manager] at denies
  · simp only [if_neg fits, Action.ends_fail]
    exact ⟨.inl ⟨_, rfl⟩, sound.continues⟩

theorem Continues.lacks {later : Interner × Process} {generation : Nat}
    (lacks : interner.Lacks process.heap content)
    (continues : interner.Continues generation (interner.toList process.heap) later) :
    later.1.Lacks later.2.heap content := by
  apply lacks_of_holding
  rw [continues.sound.valid.distinct_toList.holding_perm continues.records]
  exact holding_of_lacks lacks

theorem Stored.entered {index : Nat} {value : List UInt8} {later : Interner × Process}
    (stored : interner.Stored (interner.toList process.heap) content
      (interner.hasher content) value entry later)
    (lacks : interner.Lacks process.heap content)
    (empty : interner.table.buckets[index]? = some .empty)
    (reached : Reached interner.table.buckets (interner.hasher content) index)
    (load : 4 * (interner.count + 1) ≤ 3 * interner.capacity) :
    interner.Continues interner.region.generation (interner.toList process.heap ++
        [(later.1.symbol entry, content, interner.value.fit value)])
      (later.1.withEntry index entry, later.2) := by
  rcases later with ⟨later, after⟩
  rcases stored with ⟨table, count, continues, hash, same, value, apart, covered⟩
  simp only at table count hash same value apart covered
  have sound : later.SoundIn after := continues.sound
  have hasher : later.hasher = interner.hasher := continues.hasher
  have layout : later.value = interner.value := continues.value
  have capacity : later.capacity = interner.capacity := congrArg BucketArray.capacity table
  rw [← table] at empty reached
  refine ⟨⟨sound.region, ?_, sound.manager, ?_, sound.apart, sound.align⟩, continues.manager,
    hasher, layout, continues.id, continues.generation, ?_⟩
  · apply valid_withEntry empty sound.valid
    · rw [same]
      exact continues.lacks lacks
    · rw [hash, same, hasher]
    · rw [hash]
      exact reached
    · exact apart
    · exact covered
    · rw [count, capacity]
      exact load
  · rw [capacity_withEntry]
    exact sound.table
  · apply (toList_withEntry empty after.heap entry).trans
    rw [same, layout, value]
    exact continues.records.append_right _

theorem insertNew_ends (value : List UInt8) (sound : interner.SoundIn process)
    (lacks : interner.Lacks process.heap content)
    (load : 4 * (interner.count + 1) ≤ 3 * interner.capacity) :
    Ends (insertNew content (interner.hasher content) value) (interner, process)
      (fun symbol after => interner.Continues interner.region.generation
        (interner.toList process.heap ++ [(symbol, content, interner.value.fit value)]) after)
      fun failure after => interner.manager.Denies after.2 failure ∧
        interner.Continues interner.region.generation (interner.toList process.heap) after := by
  have small := sound.capacity_lt
  have next : interner.count + 1 < wordLimit := by omega
  refine (vacancy_ends sound.valid (interner.hasher content) maxGrowths).bind
    (fun _ _ none => none.elim) ?_
  intro index _ ends
  rcases ends with ⟨rfl, empty, reached⟩
  apply (storeEntry_ends value sound).bind (fun _ _ denied => denied)
  intro entry last stored
  rcases last with ⟨later, after⟩
  have counted : later.count + 1 < wordLimit := by
    rw [stored.count]
    exact next
  simp only [Action.ends_bind, Method.ends_self, Action.ends_liftFault, Word.add, if_pos counted,
    Method.ends_update, Action.ends_pure]
  exact stored.entered lacks empty reached load

theorem Continues.count {later : Interner × Process} {generation : Nat}
    (valid : interner.Valid process.heap)
    (continues : interner.Continues generation (interner.toList process.heap) later) :
    later.1.count = interner.count := by
  calc
    later.1.count = (later.1.toList later.2.heap).length :=
      continues.sound.valid.length_toList.symm
    _ = (interner.toList process.heap).length := continues.records.length_eq
    _ = interner.count := valid.length_toList

theorem insertGrown_ends (value : List UInt8) (sound : interner.SoundIn process)
    (lacks : interner.Lacks process.heap content) :
    Ends (do grow; insertNew content (interner.hasher content) value) (interner, process)
      (fun symbol after => interner.Continues interner.region.generation
        (interner.toList process.heap ++ [(symbol, content, interner.value.fit value)]) after)
      fun failure after => interner.manager.Denies after.2 failure ∧
        interner.Continues interner.region.generation (interner.toList process.heap) after := by
  have load := sound.valid.load
  have least := sound.valid.least
  unfold minBuckets at least
  apply (grow_ends sound).bind (fun _ _ failed => failed.2)
  intro _ last ends
  rcases last with ⟨grown, after⟩
  rcases ends with ⟨doubled, continues⟩
  have there : grown.SoundIn after := continues.sound
  have hasher : grown.hasher = interner.hasher := continues.hasher
  have layout : grown.value = interner.value := continues.value
  have manager : grown.manager = interner.manager := continues.manager
  have generation : grown.region.generation = interner.region.generation := continues.generation
  have count : grown.count = interner.count := continues.count sound.valid
  have capacity : grown.capacity = 2 * interner.capacity := doubled
  have inserts := insertNew_ends value there (continues.lacks lacks) (by omega)
  rw [hasher, layout, manager, generation] at inserts
  apply inserts.mono
  · intro symbol final inserted
    exact continues.trans inserted (continues.records.append_right _)
  · intro failure final ends
    rcases ends with ⟨denies, kept⟩
    exact ⟨denies, continues.trans kept continues.records⟩

/-- Inserting bytes answers what was there, or puts them in. Only new bytes can fail. -/
theorem insert_ends (content value : List UInt8) (sound : interner.SoundIn process) :
    Ends (insert content value) (interner, process)
      (fun answer after => ∃ fresh,
        answer = (put fresh content (interner.value.fit value) (interner.toList process.heap)).1 ∧
        interner.Continues interner.region.generation
          (put fresh content (interner.value.fit value) (interner.toList process.heap)).2 after)
      fun failure after => holding (interner.toList process.heap) content = none ∧
        interner.manager.Denies after.2 failure ∧
        interner.Continues interner.region.generation (interner.toList process.heap) after := by
  simp only [insert, Action.ends_bind, Method.ends_self, Method.ends_heap, Action.ends_liftFault]
  rcases find_cases sound.valid content with ⟨entry, member, found, same⟩ | ⟨missed, lacks⟩
  · have known := holding_of_content sound.valid member same
    rw [find] at found
    simp only [found, Action.ends_pure, put, known]
    exact ⟨interner.symbol entry, trivial, sound.continues⟩
  · have absent := holding_of_lacks lacks
    have small := sound.capacity_lt
    have load := sound.valid.load
    have least := sound.valid.least
    unfold minBuckets at least
    have next : interner.count + 1 < wordLimit := by omega
    rw [find] at missed
    simp only [missed, Action.ends_bind, Action.ends_liftFault, Word.add, if_pos next, put, absent]
    split
    · rw [← bind_assoc]
      exact (insertGrown_ends value sound lacks).bind (fun _ _ failed => ⟨trivial, failed⟩)
        fun symbol _ continues => ⟨symbol, rfl, continues⟩
    · rename_i light
      have light := load_of_not_overloaded small light
      exact (insertNew_ends value sound lacks light).bind (fun _ _ failed => ⟨trivial, failed⟩)
        fun symbol _ continues => ⟨symbol, rfl, continues⟩

theorem SoundIn.header_covers (sound : interner.SoundIn process)
    (member : entry ∈ interner.entries) :
    process.heap.covers entry (Entry.header interner.value).size = true := by
  have whole := sound.region.covers (sound.valid.covered entry member)
  have start : process.heap.covers (entry.plus 0) (Entry.header interner.value).size = true :=
    Heap.covers_plus whole (by unfold span Entry.span; omega)
  exact start

section Revalue

variable {stored : List UInt8} (sound : interner.SoundIn process)
  (member : entry ∈ interner.entries) (size : stored.length = interner.value.size)
include sound member size

theorem keeps_writeValue {other : Pointer} (there : other ∈ interner.entries)
    (different : other ≠ entry) :
    process.heap.Keeps (Entry.writeValue process.heap interner.value entry stored) other
      (interner.span process.heap other) := by
  have inside := Entry.value_inside interner.value
  have symmetric : Std.Symm fun first second : Pointer =>
      first.Apart (interner.span process.heap first) second (interner.span process.heap second) :=
    ⟨fun _ _ far => far.symm⟩
  have far := sound.valid.apart.forall there member different
  refine Heap.keeps_write (far.part ?_)
  rw [size, Interner.span, Entry.span]
  omega

theorem alike_writeValue {other : Pointer} (there : other ∈ interner.entries) :
    interner.Alike process.heap (Entry.writeValue process.heap interner.value entry stored)
      other := by
  have positive := sound.positive
  by_cases same : other = entry
  · subst same
    exact ⟨Entry.hash_writeValue positive size, Entry.length_writeValue positive size,
      Entry.bytes_writeValue positive size⟩
  · exact alike_of_keeps positive (keeps_writeValue sound member size there same)

theorem toList_writeValue :
    interner.toList (Entry.writeValue process.heap interner.value entry stored) =
      revalue (interner.symbol entry) stored (interner.toList process.heap) := by
  rw [toList_eq, toList_eq, revalue, List.map_map]
  refine List.map_congr_left fun other there => ?_
  have alike := alike_writeValue sound member size there
  by_cases same : other = entry
  · subst same
    have present := sound.region.present (sound.mem_blocks member)
    rw [alike.bytes, Entry.value_writeValue present size]
    simp
  · have kept := keeps_writeValue sound member size there same
    have apart : interner.symbol other ≠ interner.symbol entry := symbol_injective.ne same
    rw [alike.bytes, Entry.value_keeps kept]
    simp [apart]

end Revalue

theorem setValue_ends {symbol : Symbol} (value : List UInt8) (sound : interner.SoundIn process)
    (knows : interner.Knows symbol) :
    Ends (setValue symbol value) (interner, process)
      (fun answer after => answer = (behind (interner.toList process.heap) symbol).isSome ∧
        interner.Continues interner.region.generation
          (revalue symbol (interner.value.fit value) (interner.toList process.heap)) after)
      fun _ _ => False := by
  simp only [setValue, Action.ends_bind, Method.ends_self]
  have behind := behind_eq sound.valid knows
  cases resolved : interner.resolve? symbol with
  | none =>
      rw [resolved] at behind
      rw [revalue_of_absent behind, behind]
      exact ⟨rfl, sound.continues⟩
  | some entry =>
      have member := knows entry resolved
      have size := Layout.length_fit interner.value value
      have overwrites := Process.overwrites_write sound.region.memory
        (entry.plus (Entry.valueOffset interner.value)) (interner.value.fit value)
      have valid := sound.valid.alike fun _ there => alike_writeValue sound member size there
      rw [resolved] at behind
      simp only [Action.ends_bind, Method.ends_liftProcess, behind]
      rw [Entry.ends_storeValue size (sound.header_covers member)]
      refine ⟨rfl, ⟨sound.region.overwrites overwrites, valid, sound.manager,
        overwrites.held _ _ _ sound.table, sound.apart, sound.align⟩, rfl, rfl, rfl, rfl, rfl, ?_⟩
      rw [resolve?_eq_some.mp resolved, ← toList_writeValue sound member size]

theorem SoundIn.emptied {region : Region} (sound : interner.SoundIn process)
    (there : region.SoundIn after) (overwrites : process.Overwrites after freed)
    (id : region.id = interner.region.id) (manager : region.manager = interner.region.manager)
    (blocks : region.chunks.map Chunk.block = interner.region.chunks.map Chunk.block) :
    interner.Continues region.generation [] ({ interner.emptied with region }, after) where
  sound :=
    { region := there
      valid := (valid_emptied sound.valid.size sound.valid.least).inRegion (by simp)
      manager := manager.trans sound.manager
      table := by
        have held := overwrites.held _ _ _ sound.table
        rwa [← capacity_emptied] at held
      apart := by
        rw [blocks]
        exact sound.apart
      align := sound.align }
  manager := rfl
  hasher := rfl
  value := rfl
  id := id
  generation := rfl
  records := by
    have none : ({ interner.emptied with region } : Interner).entries = [] := entries_emptied
    rw [toList_eq, none]
    exact .refl _

theorem clear_ends (sound : interner.SoundIn process) :
    Ends clear (interner, process)
      (fun _ after => interner.Continues (interner.region.generation + 1) [] after)
      fun _ _ => wordLimit ≤ interner.region.generation + 1 := by
  simp only [clear, ofRegion, Action.ends_bind, Method.ends_ofPart]
  apply (Region.reset_ends sound.region).mono ?_ fun _ _ last => last.1
  intro _ last ends
  rcases last with ⟨region, after⟩
  rcases ends with ⟨rewound, there, overwrites⟩
  simp only at rewound there overwrites
  subst rewound
  simp only [Method.ends_update, Method.ends_self, Method.ends_liftProcess, Process.ends_log]
  exact sound.emptied (there.evolves (Process.evolves_journal there.memory _))
    (overwrites.logged _) rfl rfl Region.blocks_rewound

theorem create_ends {manager : Manager} (requested : Nat) {value : Layout}
    (hasher : List UInt8 → UInt64) (memory : process.Sound)
    (align : isPowerOfTwo value.align = true) :
    Ends (create manager requested value hasher) process
      (fun interner after => interner.SoundIn after ∧ interner.manager = manager ∧
        interner.value = value ∧ interner.hasher = hasher ∧ interner.entries = [] ∧
        interner.region.generation = 0)
      fun _ _ => True := by
  rw [create, Action.ends_bind, Action.ends_require]
  split
  · apply (Region.create_ends Region.defaultChunkSize memory).bind (fun _ _ _ => trivial)
    intro region after ends
    rcases ends with ⟨there, owner, none, first, -, evolves⟩
    have unowned : region.chunks.map Chunk.block = [] := by simp [none]
    rw [Action.ends_bind, Action.ends_onFailure, Action.ends_bind, Action.ends_liftFault]
    cases counted : bucketCount requested with
    | error cause => exact Action.ends_trivial _ _
    | ok capacity =>
        rcases tableSize_bucketCount counted with ⟨size, least⟩
        refine (BucketArray.create_ends capacity there.memory).mono ?_
          fun _ _ _ => Action.ends_trivial _ _
        intro table granted ends
        rcases ends with ⟨grants, empty⟩
        apply (Manager.retain_ends grants.evolves.sound).bind (fun _ _ none => none.elim)
        intro _ final ends
        rcases ends with ⟨retained, -⟩
        have whole := BucketArray.capacity_of_replicate empty
        have holds := retained.held _ _ _ List.not_mem_nil grants.holds
        have regionThere := (there.evolves grants.evolves).evolves retained
        refine ⟨⟨regionThere, valid_unused size least rfl empty, owner, ?_, ?_, align⟩, rfl, rfl,
          rfl, ?_, first⟩
        · show manager.Holds final table.block (_ * table.capacity)
          rw [whole]
          exact holds
        · show table.block ∉ region.chunks.map Chunk.block
          rw [unowned]
          exact List.not_mem_nil
        · show Bucket.entries table.buckets = []
          simp [empty]
  · trivial

end Interner

end SymbolStore
