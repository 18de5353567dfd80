import SymbolStore.Proofs.Bucket.Stocked
import SymbolStore.Proofs.Interner.Operations
import SymbolStore.Proofs.Region.Stocked

/-!
Interners and the accounts of their blocks. Whatever an interner does, its buckets and the chunks of
its region are exactly the blocks that it has, whichever hashes and values it works with.
-/

namespace SymbolStore

open SymbolStore.Action (Ends)

namespace Interner

/-- The blocks of an interner: its buckets, and the chunks of its region. -/
def holdings (interner : Interner) : Multiset Extent :=
  interner.table.extent interner.manager ::ₘ interner.region.holdings

/-- The interner is in order as far as its blocks go, and has them. -/
structure Stocked (interner : Interner) (process : Process) (account : Account) : Prop where
  size : TableSize interner.capacity
  least : minBuckets ≤ interner.capacity
  region : interner.region.Valid
  manager : interner.region.manager = interner.manager
  inside : ∀ entry ∈ interner.entries, entry.block ∈ interner.region.chunks.map Chunk.block
  houses : process.Houses interner.holdings account

structure Same (interner after : Interner) : Prop where
  manager : after.manager = interner.manager
  region : interner.region.Same after.region
  hasher : after.hasher = interner.hasher
  value : after.value = interner.value
  blocks : interner.region.chunks.map Chunk.block ⊆ after.region.chunks.map Chunk.block

structure Keeps (interner : Interner) (account : Account) (after : Interner × Process) :
    Prop where
  same : interner.Same after.1
  stocked : after.1.Stocked after.2 account

def Spares (interner : Interner) (account : Account) (failure : Failure)
    (after : Interner × Process) : Prop :=
  failure.isMisuse = false ∧ interner.Keeps account after

/-- The symbol names the interner and a place in its region. -/
structure Issues (interner : Interner) (symbol : Symbol) : Prop where
  id : symbol.interner = interner.region.id
  inside : symbol.entry.block ∈ interner.region.chunks.map Chunk.block

variable {interner middle : Interner} {process : Process} {account : Account} {content : List UInt8}
  {hash : UInt64} {entry : Pointer} {symbol : Symbol}

theorem Same.refl (interner : Interner) : interner.Same interner :=
  ⟨rfl, ⟨rfl, rfl⟩, rfl, rfl, List.Subset.refl _⟩

theorem Same.trans {last : Interner} (first : interner.Same middle) (second : middle.Same last) :
    interner.Same last where
  manager := second.manager.trans first.manager
  region := ⟨second.region.id.trans first.region.id,
    second.region.manager.trans first.region.manager⟩
  hasher := second.hasher.trans first.hasher
  value := second.value.trans first.value
  blocks := List.Subset.trans first.blocks second.blocks

theorem Keeps.trans {last : Interner × Process} (first : interner.Same middle)
    (second : middle.Keeps account last) : interner.Keeps account last :=
  ⟨first.trans second.same, second.stocked⟩

theorem Spares.trans {last : Interner × Process} {failure : Failure} (first : interner.Same middle)
    (second : middle.Spares account failure last) : interner.Spares account failure last :=
  ⟨second.1, second.2.trans first⟩

theorem Stocked.keeps (stocked : interner.Stocked process account) :
    interner.Keeps account (interner, process) := ⟨.refl interner, stocked⟩

theorem Issues.mono {after : Interner} (issues : interner.Issues symbol)
    (same : interner.Same after) : after.Issues symbol :=
  ⟨issues.id.trans same.region.id.symm, same.blocks issues.inside⟩

theorem Stocked.issues (stocked : interner.Stocked process account)
    (member : entry ∈ interner.entries) : interner.Issues (interner.symbol entry) :=
  ⟨rfl, stocked.inside entry member⟩

theorem mem_holdings {block : Nat} (member : block ∈ interner.region.chunks.map Chunk.block) :
    block ∈ interner.holdings.map Extent.address := by
  rw [holdings, Multiset.map_cons]
  exact Multiset.mem_cons_of_mem (Region.mem_holdings member)

theorem Stocked.capacity_lt (stocked : interner.Stocked process account) :
    16 * interner.capacity < wordLimit :=
  BucketArray.capacity_lt_of_houses stocked.houses

/-- The region has an account of its own, and what becomes of it there becomes of the interner. -/
theorem Stocked.frame (stocked : interner.Stocked process account) :
    ∃ others : Account, others.holders = account.holders ∧
      interner.region.Stocked process others ∧
      ∀ (region : Region) (after : Process), interner.region.Same region →
        interner.region.chunks.map Chunk.block ⊆ region.chunks.map Chunk.block →
        region.Stocked after others →
        interner.Keeps account ({ interner with region }, after) := by
  have houses := stocked.houses
  rw [holdings, ← Multiset.singleton_add, add_comm] at houses
  obtain ⟨aside, table, houses⟩ := houses.frame
  refine ⟨{ account with kept := aside + account.kept }, rfl, ⟨stocked.region, houses⟩, ?_⟩
  intro region after same blocks there
  have whole := there.houses.unframe
  rw [table, add_comm, Multiset.singleton_add] at whole
  exact
    { same := ⟨rfl, same, rfl, rfl, blocks⟩
      stocked :=
        { size := stocked.size
          least := stocked.least
          region := there.valid
          manager := same.manager.trans stocked.manager
          inside := fun entry member => blocks (stocked.inside entry member)
          houses := whole } }

theorem Stocked.soundIn (stocked : interner.Stocked process account)
    (valid : interner.Valid process.heap) (align : isPowerOfTwo interner.value.align = true) :
    interner.SoundIn process := by
  obtain ⟨others, -, there, -⟩ := stocked.frame
  have houses := stocked.houses
  have distinct := houses.distinct
  rw [holdings, Multiset.map_cons, Multiset.nodup_cons] at distinct
  exact
    { region := there.soundIn
      valid
      manager := stocked.manager
      table := houses.held (Multiset.mem_cons_self _ _)
      apart := fun member => distinct.1 (Region.mem_holdings member)
      align }

theorem Stocked.withTable {table : BucketArray Pointer} {after : Process}
    (stocked : interner.Stocked process account) (size : TableSize table.capacity)
    (least : minBuckets ≤ table.capacity)
    (inside : ∀ entry ∈ Bucket.entries table.buckets,
      entry.block ∈ interner.region.chunks.map Chunk.block)
    (houses : after.Houses (table.extent interner.manager ::ₘ interner.region.holdings) account) :
    interner.Keeps account (interner.withTable table, after) where
  same := ⟨rfl, ⟨rfl, rfl⟩, rfl, rfl, List.Subset.refl _⟩
  stocked :=
    { size := size
      least := least
      region := stocked.region
      manager := stocked.manager
      inside := inside
      houses := houses }

theorem grow_keeps (stocked : interner.Stocked process account)
    (holder : interner.manager ∈ account.holders) :
    Ends grow (interner, process) (fun _ after => interner.Keeps account after)
      (interner.Spares account) := by
  have quiet : Level.debug ≠ .warn := by decide
  have small := stocked.capacity_lt
  have least := stocked.least
  have size := (grownCapacity_eq stocked.size least small).2
  apply grow_rehashes stocked.size least small
  unfold minBuckets at least
  apply (BucketArray.rehashed_houses interner.table .interner (Entry.hash process.heap) size
    (Nat.le_mul_of_pos_left _ (by decide)) stocked.houses holder).mono
  · intro fresh after ends text
    obtain ⟨replaces, houses⟩ := ends
    rw [holdings, Multiset.cons_swap] at houses
    refine (houses.logged quiet _ _).free.mono ?_ fun _ _ none => none.elim
    intro _ final left
    apply stocked.withTable (replaces.capacity ▸ size) ?_ ?_ left
    · rw [replaces.capacity]
      unfold minBuckets
      omega
    · intro entry member
      exact stocked.inside entry (replaces.entries.mem_iff.mp member)
  · intro failure after spares
    exact ⟨spares.1, .refl interner, { stocked with houses := spares.2 }⟩

theorem vacancy_keeps (hash : UInt64) (fuel : Nat) (stocked : interner.Stocked process account)
    (holder : interner.manager ∈ account.holders) :
    Ends (vacancy hash fuel) (interner, process) (fun _ after => interner.Keeps account after)
      (interner.Spares account) := by
  induction fuel generalizing interner process with
  | zero => exact ⟨rfl, stocked.keeps⟩
  | succ fuel ih =>
      have searched := firstEmpty_eq_find hash stocked.size
      simp only [vacancy, Action.ends_bind, Method.ends_self, Action.ends_liftFault, searched]
      split
      · exact stocked.keeps
      · rw [Action.ends_bind]
        apply (grow_keeps stocked holder).mono ?_ fun _ _ spares => spares
        intro _ after keeps
        rw [← keeps.same.manager] at holder
        exact (ih keeps.stocked holder).mono (fun _ _ later => later.trans keeps.same)
          fun _ _ spares => spares.trans keeps.same

theorem store_houses {extents : Multiset Extent} (houses : process.Houses extents account)
    (own : entry.block ∈ extents.map Extent.address) (layout : Layout) (content : List UInt8)
    (hash : UInt64) (value : List UInt8) :
    Ends (Entry.store layout entry content hash value) process
      (fun _ after => after.Houses extents account) (Process.Spares extents account) := by
  have part {before : Process} (houses : before.Houses extents account) (distance : Nat)
      (values : List UInt8) :
      Ends (Process.store (entry.plus distance) values) before
        (fun _ after => after.Houses extents account) (Process.Spares extents account) := by
    apply (houses.store (show (entry.plus distance).block ∈ _ from own)).mono fun _ _ left => left
    rintro _ _ ⟨rfl, rfl, -⟩
    exact ⟨rfl, houses⟩
  rw [Entry.store]
  apply (part houses 0 _).bind fun _ _ spares => spares
  intro _ _ houses
  apply (part houses 8 _).bind fun _ _ spares => spares
  intro _ _ houses
  apply (part houses (Entry.valueOffset layout) value).bind fun _ _ spares => spares
  exact fun _ _ houses => part houses (Entry.header layout).size content

theorem storeEntry_keeps (value : List UInt8) (stocked : interner.Stocked process account)
    (holder : interner.manager ∈ account.holders) :
    Ends (storeEntry content hash value) (interner, process)
      (fun entry after => interner.Keeps account after ∧
        entry.block ∈ after.1.region.chunks.map Chunk.block)
      (interner.Spares account) := by
  obtain ⟨others, holders, there, back⟩ := stocked.frame
  simp only [storeEntry, Action.ends_bind, Method.ends_self]
  cases Word.add? (Entry.header interner.value).size content.length with
  | none => exact ⟨rfl, stocked.keeps⟩
  | some size =>
      rw [← stocked.manager, ← holders] at holder
      simp only [ofRegion, Action.ends_bind, Method.ends_ofPart]
      apply (Region.allocate_stocked _ there holder).mono
      · intro place last ends
        obtain ⟨region, after⟩ := last
        obtain ⟨takes, -, granted⟩ := ends
        have keeps := back region after takes.same takes.blocks granted
        have inside : (region.pointer place).block ∈ region.chunks.map Chunk.block :=
          takes.covers.mem_blocks
        simp only [Method.ends_self, Method.ends_liftProcess]
        apply (store_houses keeps.stocked.houses (mem_holdings inside) _ _ _ _).mono
        · exact fun _ _ left => ⟨⟨keeps.same, { keeps.stocked with houses := left }⟩, inside⟩
        · rintro failure _ ⟨blameless, left⟩
          exact ⟨blameless, keeps.same, { keeps.stocked with houses := left }⟩
      · intro failure last ends
        obtain ⟨region, after⟩ := last
        obtain ⟨blameless, ⟨current, rfl⟩, -, left⟩ := ends
        exact ⟨blameless, back _ after ⟨rfl, rfl⟩ (List.Subset.refl _) left⟩

theorem Stocked.entered (stocked : interner.Stocked process account)
    (inside : entry.block ∈ interner.region.chunks.map Chunk.block) (index count : Nat) :
    interner.Keeps account
      ({ interner with table := interner.table.put index (.occupied entry), count }, process) where
  same := ⟨rfl, ⟨rfl, rfl⟩, rfl, rfl, List.Subset.refl _⟩
  stocked :=
    { size := by
        rw [capacity, BucketArray.capacity_put]
        exact stocked.size
      least := by
        rw [capacity, BucketArray.capacity_put]
        exact stocked.least
      region := stocked.region
      manager := stocked.manager
      inside := by
        intro other member
        obtain ⟨j, stored⟩ := mem_entries.mp member
        rcases Bucket.set_cases stored with ⟨-, new⟩ | old
        · cases new
          exact inside
        · exact stocked.inside other (mem_entries.mpr ⟨j, old⟩)
      houses := by
        rw [holdings, BucketArray.extent_put]
        exact stocked.houses }

theorem insertNew_keeps (hash : UInt64) (value : List UInt8)
    (stocked : interner.Stocked process account) (holder : interner.manager ∈ account.holders) :
    Ends (insertNew content hash value) (interner, process)
      (fun symbol after => interner.Keeps account after ∧ after.1.Issues symbol)
      (interner.Spares account) := by
  apply (vacancy_keeps hash _ stocked holder).bind (fun _ _ spares => spares)
  intro index first grown
  rw [← grown.same.manager] at holder
  apply (storeEntry_keeps value grown.stocked holder).bind
    (fun _ _ spares => spares.trans grown.same)
  intro entry last ends
  obtain ⟨later, after⟩ := last
  obtain ⟨stored, inside⟩ := ends
  have whole := stored.trans grown.same
  simp only [Action.ends_bind, Method.ends_self, Action.ends_liftFault]
  cases counted : Word.add later.count 1 with
  | ok count => exact ⟨(whole.stocked.entered inside index count).trans whole.same, rfl, inside⟩
  | error cause => exact ⟨Word.isMisuse_add counted, whole⟩

theorem Stocked.findHashed_cases (stocked : interner.Stocked process account) (content : List UInt8)
    (hash : UInt64) :
    ∃ found, interner.findHashed process.heap content hash = .ok found ∧
      ∀ entry ∈ found, entry ∈ interner.entries := by
  rcases search_total hash (Entry.holds process.heap interner.value content hash) stocked.size with
    ⟨outcome, searched⟩
  simp only [findHashed, searched, bind, Except.bind]
  split
  · rename_i index _
    refine ⟨_, rfl, ?_⟩
    intro entry member
    obtain ⟨bucket, present, holds⟩ := Option.bind_eq_some_iff.mp member
    cases bucket <;> cases holds
    exact mem_entries.mpr ⟨index, present⟩
  · exact ⟨none, rfl, by simp⟩

theorem Stocked.find_cases (stocked : interner.Stocked process account) (content : List UInt8) :
    ∃ found, interner.find process.heap content = .ok found ∧
      ∀ entry ∈ found, entry ∈ interner.entries :=
  stocked.findHashed_cases content (interner.hasher content)

theorem Stocked.lookup_cases (stocked : interner.Stocked process account) (content : List UInt8) :
    ∃ found, interner.lookup process.heap content = .ok found ∧
      ∀ symbol ∈ found, interner.Issues symbol := by
  obtain ⟨found, searched, inside⟩ := stocked.find_cases content
  refine ⟨found.map interner.symbol, ?_, ?_⟩
  · simp only [lookup, searched, bind, Except.bind, pure, Except.pure]
  · intro symbol member
    obtain ⟨entry, there, rfl⟩ := Option.mem_map.mp member
    exact stocked.issues (inside entry there)

theorem insert_keeps (content value : List UInt8) (stocked : interner.Stocked process account)
    (holder : interner.manager ∈ account.holders) :
    Ends (insert content value) (interner, process)
      (fun answer after => interner.Keeps account after ∧ after.1.Issues answer.1)
      (interner.Spares account) := by
  rcases stocked.findHashed_cases content (interner.hasher content) with ⟨found, searched, inside⟩
  simp only [insert, Action.ends_bind, Method.ends_self, Method.ends_heap, Action.ends_liftFault,
    searched]
  cases found with
  | some entry => exact ⟨stocked.keeps, stocked.issues (inside entry rfl)⟩
  | none =>
      simp only [Action.ends_bind, Action.ends_liftFault]
      cases counted : Word.add interner.count 1 with
      | error cause => exact ⟨Word.isMisuse_add counted, stocked.keeps⟩
      | ok used =>
          dsimp only
          split
          · simp only [Action.ends_bind, Action.ends_pure]
            apply (grow_keeps stocked holder).mono ?_ fun _ _ spares => spares
            intro _ after grown
            rw [← grown.same.manager] at holder
            apply (insertNew_keeps (interner.hasher content) value grown.stocked holder).mono
            · intro symbol last ends
              exact ⟨ends.1.trans grown.same, ends.2⟩
            · intro failure last spares
              exact spares.trans grown.same
          · simp only [Action.ends_bind, Action.ends_pure]
            exact insertNew_keeps (interner.hasher content) value stocked holder

theorem setValue_keeps (value : List UInt8) (stocked : interner.Stocked process account)
    (issued : symbol.interner = interner.region.id → interner.Issues symbol) :
    Ends (setValue symbol value) (interner, process)
      (fun _ after => after.1 = interner ∧ interner.Stocked after.2 account)
      fun failure after => failure = .refused .outsideBlock ∧ after = (interner, process) := by
  simp only [setValue, Action.ends_bind, Method.ends_self]
  cases resolved : interner.resolve? symbol with
  | none => exact ⟨rfl, stocked⟩
  | some entry =>
      have same := resolve?_eq_some.mp resolved
      have inside := (issued (by rw [same]; rfl)).inside
      rw [same] at inside
      simp only [Action.ends_bind, Method.ends_liftProcess]
      apply (stocked.houses.store (mem_holdings (show (entry.plus _).block ∈ _ from inside))).mono
      · exact fun _ _ left => ⟨rfl, { stocked with houses := left }⟩
      · rintro _ _ ⟨rfl, rfl, -⟩
        exact ⟨rfl, rfl⟩

theorem Stocked.emptied (stocked : interner.Stocked process account) :
    interner.Keeps account (interner.emptied, process) where
  same := ⟨rfl, ⟨rfl, rfl⟩, rfl, rfl, List.Subset.refl _⟩
  stocked :=
    { size := by
        rw [capacity_emptied]
        exact stocked.size
      least := by
        rw [capacity_emptied]
        exact stocked.least
      region := stocked.region
      manager := stocked.manager
      inside := by
        rw [entries_emptied]
        exact nofun
      houses := by
        rw [holdings, Interner.emptied, BucketArray.extent_clear]
        exact stocked.houses }

theorem clear_keeps (stocked : interner.Stocked process account) :
    Ends clear (interner, process)
      (fun _ after => interner.Keeps account after ∧
        after.1.region.generation = interner.region.generation + 1)
      fun failure after => failure = .fault .generationsExhausted ∧
        wordLimit ≤ interner.region.generation + 1 ∧ interner.Keeps account after := by
  obtain ⟨others, -, there, back⟩ := stocked.frame
  have quiet : Level.trace ≠ .warn := by decide
  simp only [clear, ofRegion, Action.ends_bind, Method.ends_ofPart]
  apply (Region.reset_stocked there).mono
  · intro _ last ends
    obtain ⟨region, after⟩ := last
    obtain ⟨rewound, left⟩ := ends
    change region = _ at rewound
    have blocks : region.chunks.map Chunk.block = interner.region.chunks.map Chunk.block := by
      rw [rewound]
      exact Region.blocks_rewound
    have same : interner.region.Same region := by
      rw [rewound]
      exact ⟨rfl, rfl⟩
    have keeps := back region after same (fun _ member => blocks ▸ member) left
    have cleared := keeps.stocked.emptied.trans keeps.same
    simp only [Method.ends_update, Method.ends_self, Method.ends_liftProcess, Process.ends_log]
    refine ⟨⟨cleared.same, { cleared.stocked with
      houses := cleared.stocked.houses.logged quiet _ _ }⟩, ?_⟩
    rw [rewound]
  · intro failure last ends
    obtain ⟨region, after⟩ := last
    obtain ⟨rfl, exhausted, rewound, left⟩ := ends
    change region = _ at rewound
    have blocks : region.chunks.map Chunk.block = interner.region.chunks.map Chunk.block := by
      rw [rewound]
      exact Region.blocks_rewound
    have same : interner.region.Same region := by
      rw [rewound]
      exact ⟨rfl, rfl⟩
    exact ⟨rfl, exhausted, back region after same (fun _ member => blocks ▸ member) left⟩

theorem create_keeps {manager : Manager} (requested : Nat) (value : Layout)
    (hasher : List UInt8 → UInt64) (houses : process.Houses 0 account)
    (holder : manager ∈ account.holders) :
    Ends (create manager requested value hasher) process
      (fun interner after => interner.manager = manager ∧ interner.value = value ∧
        interner.hasher = hasher ∧ interner.region.id = account.nextRegion ∧
        interner.entries = [] ∧ (∀ heap, interner.Valid heap) ∧ interner.region.generation = 0 ∧
        interner.Stocked after ((account.joined manager).joined manager).numbered)
      fun failure after => failure.isMisuse = false ∧
        (after.Houses 0 account ∨ after.Houses 0 account.numbered) := by
  rw [create, Action.ends_bind, Action.ends_require]
  split
  · apply (Region.create_stocked Region.defaultChunkSize houses holder).bind
    · intro failure after failed
      exact ⟨failed.1, .inl (failed.2 ▸ houses)⟩
    · intro region after ends
      obtain ⟨valid, owner, none, id, generation, created⟩ := ends
      have discarded {last : Process} {failure : Failure}
          (spares : Process.Spares 0 (account.joined manager).numbered failure last) :
          Ends region.discard last
            (fun _ final => failure.isMisuse = false ∧
              (final.Houses 0 account ∨ final.Houses 0 account.numbered))
            fun _ final => failure.isMisuse = false ∧
              (final.Houses 0 account ∨ final.Houses 0 account.numbered) := by
        have left : last.Houses region.holdings (account.numbered.joined region.manager) := by
          rw [Region.holdings_unused none, owner]
          exact spares.2
        apply (Region.discard_stocked left).mono ?_ fun _ _ none => none.elim
        intro _ final gone
        rw [Account.parted, if_pos (owner ▸ holder)] at gone
        exact ⟨spares.1, .inr gone⟩
      rw [Action.ends_bind, Action.ends_onFailure, Action.ends_bind, Action.ends_liftFault]
      cases counted : bucketCount requested with
      | error cause =>
          exact discarded ⟨isMisuse_bucketCount counted, created⟩
      | ok capacity =>
          obtain ⟨size, least⟩ := tableSize_bucketCount counted
          apply (BucketArray.create_houses capacity created
            (Multiset.mem_cons_of_mem holder)).mono ?_ fun _ _ spares => discarded spares
          intro table granted ends
          obtain ⟨empty, housed⟩ := ends
          have whole := BucketArray.capacity_of_replicate empty
          have unused : Bucket.entries table.buckets = [] := by rw [empty, entries_replicate]
          apply (housed.retain (Multiset.mem_cons_of_mem holder)).bind (fun _ _ none => none.elim)
          intro _ last retained
          have unfilled (heap : Heap) :
              Valid { manager, region, table, hasher, value } heap :=
            valid_unused size least rfl empty
          refine ⟨rfl, rfl, rfl, id, unused, unfilled, generation, ?_⟩
          exact
            { size := (congrArg TableSize whole).mpr size
              least := (congrArg (minBuckets ≤ ·) whole).mpr least
              region := valid
              manager := owner
              inside := by
                intro entry member
                rw [entries, unused] at member
                cases member
              houses := by
                rw [holdings, Region.holdings_unused none]
                exact retained }
  · exact ⟨rfl, .inl houses⟩

theorem discard_houses (same : interner.region.manager = interner.manager)
    (houses : process.Houses interner.holdings
      ((account.joined interner.manager).joined interner.manager)) :
    Ends interner.discard process
      (fun _ after => after.Houses 0 (account.parted interner.manager)) fun _ _ => False := by
  rw [holdings, ← Multiset.singleton_add, add_comm] at houses
  rw [discard, Action.ends_bind, Region.discard, Action.ends_bind]
  apply (Region.discard_houses houses).mono ?_ fun _ _ none => none
  intro _ after left
  rw [same]
  apply (left.release_shared (Multiset.mem_cons_self _ _)).mono ?_ fun _ _ none => none
  intro _ last alone
  rw [← Multiset.cons_zero] at alone
  exact alone.free.bind (fun _ _ none => none) fun _ _ final => final.release

end Interner

end SymbolStore
