import SymbolStore.Proofs.Memory.Houses
import SymbolStore.Proofs.Region.Operations

/-!
Regions and the accounts of their blocks. Whatever a region does, its chunks are exactly the blocks
that it has, and all other blocks are kept.
-/

namespace SymbolStore

open SymbolStore.Action (Ends)

def Chunk.extent (manager : Manager) (chunk : Chunk) : Extent :=
  { manager, address := chunk.block, size := chunk.capacity }

theorem Chunk.create_houses {process : Process} {account : Account} {extents : Multiset Extent}
    {manager : Manager} (houses : process.Houses extents account)
    (holder : manager ∈ account.holders) (capacity : Nat) :
    Ends (create manager capacity) process
      (fun chunk after =>
        chunk.used = 0 ∧ after.Houses (chunk.extent manager ::ₘ extents) account)
      (Process.Spares extents account) := by
  have quiet : Level.debug ≠ .warn := by decide
  rw [create]
  apply (houses.allocate holder _).bind (fun _ _ spares => spares)
  intro block after houses
  rw [Action.ends_bind, Process.ends_log, Action.ends_pure]
  exact ⟨rfl, houses.logged quiet Origin.region.target _⟩

namespace Region

def holdings (region : Region) : Multiset Extent :=
  (region.chunks : Multiset Chunk).map (Chunk.extent region.manager)

structure Stocked (region : Region) (process : Process) (account : Account) : Prop where
  valid : region.Valid
  houses : process.Houses region.holdings account

structure Same (region after : Region) : Prop where
  id : after.id = region.id
  manager : after.manager = region.manager

variable {region : Region} {process : Process} {account : Account} {range : Layout}
  {chunk : Chunk} {chunks : List Chunk} {place : Range}

theorem soundIn_of_houses (valid : region.Valid) (houses : process.Houses region.holdings account) :
    region.SoundIn process where
  memory := houses.sound
  valid := valid
  owns :=
    { held := fun _ member => houses.held (Multiset.mem_map_of_mem _ member)
      apart := by
        have distinct := houses.distinct
        rw [holdings, Multiset.map_map, Multiset.map_coe] at distinct
        exact distinct }

theorem Stocked.soundIn (stocked : region.Stocked process account) : region.SoundIn process :=
  soundIn_of_houses stocked.valid stocked.houses

theorem mem_holdings {block : Nat} (member : block ∈ region.chunks.map Chunk.block) :
    block ∈ region.holdings.map Extent.address := by
  rw [holdings, Multiset.map_map, Multiset.map_coe]
  exact member

theorem holdings_append :
    holdings { region with chunks := region.chunks ++ [chunk] } =
      chunk.extent region.manager ::ₘ region.holdings := by
  show ((region.chunks ++ [chunk] : List Chunk) : Multiset Chunk).map _ = _
  rw [← Multiset.coe_add, Multiset.map_add, add_comm]
  rfl

theorem holdings_taken (present : chunks[place.chunk]? = some chunk) :
    (region.taken chunks range place).holdings = holdings { region with chunks } := by
  have extents : (region.taken chunks range place).chunks.map
      (fun chunk => (chunk.block, chunk.capacity)) =
        chunks.map fun chunk => (chunk.block, chunk.capacity) := extents_taken present
  have same := congrArg
    (List.map fun pair : Nat × Nat => (⟨region.manager, pair.1, pair.2⟩ : Extent)) extents
  rw [List.map_map, List.map_map] at same
  exact congrArg Multiset.ofList same

theorem holdings_rewound : region.rewound.holdings = region.holdings := by
  simp only [holdings, rewound, Multiset.map_coe, List.map_map]
  rfl

theorem holdings_unused (none : region.chunks = []) : region.holdings = 0 := by
  rw [holdings, none]
  rfl

theorem grow_houses (range : Layout) (positive : 0 < range.align)
    (stocked : region.Stocked process account) (holder : region.manager ∈ account.holders) :
    Ends (grow range) (region, process)
      (fun _ after => after.2.Houses after.1.holdings account)
      fun failure after => Process.Spares region.holdings account failure after.2 := by
  simp only [grow, Action.ends_bind, Method.ends_self]
  cases Word.add? range.size (range.align - 1) with
  | none => exact ⟨rfl, stocked.houses⟩
  | some needed =>
      simp only [Action.ends_bind, Method.ends_liftProcess]
      apply (Chunk.create_houses stocked.houses holder _).mono ?_ fun _ _ spares => spares
      intro chunk after ends
      rcases ends with ⟨unused, houses⟩
      rcases Chunk.room?_serves positive (unused ▸ Nat.zero_le chunk.capacity)
          ((houses.held (Multiset.mem_cons_self _ _)).fits houses.sound) with
        ⟨room, searched, serves⟩
      simp only [Action.ends_liftFault, searched]
      cases room with
      | none =>
          simp only [Action.ends_bind, Method.ends_liftProcess, Action.ends_fail]
          exact houses.free.mono (fun _ _ left => ⟨rfl, left⟩) fun _ _ none => none.elim
      | some offset =>
          have present : (region.chunks ++ [chunk])[region.chunks.length]? = some chunk :=
            List.getElem?_concat_length
          have ahead : region.current ≤ region.chunks.length := by
            rcases stocked.valid.current with inside | ⟨-, first⟩ <;> omega
          have valid : (region.taken (region.chunks ++ [chunk]) range
              { chunk := region.chunks.length, offset }).Valid :=
            Extended.valid_taken (.inr ⟨chunk, unused, rfl⟩) stocked.valid present
              (serves offset rfl) ahead
          have housed : after.Houses (region.taken (region.chunks ++ [chunk]) range
              { chunk := region.chunks.length, offset }).holdings account := by
            rw [holdings_taken present, holdings_append]
            exact houses
          have total := (soundIn_of_houses valid housed).total_lt
          simp only [Action.ends_bind, Action.ends_liftFault, take_extended range total,
            Method.ends_update, Action.ends_pure]
          exact housed

theorem allocate_houses (range : Layout) (stocked : region.Stocked process account)
    (holder : region.manager ∈ account.holders) :
    Ends (allocate range) (region, process)
      (fun _ after => after.2.Houses after.1.holdings account)
      fun failure after => Process.Spares region.holdings account failure after.2 := by
  rcases allocate_cases range stocked.soundIn with ⟨power, ran⟩ |
    ⟨place, chunk, present, fits, ahead, ran⟩ | ⟨current, ahead, -, moved, power, ran⟩
  · rw [Ends, ran]
    exact ⟨rfl, stocked.houses⟩
  · rw [Ends, ran]
    show process.Houses (region.taken region.chunks range place).holdings account
    rw [holdings_taken present]
    exact stocked.houses
  · rw [Ends, ran]
    exact grow_houses range (isPowerOfTwo_pos power)
      { valid := moved.valid, houses := stocked.houses } holder

/-- Handing out a range, with all that is known of it. -/
theorem allocate_stocked (range : Layout) (stocked : region.Stocked process account)
    (holder : region.manager ∈ account.holders) :
    Ends (allocate range) (region, process)
      (fun place after => region.Takes after.1 range place ∧ process.Evolves after.2 [] ∧
        after.1.Stocked after.2 account)
      fun failure after => failure.isMisuse = false ∧
        (∃ current, after.1 = region.moved current) ∧ process.Evolves after.2 [] ∧
        after.1.Stocked after.2 account := by
  apply ((allocate_ends range stocked.soundIn).and (allocate_houses range stocked holder)).mono
  · intro place after ends
    obtain ⟨⟨takes, there, evolves, -⟩, houses⟩ := ends
    exact ⟨takes, evolves, there.valid, houses⟩
  · intro failure after ends
    obtain ⟨⟨⟨current, moved⟩, there, evolves, -⟩, blameless, houses⟩ := ends
    refine ⟨blameless, ⟨current, moved⟩, evolves, there.valid, ?_⟩
    rw [moved]
    exact houses

theorem Stocked.written (stocked : region.Stocked process account) {pointer : Pointer}
    (inside : pointer.block ∈ region.chunks.map Chunk.block) (values : List UInt8) :
    region.Stocked { process with heap := process.heap.write pointer values } account where
  valid := stocked.valid
  houses := stocked.houses.writeOwn (mem_holdings inside) values

theorem Takes.same {after : Region} (takes : region.Takes after range place) :
    region.Same after := ⟨takes.id_eq, takes.manager_eq⟩

theorem Takes.blocks {after : Region} (takes : region.Takes after range place) :
    region.chunks.map Chunk.block ⊆ after.chunks.map Chunk.block := by
  obtain ⟨chunks, chunk, extended, present, -, -, rfl⟩ := takes
  rw [blocks_taken present]
  rcases extended with rfl | ⟨fresh, -, rfl⟩
  · exact List.Subset.refl _
  · rw [List.map_append]
    exact List.subset_append_left _ _

/-- All that handing out a range and writing to it does. -/
structure Writes (region : Region) (process : Process) (range : Layout) (values : List UInt8)
    (place : Range) (after : Region × Process) : Prop where
  takes : region.Takes after.1 range place
  written : ∃ middle : Process, process.Evolves middle [] ∧ after.1.SoundIn middle ∧
    after.2 = { middle with heap := middle.heap.write (after.1.pointer place) values }

/-- All that is left when no range could be handed out: the search has moved on. -/
def Misses (region : Region) (process : Process) (after : Region × Process) : Prop :=
  (∃ current, after.1 = region.moved current) ∧ process.Evolves after.2 []

theorem Misses.same {after : Region × Process} (misses : region.Misses process after) :
    region.Same after.1 := by
  obtain ⟨⟨current, moved⟩, -⟩ := misses
  rw [moved]
  exact ⟨rfl, rfl⟩

theorem store_stocked (range : Layout) (content : Nat → UInt8)
    (stocked : region.Stocked process account) (holder : region.manager ∈ account.holders) :
    Ends (store range content) (region, process)
      (fun pointer after => (∃ place, pointer = after.1.pointer place ∧ region.Writes process range
        ((List.range range.size).map content) place after) ∧ after.1.Stocked after.2 account)
      fun failure after => failure.isMisuse = false ∧ region.Misses process after ∧
        after.1.Stocked after.2 account := by
  apply (allocate_stocked range stocked holder).bind
    (fun _ _ ends => ⟨ends.1, ⟨ends.2.1, ends.2.2.1⟩, ends.2.2.2⟩)
  intro place last ends
  obtain ⟨after, granted⟩ := last
  obtain ⟨takes, evolves, there⟩ := ends
  simp only [Action.ends_bind, Method.ends_self, Method.ends_liftProcess]
  rw [there.soundIn.ends_store takes.covers (by simp)]
  exact ⟨⟨place, rfl, takes, granted, evolves, there.soundIn, rfl⟩,
    there.written takes.covers.mem_blocks _⟩

def handleFor (region : Region) (place : Range) (length : Nat) : Handle :=
  { region := region.id
    generation := region.generation
    chunk := place.chunk % indexLimit
    offset := place.offset
    length }

theorem storeBytes_stocked (bytes : List UInt8) (stocked : region.Stocked process account)
    (holder : region.manager ∈ account.holders) :
    Ends (storeBytes bytes) (region, process)
      (fun handle after => (∃ place, handle = region.handleFor place bytes.length ∧
          region.Writes process { size := bytes.length, align := 1 } bytes place after) ∧
        after.1.Stocked after.2 account)
      fun failure after => failure.isMisuse = false ∧ region.Misses process after ∧
        after.1.Stocked after.2 account := by
  apply (allocate_stocked { size := bytes.length, align := 1 } stocked holder).bind
    (fun _ _ ends => ⟨ends.1, ⟨ends.2.1, ends.2.2.1⟩, ends.2.2.2⟩)
  intro place last ends
  obtain ⟨after, granted⟩ := last
  obtain ⟨takes, evolves, there⟩ := ends
  simp only [Action.ends_bind, Method.ends_self, Method.ends_liftProcess]
  rw [there.soundIn.ends_store takes.covers rfl]
  refine ⟨⟨place, ?_, takes, granted, evolves, there.soundIn, rfl⟩,
    there.written takes.covers.mem_blocks _⟩
  rw [handleFor, ← takes.id_eq, ← takes.generation_eq]

theorem eraseAll_houses {extents : Multiset Extent} (chunks : List Chunk)
    (own : ∀ chunk ∈ chunks, chunk.block ∈ extents.map Extent.address)
    (used : ∀ chunk ∈ chunks, chunk.used ≤ chunk.capacity)
    (lodged : Chunk.Lodged chunks process.heap) (houses : process.Houses extents account) :
    Ends (chunks.forM Chunk.erase) process (fun _ after => after.Houses extents account)
      fun _ _ => False := by
  induction chunks generalizing process with
  | nil => exact houses
  | cons chunk rest ih =>
      obtain ⟨mine, others⟩ := List.forall_mem_cons.mp own
      obtain ⟨first, later⟩ := List.forall_mem_cons.mp used
      rw [List.forM, Action.ends_bind, lodged.ends_erase List.mem_cons_self first]
      refine ih others later (fun other member => ?_) (houses.writeOwn mine _)
      exact lodged.write _ _ other (List.mem_cons_of_mem chunk member)

theorem reset_stocked (stocked : region.Stocked process account) :
    Ends reset (region, process)
      (fun _ after => after.1 = { region.rewound with generation := region.generation + 1 } ∧
        after.1.Stocked after.2 account)
      fun failure after => failure = .fault .generationsExhausted ∧
        wordLimit ≤ region.generation + 1 ∧ after.1 = region.rewound ∧
        after.1.Stocked after.2 account := by
  have valid := stocked.soundIn.rewound.valid
  have quiet : Level.trace ≠ .warn := by decide
  simp only [reset, Action.ends_bind, Method.ends_self, Method.ends_ofProcess]
  apply (eraseAll_houses region.chunks (fun _ member => mem_holdings (List.mem_map_of_mem member))
    stocked.valid.used stocked.soundIn.lodged stocked.houses).mono ?_ fun _ _ none => none.elim
  intro _ after houses
  rw [← holdings_rewound] at houses
  simp only [Method.ends_update, Action.ends_ensure]
  split
  · simp only [Method.ends_liftProcess, Process.ends_log]
    exact ⟨rfl, ⟨valid.used, valid.ahead, valid.current, valid.total⟩,
      houses.logged quiet Origin.region.target _⟩
  · rename_i last
    exact ⟨trivial, by simpa using last, rfl, valid, houses⟩

theorem create_stocked {manager : Manager} {extents : Multiset Extent} (chunkSize : Nat)
    (houses : process.Houses extents account) (holder : manager ∈ account.holders) :
    Ends (create manager chunkSize) process
      (fun region after => region.Valid ∧ region.manager = manager ∧ region.chunks = [] ∧
        region.id = account.nextRegion ∧ region.generation = 0 ∧
        after.Houses extents (account.joined manager).numbered)
      fun failure after => failure.isMisuse = false ∧ after = process := by
  rw [create, Action.ends_bind, Action.ends_require]
  split
  · apply (houses.retain holder).bind (fun _ _ none => none.elim)
    intro _ after retained
    simp only [Action.ends_bind, Action.ends_get, Action.ends_set, Action.ends_pure]
    exact ⟨⟨by simp, by simp, .inr ⟨rfl, rfl⟩, Nat.le_refl 0⟩, trivial, trivial, retained.nextRegion,
      trivial, retained.numbered⟩
  · exact ⟨rfl, rfl⟩

theorem discard_houses {extents : Multiset Extent}
    (houses : process.Houses (region.holdings + extents) account) :
    Ends (region.chunks.forM fun chunk => region.manager.free chunk.block) process
      (fun _ after => after.Houses extents account) fun _ _ => False := by
  rw [holdings] at houses
  exact houses.freeAll region.chunks fun _ _ => ⟨rfl, rfl⟩

theorem discard_stocked
    (houses : process.Houses region.holdings (account.joined region.manager)) :
    Ends region.discard process
      (fun _ after => after.Houses 0 (account.parted region.manager)) fun _ _ => False := by
  rw [← add_zero region.holdings] at houses
  exact (discard_houses houses).bind (fun _ _ none => none) fun _ _ left => left.release

end Region

end SymbolStore
