import SymbolStore.Proofs.Memory.Account

/-!
The blocks of one object in a process that is settled, with all other blocks kept: what becomes of
them in the calls of a manager, and in writes.
-/

namespace SymbolStore

open SymbolStore.Action (Ends)

namespace Process

variable {process after : Process} {account : Account} {manager : Manager}

/-- The process is settled, and the blocks that the account does not keep have these extents. -/
def Houses (process : Process) (extents : Multiset Extent) (account : Account) : Prop :=
  ∃ own : Multiset (Nat × Block), own.map Extent.of = extents ∧
    process.Settled account (own + account.kept)

def Spares (extents : Multiset Extent) (account : Account) (failure : Failure) (after : Process) :
    Prop :=
  failure.isMisuse = false ∧ after.Houses extents account

namespace Houses

variable {extents others : Multiset Extent} {extent : Extent}

theorem sound (houses : process.Houses extents account) : process.Sound := by
  obtain ⟨own, -, settled⟩ := houses
  exact settled.sound

theorem powers (houses : process.Houses extents account) : process.heap.Powers := by
  obtain ⟨own, -, settled⟩ := houses
  exact settled.powers

theorem held (houses : process.Houses extents account) (member : extent ∈ extents) :
    extent.manager.Holds process extent.address extent.size := by
  obtain ⟨own, rfl, settled⟩ := houses
  obtain ⟨entry, there, rfl⟩ := Multiset.mem_map.mp member
  exact settled.held entry (Multiset.mem_add.mpr (.inl there))

theorem distinct (houses : process.Houses extents account) :
    (extents.map Extent.address).Nodup := by
  obtain ⟨own, rfl, settled⟩ := houses
  rw [Multiset.map_map]
  have whole := settled.distinct
  rw [Multiset.map_add] at whole
  exact Multiset.nodup_of_le (Multiset.le_add_right _ _) whole

theorem bytes_lt (houses : process.Houses extents account) :
    (extents.map Extent.size).sum < wordLimit := by
  obtain ⟨own, rfl, settled⟩ := houses
  have small := settled.bytes_lt
  rw [Multiset.map_add, Multiset.map_add, Multiset.sum_add] at small
  omega

theorem liveBlocks_eq (houses : process.Houses extents account)
    (tracked : (manager.ledgerIn process).isTracked = true) :
    (manager.ledgerIn process).counters.liveBlocks =
      ((extents + account.extents).filter fun extent => extent.manager = manager).card := by
  obtain ⟨own, rfl, settled⟩ := houses
  rw [settled.liveBlocks_eq tracked, Multiset.map_add, Account.extents]

theorem liveBytes_eq (houses : process.Houses extents account)
    (tracked : (manager.ledgerIn process).isTracked = true) :
    (manager.ledgerIn process).counters.liveBytes =
      (((extents + account.extents).filter fun extent => extent.manager = manager).map
        Extent.size).sum := by
  obtain ⟨own, rfl, settled⟩ := houses
  rw [settled.liveBytes_eq tracked, Multiset.map_add, Account.extents]

theorem kept (houses : process.Houses extents account) {entry : Nat × Block}
    (member : entry ∈ account.kept) : process.heap.find? entry.1 = some entry.2 := by
  obtain ⟨own, -, settled⟩ := houses
  exact settled.present entry (Multiset.mem_add.mpr (.inr member))

theorem apart (houses : process.Houses extents account) (member : extent ∈ extents)
    {entry : Nat × Block} (other : entry ∈ account.kept) : entry.1 ≠ extent.address := by
  obtain ⟨own, rfl, settled⟩ := houses
  obtain ⟨mine, there, rfl⟩ := Multiset.mem_map.mp member
  have whole := settled.distinct
  rw [Multiset.map_add, Multiset.nodup_add] at whole
  intro same
  change entry.1 = mine.1 at same
  exact Multiset.disjoint_left.mp whole.2.2 (Multiset.mem_map_of_mem _ there)
    (same ▸ Multiset.mem_map_of_mem _ other)

theorem remarked (houses : process.Houses extents account) (remarks : process.Remarks after) :
    after.Houses extents account := by
  obtain ⟨own, same, settled⟩ := houses
  exact ⟨own, same, settled.remarked remarks⟩

theorem logged (houses : process.Houses extents account) {level : Level} (other : level ≠ .warn)
    (target : String) (text : Unit → String) :
    Houses { process with journal := process.journal.log level target text } extents account :=
  houses.remarked (remarks_log process other target text)

/-- Some of the blocks are set aside. -/
theorem frame (houses : process.Houses (extents + others) account) :
    ∃ aside : Multiset (Nat × Block), aside.map Extent.of = others ∧
      process.Houses extents { account with kept := aside + account.kept } := by
  obtain ⟨own, same, settled⟩ := houses
  obtain ⟨mine, aside, rfl, rfl, rfl⟩ := exists_add_of_map_eq same
  rw [add_assoc] at settled
  exact ⟨aside, rfl, mine, rfl, { settled with }⟩

theorem unframe {aside : Multiset (Nat × Block)}
    (houses : process.Houses extents { account with kept := aside + account.kept }) :
    process.Houses (extents + aside.map Extent.of) account := by
  obtain ⟨own, rfl, settled⟩ := houses
  change Settled _ _ (own + (aside + account.kept)) at settled
  rw [← add_assoc] at settled
  exact ⟨own + aside, Multiset.map_add _ _ _, { settled with }⟩

theorem allocated {payload : Layout} {address : Nat}
    (houses : process.Houses extents account) (holder : manager ∈ account.holders)
    (handed : manager.HandsOut process after payload address) :
    after.Houses ({ manager, address, size := payload.size } ::ₘ extents) account := by
  obtain ⟨own, rfl, settled⟩ := houses
  have handedOut := settled.handedOut holder handed
  rw [← Multiset.cons_add] at handedOut
  refine ⟨_, ?_, handedOut⟩
  rw [Multiset.map_cons, Extent.of, Block.keeper_issued, Block.size_issued]

theorem refused {align : Nat} {failure : Failure} (houses : process.Houses extents account)
    (refuses : manager.Refuses process align failure after) :
    Spares extents account failure after := by
  obtain ⟨own, same, settled⟩ := houses
  have spared := settled.refused refuses
  exact ⟨spared.1, own, same, spared.2⟩

theorem allocate (houses : process.Houses extents account) (holder : manager ∈ account.holders)
    (payload : Layout) :
    Ends (manager.allocate payload) process
      (fun address after =>
        after.Houses ({ manager, address, size := payload.size } ::ₘ extents) account)
      (Spares extents account) :=
  (Manager.allocate_effect payload houses.sound).mono
    (fun _ _ handed => houses.allocated holder handed) fun _ _ refuses => houses.refused refuses

theorem allocateArray (houses : process.Houses extents account) (holder : manager ∈ account.holders)
    (element : Layout) (count : Nat) :
    Ends (manager.allocateArray element count) process
      (fun address after =>
        after.Houses ({ manager, address, size := element.size * count } ::ₘ extents) account)
      (Spares extents account) :=
  (Manager.allocateArray_effect element count houses.sound).mono
    (fun _ _ handed => houses.allocated holder handed) fun _ _ refuses => houses.refused refuses

theorem others_eq (houses : process.Houses (extent ::ₘ extents) account) :
    ((extent ::ₘ extents).filter fun other => other.address ≠ extent.address) = extents := by
  have distinct := houses.distinct
  rw [Multiset.map_cons, Multiset.nodup_cons] at distinct
  rw [Multiset.filter_cons_of_neg _ (by simp), Multiset.filter_eq_self]
  intro other member same
  exact distinct.1 (same ▸ Multiset.mem_map_of_mem _ member)

theorem filter_own {address : Nat} {own : Multiset (Nat × Block)}
    (apart : ∀ entry ∈ account.kept, entry.1 ≠ address) :
    ((own + account.kept).filter fun entry => entry.1 ≠ address) =
        own.filter (fun entry => entry.1 ≠ address) + account.kept ∧
      (own.filter fun entry => entry.1 ≠ address).map Extent.of =
        (own.map Extent.of).filter fun extent => extent.address ≠ address := by
  constructor
  · rw [Multiset.filter_add, Multiset.filter_eq_self.mpr apart]
  · rw [Multiset.filter_map]
    rfl

theorem takenBack {address size : Nat} (houses : process.Houses extents account)
    (apart : ∀ entry ∈ account.kept, entry.1 ≠ address)
    (taken : manager.TakesBack process after address size) :
    after.Houses (extents.filter fun extent => extent.address ≠ address) account := by
  obtain ⟨own, rfl, settled⟩ := houses
  have left := settled.takenBack taken
  rw [(filter_own apart).1] at left
  exact ⟨_, (filter_own apart).2, left⟩

theorem moved {address newAddress newSize : Nat} {block : Block}
    (houses : process.Houses extents account) (holder : manager ∈ account.holders)
    (apart : ∀ entry ∈ account.kept, entry.1 ≠ address)
    (moves : manager.Moves process after address block newAddress newSize) :
    after.Houses ({ manager, address := newAddress, size := newSize } ::ₘ
      extents.filter fun extent => extent.address ≠ address) account := by
  obtain ⟨own, rfl, settled⟩ := houses
  have left := settled.moved holder moves
  rw [(filter_own apart).1, ← Multiset.cons_add] at left
  refine ⟨_, ?_, left⟩
  rw [Multiset.map_cons, (filter_own apart).2, Extent.of, Block.keeper_resize, Block.size_resize,
    Block.keeper_eq moves.owner]

theorem free (houses : process.Houses (extent ::ₘ extents) account) :
    Ends (extent.manager.free extent.address) process (fun _ after => after.Houses extents account)
      fun _ _ => False := by
  have member := Multiset.mem_cons_self extent extents
  apply (Manager.free_effect extent.address houses.sound (houses.held member).given).mono
  · intro _ after taken
    obtain ⟨size, taken⟩ := taken
    have left := houses.takenBack (fun _ kept => houses.apart member kept) taken
    rwa [houses.others_eq] at left
  · intro _ _ rejected
    exact rejected.2.unheld extent.size (fun _ claimed => nomatch claimed) (houses.held member)

theorem freeAll {α : Type} {place : α → Extent} {address : α → Nat} (objects : List α)
    (placed : ∀ object ∈ objects,
      (place object).manager = manager ∧ (place object).address = address object)
    (houses : process.Houses ((objects : Multiset α).map place + extents) account) :
    Ends (objects.forM fun object => manager.free (address object)) process
      (fun _ after => after.Houses extents account) fun _ _ => False := by
  induction objects generalizing process with
  | nil =>
      rw [Multiset.coe_nil, Multiset.map_zero, zero_add] at houses
      exact houses
  | cons object rest ih =>
      obtain ⟨owner, there⟩ := placed object List.mem_cons_self
      rw [← Multiset.cons_coe, Multiset.map_cons, Multiset.cons_add] at houses
      have freed := houses.free
      rw [owner, there] at freed
      rw [List.forM]
      apply freed.bind (fun _ _ none => none)
      intro _ after left
      exact ih (fun other member => placed other (List.mem_cons_of_mem object member)) left

/-- An array changes its length, unless the system resized its block and no further allocation can be
counted. -/
theorem reallocateArray {address : Nat} {element : Layout} {oldCount : Nat}
    (houses : process.Houses
      ({ manager, address, size := element.size * oldCount } ::ₘ extents) account)
    (holder : manager ∈ account.holders) (newCount : Nat) :
    Ends (manager.reallocateArray address element oldCount newCount) process
      (fun newAddress after => after.Houses
        ({ manager, address := newAddress, size := element.size * newCount } ::ₘ extents) account)
      fun failure after =>
        Spares ({ manager, address, size := element.size * oldCount } ::ₘ extents) account failure
            after ∨
          failure = .fault (.overflow .add) ∧ (manager.ledgerIn process).Exhausted := by
  have member := Multiset.mem_cons_self
    (⟨manager, address, element.size * oldCount⟩ : Extent) extents
  apply (Manager.reallocateArray_effect address element oldCount newCount houses.sound
    (houses.held member).given fun block found _ => houses.powers address block found).mono
  · intro newAddress after moves
    obtain ⟨-, block, -, moves⟩ := moves
    have left := houses.moved holder (fun _ kept => houses.apart member kept) moves
    rwa [houses.others_eq] at left
  · intro failure after failed
    rcases failed with ⟨rfl, rejects, -⟩ | ⟨-, rfl, rfl⟩ | ⟨-, -, leaves⟩
    · refine absurd (houses.held member) (rejects.unheld _ ?_)
      intro size claimed
      exact (Option.mem_some_iff.mp claimed).symm
    · exact .inl ⟨rfl, houses⟩
    · rcases leaves with ⟨⟨requested, rfl⟩, remarks⟩ | ⟨fault, -, exhausted, -⟩
      · exact .inl ⟨rfl, houses.remarked remarks⟩
      · exact .inr ⟨fault, exhausted⟩

theorem write (houses : process.Houses extents account) {pointer : Pointer}
    (apart : ∀ entry ∈ account.kept, entry.1 ≠ pointer.block) (values : List UInt8) :
    Houses { process with heap := process.heap.write pointer values } extents account := by
  obtain ⟨own, rfl, settled⟩ := houses
  refine ⟨own.map (wrote pointer values), ?_, ?_⟩
  · rw [Multiset.map_map]
    exact Multiset.map_congr rfl fun entry _ => of_wrote pointer values entry
  · have untouched : account.kept.map (wrote pointer values) = account.kept := by
      calc
        account.kept.map (wrote pointer values) = account.kept.map id :=
          Multiset.map_congr rfl fun entry member => if_neg (Ne.symm (apart entry member))
        _ = account.kept := Multiset.map_id _
    have written := settled.written pointer values
    rwa [Multiset.map_add, untouched] at written

theorem writeOwn (houses : process.Houses extents account) {pointer : Pointer}
    (own : pointer.block ∈ extents.map Extent.address) (values : List UInt8) :
    Houses { process with heap := process.heap.write pointer values } extents account := by
  apply houses.write
  intro entry member
  obtain ⟨extent, there, same⟩ := Multiset.mem_map.mp own
  rw [← same]
  exact houses.apart there member

theorem store (houses : process.Houses extents account) {pointer : Pointer} {values : List UInt8}
    (own : pointer.block ∈ extents.map Extent.address) :
    Ends (Process.store pointer values) process (fun _ after => after.Houses extents account)
      fun failure after => failure = .refused .outsideBlock ∧ after = process ∧
        process.heap.covers pointer values.length = false := by
  apply (store_ends pointer values).mono ?_ fun _ _ refused => refused
  rintro _ _ rfl
  exact houses.writeOwn own values

theorem retain (houses : process.Houses extents account) (holder : manager ∈ account.holders) :
    Ends manager.retain process (fun _ after => after.Houses extents (account.joined manager))
      fun _ _ => False := by
  obtain ⟨own, same, settled⟩ := houses
  exact (settled.retain holder).mono (fun _ _ there => ⟨own, same, there⟩) fun _ _ none => none

theorem release_shared (houses : process.Houses extents (account.joined manager))
    (holder : manager ∈ account.holders) :
    Ends manager.release process (fun _ after => after.Houses extents account)
      fun _ _ => False := by
  obtain ⟨own, same, settled⟩ := houses
  exact (settled.release_shared holder).mono (fun _ _ there => ⟨own, same, there⟩)
    fun _ _ none => none

theorem release (houses : process.Houses 0 (account.joined manager)) :
    Ends manager.release process (fun _ after => after.Houses 0 (account.parted manager))
      fun _ _ => False := by
  by_cases holder : manager ∈ account.holders
  · rw [Account.parted, if_pos holder]
    exact houses.release_shared holder
  · obtain ⟨own, same, settled⟩ := houses
    cases Multiset.map_eq_zero.mp same
    change process.Settled (account.joined manager) (0 + account.kept) at settled
    rw [zero_add] at settled
    apply (settled.release_last holder).mono ?_ fun _ _ none => none
    intro _ after there
    refine ⟨0, rfl, ?_⟩
    rwa [zero_add, Account.kept_parted]

theorem numbered (houses : process.Houses extents account) :
    Houses { process with nextRegion := process.nextRegion + 1 } extents account.numbered := by
  obtain ⟨own, same, settled⟩ := houses
  have sound := (evolves_nextRegion settled.sound (process.nextRegion + 1)).sound
  refine ⟨own, same, { settled with sound, held := ?_, nextRegion := ?_ }⟩
  · intro entry member
    have held := settled.held entry member
    exact ⟨held.present, held.recorded⟩
  · exact congrArg (· + 1) settled.nextRegion

theorem nextRegion (houses : process.Houses extents account) :
    process.nextRegion = account.nextRegion := by
  obtain ⟨own, -, settled⟩ := houses
  exact settled.nextRegion

theorem create (houses : process.Houses extents account) (config : Config) :
    Ends (Manager.create config) process
      (fun manager after => manager ∉ account.holders ∧
        (∀ extent ∈ account.extents, extent.manager ≠ manager) ∧
        after.Houses extents (account.created manager config))
      fun _ _ => False := by
  obtain ⟨own, same, settled⟩ := houses
  apply (settled.create config).mono ?_ fun _ _ none => none
  intro manager after created
  obtain ⟨id, fresh, there⟩ := created
  refine ⟨fresh, ?_, own, same, there⟩
  intro extent member owner
  obtain ⟨entry, kept, rfl⟩ := Multiset.mem_map.mp member
  have older := settled.issued entry (Multiset.mem_add.mpr (.inr kept))
  rw [← id, ← owner] at older
  exact Nat.lt_irrefl _ older

end Houses

end Process

end SymbolStore
