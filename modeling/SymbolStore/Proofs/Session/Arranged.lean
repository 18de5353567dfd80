import SymbolStore.Proofs.Session.Follows

/-!
How structures come and go among the others. While a structure is made, all blocks that there are
stand aside; a structure that goes gives its blocks back, and its manager ends with it if nobody else
holds it.
-/

namespace SymbolStore

open SymbolStore.Action (Ends)

variable {K V : Type}

structure Account.Succeeds (account later : Account) : Prop where
  kept : later.kept = account.kept
  level : later.level = account.level
  warnings : later.warnings = account.warnings
  config : ∀ manager ∈ account.holders, later.config manager = account.config manager
  nextRegion : account.nextRegion ≤ later.nextRegion

theorem Account.joined_rest {account : Account} {manager : Manager} {others : Multiset Manager}
    (split : account.holders = manager ::ₘ others) :
    joined { account with holders := others } manager = account := by
  rw [joined, ← split]

namespace Account.Succeeds

variable {account middle later : Account}

theorem trans (first : account.Succeeds middle) (second : middle.Succeeds later)
    (held : ∀ manager ∈ account.holders, manager ∈ middle.holders) : account.Succeeds later where
  kept := second.kept.trans first.kept
  level := second.level.trans first.level
  warnings := second.warnings.trans first.warnings
  config manager member :=
    (second.config manager (held manager member)).trans (first.config manager member)
  nextRegion := Nat.le_trans first.nextRegion second.nextRegion

theorem held (succeeds : account.Succeeds later) (holders : Multiset Manager) :
    account.Succeeds { later with holders } :=
  ⟨succeeds.kept, succeeds.level, succeeds.warnings, succeeds.config, succeeds.nextRegion⟩

theorem joined (account : Account) (manager : Manager) : account.Succeeds (account.joined manager) :=
  ⟨rfl, rfl, rfl, fun _ _ => rfl, Nat.le_refl _⟩

end Account.Succeeds

namespace Process

/-- What a process keeps while a structure is made: blocks, managers, and the warnings printed. -/
structure Undisturbed (process after : Process) (extents : Multiset Extent)
    (holders : Multiset Manager) : Prop where
  intact : process.Intact after extents
  level : after.journal.level = process.journal.level
  warnings : after.journal.warnings = process.journal.warnings
  config : ∀ manager ∈ holders,
    (manager.ledgerIn after).config = (manager.ledgerIn process).config
  nextRegion : process.nextRegion ≤ after.nextRegion

theorem Undisturbed.leak_eq {process after : Process} {extents direct : Multiset Extent}
    {holders : Multiset Manager} {manager : Manager}
    (undisturbed : process.Undisturbed after extents holders) (held : manager ∈ holders) :
    after.leak direct manager = process.leak direct manager := by
  simp only [leak, Ledger.isTracked_iff, undisturbed.config manager held, Journal.enabled,
    undisturbed.level]

theorem Houses.undisturbed {process after : Process} {extents : Multiset Extent}
    {account later : Account} (begun : process.Houses 0 account)
    (ended : after.Houses extents later) (succeeds : account.Succeeds later)
    (held : ∀ manager ∈ account.holders, manager ∈ later.holders) :
    process.Undisturbed after account.extents account.holders where
  intact := intact_of_kept begun le_rfl ended succeeds.kept.ge
  level := by rw [ended.level, succeeds.level, begun.level]
  warnings := by rw [ended.warnings, succeeds.warnings, begun.warnings]
  config manager member := by
    rw [ended.config (held manager member), succeeds.config manager member, begun.config member]
  nextRegion := by
    rw [ended.nextRegion, begun.nextRegion]
    exact succeeds.nextRegion

end Process

namespace Session

variable {process after : Process} {symbols : Names Symbol} {direct : Multiset Extent}
  {structures : Multiset (Structure K V)} {object : Structure K V} {account later : Account}

namespace Arranged

/-- The account for making a structure, with all blocks that there are aside. -/
theorem aside (arranged : Arranged process symbols direct structures) :
    ∃ account : Account, account.holders = (structures.map Structure.holders).sum ∧
      account.extents = (structures.map Structure.holdings).sum + direct ∧
      process.Houses 0 account := by
  have houses := arranged.houses
  rw [← zero_add ((structures.map Structure.holdings).sum + direct)] at houses
  obtain ⟨aside, left, mine⟩ := houses.frame
  refine ⟨_, rfl, ?_, mine⟩
  rw [← left]
  exact congrArg (Multiset.map Extent.of) (add_zero aside)

theorem taken_up {extents : Multiset Extent} (ended : after.Houses extents later) :
    after.Houses (extents + later.extents) (after.account later.holders) := by
  have whole : after.Houses extents { { later with kept := 0 } with kept := later.kept + 0 } := by
    rw [add_zero]
    exact ended
  exact whole.unframe.own rfl

theorem resume (arranged : Arranged process symbols direct structures)
    (holders : account.holders = (structures.map Structure.holders).sum)
    (extents : account.extents = (structures.map Structure.holdings).sum + direct)
    (begun : process.Houses 0 account) (succeeds : account.Succeeds later)
    (same : later.holders = account.holders) (ended : after.Houses 0 later) :
    Arranged after symbols direct structures := by
  have nextRegion : process.nextRegion ≤ after.nextRegion := by
    rw [ended.nextRegion, begun.nextRegion]
    exact succeeds.nextRegion
  have whole := taken_up ended
  rw [Account.extents, succeeds.kept, ← Account.extents, extents, same, holders, zero_add] at whole
  exact
    { fit := arranged.fit
      houses := whole
      numbered := arranged.numbered
      known := fun id member => Nat.lt_of_lt_of_le (arranged.known id member) nextRegion
      issued := by
        intro name symbol named
        obtain ⟨small, issued⟩ := arranged.issued name symbol named
        exact ⟨Nat.lt_of_lt_of_le small nextRegion, issued⟩ }

theorem welcome (arranged : Arranged process symbols direct structures)
    (holders : account.holders = (structures.map Structure.holders).sum)
    (extents : account.extents = (structures.map Structure.holdings).sum + direct)
    (begun : process.Houses 0 account) (succeeds : account.Succeeds later)
    (more : later.holders = object.holders + account.holders)
    (number : ∀ id ∈ object.regionId?, account.nextRegion ≤ id ∧ id < later.nextRegion)
    (ended : object.Stocked after later) :
    Arranged after symbols direct (object ::ₘ structures) := by
  have before := begun.nextRegion
  have now := ended.houses.nextRegion
  have nextRegion : process.nextRegion ≤ after.nextRegion := by
    rw [now, before]
    exact succeeds.nextRegion
  have whole := taken_up ended.houses
  rw [Account.extents, succeeds.kept, ← Account.extents, extents, more, holders] at whole
  constructor
  · intro other member
    rcases Multiset.mem_cons.mp member with rfl | member
    · exact ended.fit
    · exact arranged.fit other member
  · rw [holdings_cons, holders_cons, add_assoc]
    exact whole
  · rw [regionIds_cons]
    cases named : object.regionId? with
    | none =>
        show (0 + structures.filterMap Structure.regionId?).Nodup
        rw [zero_add]
        exact arranged.numbered
    | some id =>
        have bounds := number id named
        show ({id} + structures.filterMap Structure.regionId?).Nodup
        rw [Multiset.singleton_add, Multiset.nodup_cons]
        refine ⟨?_, arranged.numbered⟩
        intro member
        have old := arranged.known id member
        omega
  · intro id member
    rw [regionIds_cons, Multiset.mem_add, Multiset.mem_coe, Option.mem_toList] at member
    rcases member with new | old
    · have bounds := number id new
      omega
    · exact Nat.lt_of_lt_of_le (arranged.known id old) nextRegion
  · intro name symbol named
    obtain ⟨small, issued⟩ := arranged.issued name symbol named
    refine ⟨Nat.lt_of_lt_of_le small nextRegion, ?_⟩
    intro interner member names
    rcases Multiset.mem_cons.mp member with rfl | member
    · have bounds := number interner.region.id rfl
      omega
    · exact issued interner member names

theorem held_of_mem_others (arranged : Arranged process symbols direct (object ::ₘ structures))
    {extent : Extent} (member : extent ∈ (structures.map Structure.holdings).sum) :
    extent.manager ∈ (structures.map Structure.holders).sum := by
  obtain ⟨holdings, there, inside⟩ := Multiset.mem_join.mp member
  obtain ⟨other, present, rfl⟩ := Multiset.mem_map.mp there
  obtain ⟨others, rfl⟩ := Multiset.exists_cons_of_mem present
  rw [Multiset.cons_swap] at arranged
  obtain ⟨_, -, stocked, -⟩ := arranged.frame
  rw [holders_cons, Structure.manager_of_mem_holdings stocked inside]
  exact Multiset.mem_add.mpr (.inl other.manager_mem_holders)

/-- What the account of the other structures says of a manager that nobody else holds. -/
theorem leak_eq {manager : Manager} (arranged : Arranged process symbols direct (object ::ₘ structures))
    (extents : account.extents = (structures.map Structure.holdings).sum + direct)
    (config : account.config = (process.account 0).config)
    (level : account.level = process.journal.level)
    (last : manager ∉ (structures.map Structure.holders).sum) :
    account.leak manager = process.leak direct manager := by
  have others : ((structures.map Structure.holdings).sum.filter
      fun extent => extent.manager = manager) = 0 := by
    apply Multiset.filter_eq_nil.mpr
    intro extent member owner
    exact last (owner ▸ arranged.held_of_mem_others member)
  rw [Account.leak, Process.leak, extents, Multiset.filter_add, others, zero_add, config, level]
  simp only [Process.account, Ledger.isTracked_iff, Journal.enabled, decide_eq_true_eq]
  rfl

/-- A structure gives its blocks back and lets go of its manager. -/
theorem discard (arranged : Arranged process symbols direct (object ::ₘ structures)) :
    Ends object.discard process
      (fun _ after => Arranged after symbols direct structures ∧
        process.Intact after ((structures.map Structure.holdings).sum + direct) ∧
        after.journal.level = process.journal.level ∧
        after.nextRegion = process.nextRegion ∧
        (∀ manager ∈ (structures.map Structure.holders).sum,
          (manager.ledgerIn after).config = (manager.ledgerIn process).config) ∧
        after.journal.warnings = process.journal.warnings ++
          if object.manager ∈ (structures.map Structure.holders).sum then []
          else process.leak direct object.manager)
      fun _ _ => False := by
  have houses := arranged.houses
  rw [holdings_cons, holders_cons, add_assoc] at houses
  obtain ⟨aside, left, mine⟩ := houses.frame
  let account : Account :=
    { process.account (structures.map Structure.holders).sum with kept := aside + 0 }
  have extents : account.extents = (structures.map Structure.holdings).sum + direct := by
    rw [← left]
    exact congrArg (Multiset.map Extent.of) (add_zero aside)
  have stocked : object.Stocked process
      { account with holders := object.holders + account.holders } :=
    arranged.fit object (Multiset.mem_cons_self _ _) _ _ mine
  apply (Structure.discard_houses stocked).mono ?_ fun _ _ none => none
  intro _ after ended
  have nextRegion : after.nextRegion = process.nextRegion := by
    rw [ended.nextRegion, Account.nextRegion_parted]
    rfl
  have whole := taken_up ended
  rw [Account.extents, Account.kept_parted, ← Account.extents, extents, zero_add,
    Account.holders_parted] at whole
  refine ⟨?_, ?_, ?_, nextRegion, ?_, ?_⟩
  · have numbered := arranged.numbered
    have known := arranged.known
    rw [regionIds_cons] at numbered known
    exact
      { fit := fun other member => arranged.fit other (Multiset.mem_cons_of_mem member)
        houses := whole
        numbered := (Multiset.nodup_add.mp numbered).2.1
        known := fun id member => nextRegion ▸ known id (Multiset.mem_add.mpr (.inr member))
        issued := by
          intro name symbol named
          obtain ⟨small, issued⟩ := arranged.issued name symbol named
          exact ⟨nextRegion ▸ small,
            fun interner member => issued interner (Multiset.mem_cons_of_mem member)⟩ }
  · rw [← left]
    apply Process.intact_of_kept mine (Multiset.le_add_right _ _) ended
    rw [Account.kept_parted]
    exact Multiset.le_add_right _ _
  · rw [ended.level, Account.level_parted]
    rfl
  · intro manager member
    rw [ended.config (Account.holders_parted account object.manager ▸ member),
      Account.config_parted]
    rfl
  · rw [ended.warnings, Account.warnings_parted]
    show process.journal.warnings ++ (if _ ∈ (structures.map Structure.holders).sum then [] else _) = _
    split
    · rfl
    · rename_i last
      rw [arranged.leak_eq extents rfl rfl last]

end Arranged

end Session

end SymbolStore
