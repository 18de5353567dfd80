import SymbolStore.Proofs.Session.Settled
import SymbolStore.Session.Command

/-!
What a request does to a session: the blocks of the structures and of the client are accounted for
before and after, only the structure that is named changes, and a manager that ends with blocks
left is warned of.
-/

namespace SymbolStore

open SymbolStore.Action (Ends)

namespace Process

/-- What is printed when a manager ends and the client has these blocks. -/
def leak (process : Process) (direct : Multiset Extent) (manager : Manager) : List Printed :=
  let left := direct.filter fun extent => extent.manager = manager
  if (manager.ledgerIn process).isTracked = true ∧ left ≠ 0 ∧
      process.journal.enabled .warn = true then
    [.message .warn Origin.manager.target (Account.leakText left)]
  else []

/-- The managers that have ended in the meantime are these, and each that left blocks was warned of,
with their number and their bytes. -/
structure Warns (process later : Process) (direct : Multiset Extent) (ended : List Manager) :
    Prop where
  distinct : ended.Nodup
  gone : ∀ manager : Manager, manager ∈ ended ↔
    0 < (manager.ledgerIn process).holders ∧ (manager.ledgerIn later).holders = 0
  warnings : later.journal.warnings =
    process.journal.warnings ++ ended.flatMap (process.leak direct)

end Process

namespace Session

variable {K V : Type} {session later : Session K V} {place : Place}
  {direct direct' : Multiset Extent} {touched : Option Place}

section Holders

variable {process after : Process} {symbols symbols' : Names Symbol}
  {structures others : Multiset (Structure K V)}

theorem Arranged.holders_eq (arranged : Arranged process symbols direct structures)
    (manager : Manager) : (manager.ledgerIn process).holders =
      (structures.map Structure.holders).sum.count manager := by
  obtain ⟨_, -, whole⟩ := arranged.houses
  exact whole.holders manager

theorem Arranged.warns_none (arranged : Arranged process symbols direct structures)
    (there : Arranged after symbols' direct' others)
    (kept : ∀ manager ∈ (structures.map Structure.holders).sum,
      manager ∈ (others.map Structure.holders).sum)
    (warnings : after.journal.warnings = process.journal.warnings) :
    process.Warns after direct [] where
  distinct := .nil
  gone manager := by
    rw [arranged.holders_eq, there.holders_eq, Multiset.count_pos, Multiset.count_eq_zero]
    constructor
    · exact nofun
    · intro both
      exact absurd (kept manager both.1) both.2
  warnings := by
    rw [warnings]
    exact (List.append_nil _).symm

theorem Arranged.warns_one {manager : Manager} (arranged : Arranged process symbols direct structures)
    (there : Arranged after symbols' direct' others)
    (held : manager ∈ (structures.map Structure.holders).sum)
    (kept : ∀ other ∈ (structures.map Structure.holders).sum, other ≠ manager →
      other ∈ (others.map Structure.holders).sum)
    (warnings : after.journal.warnings = process.journal.warnings ++
      if manager ∈ (others.map Structure.holders).sum then [] else process.leak direct manager) :
    ∃ ended, process.Warns after direct ended := by
  by_cases still : manager ∈ (others.map Structure.holders).sum
  · rw [if_pos still, List.append_nil] at warnings
    refine ⟨[], arranged.warns_none there ?_ warnings⟩
    intro other member
    by_cases same : other = manager
    · exact same ▸ still
    · exact kept other member same
  · rw [if_neg still] at warnings
    refine ⟨[manager], List.nodup_singleton manager, ?_, ?_⟩
    · intro other
      rw [arranged.holders_eq, there.holders_eq, Multiset.count_pos, Multiset.count_eq_zero,
        List.mem_singleton]
      constructor
      · intro same
        rw [same]
        exact ⟨held, still⟩
      · intro both
        by_contra different
        exact both.2 (kept other both.1 different)
    · rw [warnings, List.flatMap_singleton]

end Holders

section Numbers

variable {object other : Structure K V} {place' : Place} {id : Nat}

theorem Settled.known_of_find? (settled : session.Settled direct)
    (found : session.find? place = some object) (number : object.regionId? = some id) :
    id < session.process.nextRegion :=
  settled.known id ((Multiset.mem_filterMap _ _).mpr
    ⟨object, mem_structures.mpr ⟨place, found⟩, number⟩)

/-- No two structures have regions of one number. -/
theorem Settled.place_eq (settled : session.Settled direct)
    (found : session.find? place = some object) (there : session.find? place' = some other)
    (number : object.regionId? = some id) (same : other.regionId? = some id) : place' = place := by
  by_contra different
  have remains : (session.without place).find? place' = some other := by
    rw [find?_without, if_neg (Ne.symm different), there]
  have distinct := settled.numbered
  rw [structures_of_find? found, Multiset.filterMap_cons_some _ _ _ number,
    Multiset.nodup_cons] at distinct
  exact distinct.1 ((Multiset.mem_filterMap _ _).mpr
    ⟨other, mem_structures.mpr ⟨place', remains⟩, same⟩)

theorem Settled.eq_of_regionId (settled : session.Settled direct)
    (member : object ∈ session.structures) (belongs : other ∈ session.structures)
    (number : object.regionId? = some id) (same : other.regionId? = some id) : object = other := by
  obtain ⟨place, found⟩ := mem_structures.mp member
  obtain ⟨place', there⟩ := mem_structures.mp belongs
  rw [settled.place_eq found there number same, found] at there
  exact Option.some.inj there

end Numbers

structure Follows (session : Session K V) (direct direct' : Multiset Extent)
    (touched : Option Place) (later : Session K V) : Prop where
  settled : later.Settled direct'
  leaves : session.Leaves later (· ∈ touched)
  warned : ∃ ended, session.process.Warns later.process direct ended
  level : later.process.journal.level = session.process.journal.level
  /-- Symbols are named by requests to interners only. -/
  symbols : (∀ name, ¬ .interner name ∈ touched) → later.symbols = session.symbols
  nextRegion : session.process.nextRegion ≤ later.process.nextRegion

/-- What concerns no structure at all concerns no other than this one. -/
theorem Follows.widen (follows : session.Follows direct direct' none later)
    (touched : Option Place) : session.Follows direct direct' touched later where
  settled := follows.settled
  leaves :=
    { found := fun place _ => follows.leaves.found place (Option.not_mem_none place)
      intact := fun place object _ =>
        follows.leaves.intact place object (Option.not_mem_none place) }
  warned := follows.warned
  level := follows.level
  symbols := fun _ => follows.symbols fun name => Option.not_mem_none (Place.interner name)
  nextRegion := follows.nextRegion

theorem Keeps.follows (keeps : session.Keeps direct place later)
    (settled : session.Settled direct) : session.Follows direct direct (some place) later where
  settled := keeps.settled
  leaves :=
    { found := fun other apart =>
        keeps.leaves.found other fun same => apart (Option.mem_some_iff.mpr same.symm)
      intact := fun other object apart =>
        keeps.leaves.intact other object fun same => apart (Option.mem_some_iff.mpr same.symm) }
  warned := ⟨[], settled.warns_none keeps.settled
    (fun _ member => Multiset.mem_of_le keeps.stays.holders.ge member) keeps.stays.warnings⟩
  level := keeps.stays.level
  symbols := fun _ => keeps.symbols
  nextRegion := Nat.le_of_eq keeps.nextRegion.symm

theorem Settled.follows (settled : session.Settled direct) (touched : Option Place) :
    session.Follows direct direct touched session where
  settled := settled
  leaves := ⟨fun _ _ => rfl, fun _ _ _ _ _ _ => rfl⟩
  warned := ⟨[], settled.warns_none settled (fun _ member => member) rfl⟩
  level := rfl
  symbols := fun _ => rfl
  nextRegion := Nat.le_refl _

theorem Follows.renamed (follows : session.Follows direct direct' touched later)
    (blocks : Names Nat) (handles : Names Region.Handle) :
    session.Follows direct direct' touched { later with blocks, handles } where
  settled := ⟨follows.settled.fit, follows.settled.houses, follows.settled.numbered,
    follows.settled.known, follows.settled.issued⟩
  leaves :=
    { found := fun place apart =>
        (show find? { later with blocks, handles } place = later.find? place by
          cases place <;> rfl).trans (follows.leaves.found place apart)
      intact := follows.leaves.intact }
  warned := follows.warned
  level := follows.level
  symbols := follows.symbols
  nextRegion := follows.nextRegion

theorem Follows.named {symbol : Symbol} {interner : Interner} {place : String}
    (follows : session.Follows direct direct' (some (.interner place)) later)
    (belongs : .interner interner ∈ later.structures) (issues : interner.Issues symbol)
    (name : String) :
    session.Follows direct direct' (some (.interner place))
      { later with symbols := later.symbols.insert name symbol } where
  settled :=
    { fit := follows.settled.fit
      houses := follows.settled.houses
      numbered := follows.settled.numbered
      known := follows.settled.known
      issued := by
        intro other known present
        change (later.symbols.insert name symbol)[other]? = some known at present
        rw [Names.getElem?_insert] at present
        split at present
        · cases present
          refine ⟨?_, ?_⟩
          · rw [issues.id]
            exact follows.settled.known _ ((Multiset.mem_filterMap _ _).mpr ⟨_, belongs, rfl⟩)
          · intro interner' belongs' names
            have equal := follows.settled.eq_of_regionId belongs belongs' rfl
              (congrArg some (names.symm.trans issues.id))
            cases equal
            exact issues
        · exact follows.settled.issued other known present }
  leaves :=
    { found := fun place apart =>
        (show find? { later with symbols := later.symbols.insert name symbol } place =
          later.find? place by cases place <;> rfl).trans (follows.leaves.found place apart)
      intact := follows.leaves.intact }
  warned := follows.warned
  level := follows.level
  symbols := fun none => absurd rfl (none place)
  nextRegion := follows.nextRegion

end Session

end SymbolStore
