import SymbolStore.Proofs.Session.Structure

/-!
Sessions whose process is settled: the blocks of the structures and those that the client asked for
itself are all the blocks that anybody has, and nobody has one of another.
-/

namespace SymbolStore

open SymbolStore.Action (Ends)

namespace Process

def account (process : Process) (holders : Multiset Manager) : Account where
  holders
  config manager := (manager.ledgerIn process).config
  level := process.journal.level
  warnings := process.journal.warnings
  nextRegion := process.nextRegion

theorem Houses.own {process : Process} {extents : Multiset Extent} {account : Account}
    (houses : process.Houses extents account) (none : account.kept = 0) :
    process.Houses extents (process.account account.holders) := by
  obtain ⟨blocks, same, settled⟩ := houses
  refine ⟨blocks, same, ?_⟩
  rw [none] at settled
  exact { settled with
    config := fun _ _ => rfl, level := rfl, warnings := rfl, nextRegion := rfl }

theorem Houses.level {process : Process} {extents : Multiset Extent} {account : Account}
    (houses : process.Houses extents account) : process.journal.level = account.level := by
  obtain ⟨_, -, settled⟩ := houses
  exact settled.level

theorem Houses.warnings {process : Process} {extents : Multiset Extent} {account : Account}
    (houses : process.Houses extents account) : process.journal.warnings = account.warnings := by
  obtain ⟨_, -, settled⟩ := houses
  exact settled.warnings

theorem Houses.config {process : Process} {extents : Multiset Extent} {account : Account}
    {manager : Manager} (houses : process.Houses extents account)
    (holder : manager ∈ account.holders) :
    (manager.ledgerIn process).config = account.config manager := by
  obtain ⟨_, -, settled⟩ := houses
  exact settled.config manager holder

def Intact (process later : Process) (extents : Multiset Extent) : Prop :=
  ∀ extent ∈ extents, later.heap.find? extent.address = process.heap.find? extent.address

theorem Intact.trans {process middle later : Process} {extents : Multiset Extent}
    (first : process.Intact middle extents) (second : middle.Intact later extents) :
    process.Intact later extents :=
  fun extent member => (second extent member).trans (first extent member)

theorem Intact.mono {process later : Process} {extents others : Multiset Extent}
    (intact : process.Intact later extents) (part : others ⊆ extents) :
    process.Intact later others :=
  fun extent member => intact extent (part member)

theorem intact_of_kept {process after : Process} {extents others : Multiset Extent}
    {account later : Account} {aside : Multiset (Nat × Block)} (begun : process.Houses extents account)
    (kept : aside ≤ account.kept) (ended : after.Houses others later) (still : aside ≤ later.kept) :
    process.Intact after (aside.map Extent.of) := by
  intro extent member
  obtain ⟨entry, there, rfl⟩ := Multiset.mem_map.mp member
  have before := begun.kept (Multiset.mem_of_le kept there)
  exact (ended.kept (Multiset.mem_of_le still there)).trans before.symm

end Process

namespace Session

variable {K V : Type} {session later : Session K V} {place : Place} {object new : Structure K V}
  {direct : Multiset Extent} {name : String}

/-- Every holder of a manager, as often as it holds it. -/
def holders (session : Session K V) : Multiset Manager :=
  (session.structures.map Structure.holders).sum

def holdings (session : Session K V) : Multiset Extent :=
  (session.structures.map Structure.holdings).sum

/-- All structures are in order, they have their blocks, and the client has the direct ones. -/
structure Arranged (process : Process) (symbols : Names Symbol) (direct : Multiset Extent)
    (structures : Multiset (Structure K V)) : Prop where
  fit : ∀ object ∈ structures, object.Fit
  houses : process.Houses ((structures.map Structure.holdings).sum + direct)
    (process.account (structures.map Structure.holders).sum)
  numbered : (structures.filterMap Structure.regionId?).Nodup
  known : ∀ id ∈ structures.filterMap Structure.regionId?, id < process.nextRegion
  /-- A symbol that names an interner names a place in its region. -/
  issued : ∀ (name : String) symbol, symbols[name]? = some symbol →
    symbol.interner < process.nextRegion ∧
      ∀ interner, .interner interner ∈ structures →
        symbol.interner = interner.region.id → interner.Issues symbol

/-- The structures of the session are all that there are. -/
abbrev Settled (session : Session K V) (direct : Multiset Extent) : Prop :=
  Arranged session.process session.symbols direct session.structures

/-- Structures at all other places are as they were, and their blocks have the bytes that they
had. -/
structure Leaves (session later : Session K V) (touched : Place → Prop) : Prop where
  found : ∀ place, ¬ touched place → later.find? place = session.find? place
  intact : ∀ place object, ¬ touched place → session.find? place = some object →
    session.process.Intact later.process object.holdings

/-- No manager has another number of holders, and nothing was printed as a warning. -/
structure Stays (session later : Session K V) : Prop where
  holders : later.holders = session.holders
  level : later.process.journal.level = session.process.journal.level
  warnings : later.process.journal.warnings = session.process.journal.warnings

structure Keeps (session : Session K V) (direct : Multiset Extent) (place : Place)
    (later : Session K V) : Prop where
  settled : later.Settled direct
  leaves : session.Leaves later (· = place)
  stays : session.Stays later
  symbols : later.symbols = session.symbols
  nextRegion : later.process.nextRegion = session.process.nextRegion

section Change

variable (session) (name) (object) (place)

@[simp] theorem process_put : (session.put name object).process = session.process := by
  cases object <;> rfl

@[simp] theorem symbols_put : (session.put name object).symbols = session.symbols := by
  cases object <;> rfl

@[simp] theorem process_without : (session.without place).process = session.process := by
  cases place <;> rfl

@[simp] theorem symbols_without : (session.without place).symbols = session.symbols := by
  cases place <;> rfl

end Change

theorem holdings_cons (object : Structure K V) (structures : Multiset (Structure K V)) :
    ((object ::ₘ structures).map Structure.holdings).sum =
      object.holdings + (structures.map Structure.holdings).sum := by
  rw [Multiset.map_cons, Multiset.sum_cons]

theorem holders_cons (object : Structure K V) (structures : Multiset (Structure K V)) :
    ((object ::ₘ structures).map Structure.holders).sum =
      object.holders + (structures.map Structure.holders).sum := by
  rw [Multiset.map_cons, Multiset.sum_cons]

theorem regionIds_cons (object : Structure K V) (structures : Multiset (Structure K V)) :
    (object ::ₘ structures).filterMap Structure.regionId? =
      ((object.regionId?.toList : List Nat) : Multiset Nat) +
        structures.filterMap Structure.regionId? := by
  cases number : object.regionId? with
  | none =>
      rw [Multiset.filterMap_cons_none _ _ number]
      exact (zero_add _).symm
  | some id =>
      rw [Multiset.filterMap_cons_some _ _ _ number]
      exact (Multiset.singleton_add id _).symm

section Kinds

variable {manager : Manager} {array : FlatArray} {region : Region} {interner : Interner}
  {dictionary : Dictionary K V}

theorem find?_manager (named : session.managers[name]? = some manager) :
    session.find? (.manager name) = some (.holder manager) :=
  congrArg (Option.map Structure.holder) named

theorem find?_array (named : session.arrays[name]? = some array) :
    session.find? (.array name) = some (.array array) :=
  congrArg (Option.map Structure.array) named

theorem find?_region (named : session.regions[name]? = some region) :
    session.find? (.region name) = some (.region region) :=
  congrArg (Option.map Structure.region) named

theorem find?_interner (named : session.interners[name]? = some interner) :
    session.find? (.interner name) = some (.interner interner) :=
  congrArg (Option.map Structure.interner) named

theorem find?_dictionary (named : session.dictionaries[name]? = some dictionary) :
    session.find? (.dictionary name) = some (.dictionary dictionary) :=
  congrArg (Option.map Structure.dictionary) named

end Kinds

theorem mem_holdings {extent : Extent} (found : session.find? place = some object)
    (member : extent ∈ object.holdings) : extent ∈ session.holdings := by
  rw [holdings, structures_of_find? found, holdings_cons]
  exact Multiset.mem_add.mpr (.inl member)

theorem manager_mem_holders (found : session.find? place = some object) :
    object.manager ∈ session.holders := by
  rw [holders, structures_of_find? found, holders_cons]
  exact Multiset.mem_add.mpr (.inl object.manager_mem_holders)

section Arranged

variable {process after : Process} {symbols : Names Symbol} {structures : Multiset (Structure K V)}

theorem Arranged.congr {others : Multiset (Structure K V)}
    (arranged : Arranged process symbols direct structures) (same : structures = others) :
    Arranged process symbols direct others := same ▸ arranged

/-- A structure has an account of its own, and what becomes of it there becomes of all of them. -/
theorem Arranged.frame (arranged : Arranged process symbols direct (object ::ₘ structures)) :
    ∃ others : Account,
      others.holders = ((object ::ₘ structures).map Structure.holders).sum ∧
      object.Stocked process others ∧
      ∀ (new : Structure K V) (after : Process), object.Same new → new.Stocked after others →
        Arranged after symbols direct (new ::ₘ structures) ∧
        process.Intact after ((structures.map Structure.holdings).sum + direct) ∧
        after.journal.level = process.journal.level ∧
        after.journal.warnings = process.journal.warnings ∧
        after.nextRegion = process.nextRegion := by
  have houses := arranged.houses
  rw [holdings_cons, add_assoc] at houses
  obtain ⟨aside, left, mine⟩ := houses.frame
  refine ⟨_, rfl, arranged.fit object (Multiset.mem_cons_self _ _) _ _ mine, ?_⟩
  intro new after same stocked
  have whole := stocked.houses.unframe
  rw [left] at whole
  have nextRegion : after.nextRegion = process.nextRegion := whole.nextRegion
  refine ⟨?_, ?_, whole.level, whole.warnings, nextRegion⟩
  · constructor
    · intro other belongs
      rcases Multiset.mem_cons.mp belongs with rfl | belongs
      · exact stocked.fit
      · exact arranged.fit other (Multiset.mem_cons_of_mem belongs)
    · have own := whole.own rfl
      rw [holdings_cons, holders_cons, same.holders_eq, add_assoc, ← holders_cons]
      exact own
    · rw [regionIds_cons, same.regionId?_eq, ← regionIds_cons]
      exact arranged.numbered
    · rw [regionIds_cons, same.regionId?_eq, ← regionIds_cons, nextRegion]
      exact arranged.known
    · intro name symbol named
      obtain ⟨small, issued⟩ := arranged.issued name symbol named
      refine ⟨nextRegion ▸ small, ?_⟩
      intro interner belongs names
      rcases Multiset.mem_cons.mp belongs with rfl | belongs
      · cases same with
        | interner same =>
            exact (issued _ (Multiset.mem_cons_self _ _) (names.trans same.region.id)).mono same
      · exact issued interner (Multiset.mem_cons_of_mem belongs) names
  · rw [← left]
    exact Process.intact_of_kept mine (Multiset.le_add_right _ _) stocked.houses
      (Multiset.le_add_right _ _)

theorem Arranged.stocked (arranged : Arranged process symbols direct structures)
    (member : object ∈ structures) : ∃ account, object.Stocked process account := by
  obtain ⟨others, rfl⟩ := Multiset.exists_cons_of_mem member
  obtain ⟨account, -, stocked, -⟩ := arranged.frame
  exact ⟨account, stocked⟩

end Arranged

theorem Settled.frame (settled : session.Settled direct)
    (found : session.find? place = some object) (located : object.place name = place) :
    ∃ others : Account, others.holders = session.holders ∧
      object.Stocked session.process others ∧
      ∀ (new : Structure K V) (after : Process), object.Same new → new.Stocked after others →
        session.Keeps direct place (put { session with process := after } name new) := by
  obtain ⟨others, holders, stocked, back⟩ :=
    Arranged.frame (settled.congr (structures_of_find? found))
  rw [← structures_of_find? found] at holders
  refine ⟨others, holders, stocked, ?_⟩
  intro new after same there
  obtain ⟨arranged, intact, level, warnings, nextRegion⟩ := back new after same there
  have located : new.place name = place := (same.place_eq name).trans located
  have rest : (put { session with process := after } name new).structures =
      new ::ₘ (session.without place).structures := by
    rw [structures_put, located]
    cases place <;> rfl
  constructor
  · rw [Settled, process_put, symbols_put, rest]
    exact arranged
  · constructor
    · intro other apart
      rw [find?_put, located, if_neg (Ne.symm apart)]
      cases other <;> rfl
    · intro other occupant apart present extent belongs
      have remains : (session.without place).find? other = some occupant := by
        rw [find?_without, if_neg (Ne.symm apart), present]
      rw [process_put]
      exact intact extent (Multiset.mem_add.mpr (.inl (mem_holdings remains belongs)))
  · constructor
    · rw [Session.holders, rest, holders_cons, same.holders_eq, ← holders_cons,
        ← structures_of_find? found, Session.holders]
    · rw [process_put]
      exact level
    · rw [process_put]
      exact warnings
  · rw [symbols_put]
  · rw [process_put]
    exact nextRegion

end Session

end SymbolStore
