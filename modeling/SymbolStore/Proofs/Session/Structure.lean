import SymbolStore.Proofs.Dictionary.Stocked
import SymbolStore.Proofs.Interner.Stocked
import SymbolStore.Proofs.Memory.FlatArray
import SymbolStore.Proofs.Session.Names

/-!
The structures of a session: its arrays, regions, interners and dictionaries, each with its blocks
and as often a holder of its manager as it holds it. A name for a manager holds it as well, and has
no blocks.
-/

namespace SymbolStore

open SymbolStore.Action (Ends)

variable {K V : Type}

inductive Place
  | manager (name : String)
  | array (name : String)
  | region (name : String)
  | interner (name : String)
  | dictionary (name : String)
  deriving DecidableEq, Repr

/-- What holds a manager, and may have blocks. -/
inductive Structure (K V : Type)
  | holder (manager : Manager)
  | array (array : FlatArray)
  | region (region : Region)
  | interner (interner : Interner)
  | dictionary (dictionary : Dictionary K V)

namespace Structure

def place (name : String) : Structure K V → Place
  | .holder _ => .manager name
  | .array _ => .array name
  | .region _ => .region name
  | .interner _ => .interner name
  | .dictionary _ => .dictionary name

def manager : Structure K V → Manager
  | .holder manager => manager
  | .array inner => inner.manager
  | .region inner => inner.manager
  | .interner inner => inner.manager
  | .dictionary inner => inner.manager

def holdings : Structure K V → Multiset Extent
  | .holder _ => 0
  | .array inner => inner.holdings
  | .region inner => inner.holdings
  | .interner inner => inner.holdings
  | .dictionary inner => inner.holdings

/-- The structure as often as it holds its manager: the region of an interner does so as well. -/
def holders : Structure K V → Multiset Manager
  | .interner inner => {inner.manager, inner.manager}
  | other => {other.manager}

def regionId? : Structure K V → Option Nat
  | .region inner => some inner.id
  | .interner inner => some inner.region.id
  | _ => none

def discard : Structure K V → Action Process Unit
  | .holder manager => manager.release
  | .array inner => inner.discard
  | .region inner => inner.discard
  | .interner inner => inner.discard
  | .dictionary inner => inner.discard

def Stocked (process : Process) (account : Account) : Structure K V → Prop
  | .holder _ => process.Houses 0 account
  | .array inner => process.Houses inner.holdings account
  | .region inner => inner.Stocked process account
  | .interner inner => inner.Stocked process account
  | .dictionary inner => inner.Stocked process account

/-- The structure is in order, wherever it has its blocks. -/
def Fit (object : Structure K V) : Prop :=
  ∀ (process : Process) (account : Account), process.Houses object.holdings account →
    object.Stocked process account

inductive Same : Structure K V → Structure K V → Prop
  | holder (manager : Manager) : Same (.holder manager) (.holder manager)
  | array {inner after : FlatArray} (same : inner.Same after) : Same (.array inner) (.array after)
  | region {inner after : Region} (same : inner.Same after) : Same (.region inner) (.region after)
  | interner {inner after : Interner} (same : inner.Same after) :
    Same (.interner inner) (.interner after)
  | dictionary {inner after : Dictionary K V} (same : inner.Same after) :
    Same (.dictionary inner) (.dictionary after)

variable {object later : Structure K V} {process : Process} {account : Account}

theorem Same.place_eq (same : object.Same later) (name : String) :
    later.place name = object.place name := by
  cases same <;> rfl

theorem Same.holders_eq (same : object.Same later) : later.holders = object.holders := by
  cases same with
  | holder => rfl
  | array same | region same | interner same | dictionary same =>
      simp only [holders, manager, same.manager]

theorem Same.regionId?_eq (same : object.Same later) : later.regionId? = object.regionId? := by
  cases same with
  | holder | array | dictionary => rfl
  | region same => exact congrArg some same.id
  | interner same => exact congrArg some same.region.id

theorem Stocked.houses (stocked : object.Stocked process account) :
    process.Houses object.holdings account := by
  cases object with
  | holder | array => exact stocked
  | region => exact Region.Stocked.houses stocked
  | interner => exact Interner.Stocked.houses stocked
  | dictionary => exact Dictionary.Stocked.houses stocked

theorem Stocked.fit (stocked : object.Stocked process account) : object.Fit := by
  intro after others houses
  cases object with
  | holder | array => exact houses
  | region => exact { (stocked : Region.Stocked ..) with houses }
  | interner => exact { (stocked : Interner.Stocked ..) with houses }
  | dictionary => exact { (stocked : Dictionary.Stocked ..) with houses }

theorem manager_mem_holders (object : Structure K V) : object.manager ∈ object.holders := by
  cases object with
  | interner inner => exact Multiset.mem_cons_self inner.manager {inner.manager}
  | _ => exact Multiset.mem_singleton_self _

theorem eq_manager_of_mem_holders {manager : Manager} (member : manager ∈ object.holders) :
    manager = object.manager := by
  cases object with
  | interner inner =>
      change manager ∈ inner.manager ::ₘ {inner.manager} at member
      rcases Multiset.mem_cons.mp member with first | second
      · exact first
      · exact Multiset.mem_singleton.mp second
  | _ => exact Multiset.mem_singleton.mp member

theorem manager_of_mem_holdings (stocked : object.Stocked process account) {extent : Extent}
    (member : extent ∈ object.holdings) : extent.manager = object.manager := by
  have chunks (region : Region) (there : extent ∈ region.holdings) :
      extent.manager = region.manager := by
    obtain ⟨chunk, -, rfl⟩ := Multiset.mem_map.mp there
    rfl
  cases object with
  | holder => exact absurd member (Multiset.notMem_zero extent)
  | array => exact congrArg Extent.manager (Multiset.mem_singleton.mp member)
  | region region => exact chunks region member
  | interner inner =>
      change extent ∈ inner.holdings at member
      rw [Interner.holdings] at member
      rcases Multiset.mem_cons.mp member with rfl | there
      · rfl
      · exact (chunks _ there).trans (Interner.Stocked.manager stocked)
  | dictionary inner =>
      change extent ∈ inner.holdings at member
      rw [Dictionary.holdings] at member
      rcases Multiset.mem_cons.mp member with rfl | there
      · rfl
      · obtain ⟨block, -, rfl⟩ := Multiset.mem_map.mp there
        rfl

theorem discard_houses (stocked : object.Stocked process
      { account with holders := object.holders + account.holders }) :
    Ends object.discard process
      (fun _ after => after.Houses 0 (account.parted object.manager)) fun _ _ => False := by
  have houses := stocked.houses
  cases object with
  | holder manager =>
      change process.Houses _ { account with holders := {manager} + account.holders } at houses
      rw [Multiset.singleton_add] at houses
      exact houses.release
  | array array =>
      change process.Houses _ { account with holders := {array.manager} + account.holders } at houses
      rw [Multiset.singleton_add] at houses
      exact FlatArray.discard_houses houses
  | region region =>
      change process.Houses _ { account with holders := {region.manager} + account.holders }
        at houses
      rw [Multiset.singleton_add] at houses
      exact Region.discard_stocked houses
  | interner interner =>
      change process.Houses _
        { account with holders := (interner.manager ::ₘ {interner.manager}) + account.holders }
        at houses
      rw [Multiset.cons_add, Multiset.singleton_add] at houses
      exact Interner.discard_houses (Interner.Stocked.manager stocked) houses
  | dictionary dictionary =>
      change process.Houses _ { account with holders := {dictionary.manager} + account.holders }
        at houses
      rw [Multiset.singleton_add] at houses
      exact Dictionary.discard_houses houses

end Structure

namespace Session

variable {session : Session K V} {place : Place} {object : Structure K V}

def find? (session : Session K V) : Place → Option (Structure K V)
  | .manager name => (session.managers[name]?).map .holder
  | .array name => (session.arrays[name]?).map .array
  | .region name => (session.regions[name]?).map .region
  | .interner name => (session.interners[name]?).map .interner
  | .dictionary name => (session.dictionaries[name]?).map .dictionary

def put (session : Session K V) (name : String) : Structure K V → Session K V
  | .holder manager => { session with managers := session.managers.insert name manager }
  | .array array => { session with arrays := session.arrays.insert name array }
  | .region region => { session with regions := session.regions.insert name region }
  | .interner interner => { session with interners := session.interners.insert name interner }
  | .dictionary dictionary =>
    { session with dictionaries := session.dictionaries.insert name dictionary }

def without (session : Session K V) : Place → Session K V
  | .manager name => { session with managers := session.managers.erase name }
  | .array name => { session with arrays := session.arrays.erase name }
  | .region name => { session with regions := session.regions.erase name }
  | .interner name => { session with interners := session.interners.erase name }
  | .dictionary name => { session with dictionaries := session.dictionaries.erase name }

def structures (session : Session K V) : Multiset (Structure K V) :=
  session.managers.objects.map .holder + session.arrays.objects.map .array +
    session.regions.objects.map .region + session.interners.objects.map .interner +
      session.dictionaries.objects.map .dictionary

theorem mem_structures : object ∈ session.structures ↔ ∃ place, session.find? place = some object := by
  have named {α : Type} {make : α → Structure K V} {names : Names α} :
      object ∈ names.objects.map make ↔ ∃ name : String, (names[name]?).map make = some object := by
    rw [Multiset.mem_map]
    constructor
    · intro member
      obtain ⟨a, there, rfl⟩ := member
      obtain ⟨name, named⟩ := Names.mem_objects.mp there
      refine ⟨name, ?_⟩
      rw [named]
      rfl
    · intro member
      obtain ⟨name, there⟩ := member
      obtain ⟨a, named, rfl⟩ := Option.map_eq_some_iff.mp there
      exact ⟨a, Names.mem_objects.mpr ⟨name, named⟩, rfl⟩
  rw [structures, Multiset.mem_add, Multiset.mem_add, Multiset.mem_add, Multiset.mem_add, named,
    named, named, named, named]
  constructor
  · intro member
    rcases member with
      (((⟨name, there⟩ | ⟨name, there⟩) | ⟨name, there⟩) | ⟨name, there⟩) | ⟨name, there⟩
    · exact ⟨.manager name, there⟩
    · exact ⟨.array name, there⟩
    · exact ⟨.region name, there⟩
    · exact ⟨.interner name, there⟩
    · exact ⟨.dictionary name, there⟩
  · intro member
    obtain ⟨place, there⟩ := member
    cases place with
    | manager name => exact .inl (.inl (.inl (.inl ⟨name, there⟩)))
    | array name => exact .inl (.inl (.inl (.inr ⟨name, there⟩)))
    | region name => exact .inl (.inl (.inr ⟨name, there⟩))
    | interner name => exact .inl (.inr ⟨name, there⟩)
    | dictionary name => exact .inr ⟨name, there⟩

theorem structures_of_find? (found : session.find? place = some object) :
    session.structures = object ::ₘ (session.without place).structures := by
  cases place with
  | manager name | array name | region name | interner name | dictionary name =>
      obtain ⟨inner, named, rfl⟩ := Option.map_eq_some_iff.mp found
      simp only [structures, without, Names.objects_of_named named, Multiset.map_cons,
        Multiset.cons_add, Multiset.add_cons]

theorem structures_put (session : Session K V) (name : String) (object : Structure K V) :
    (session.put name object).structures =
      object ::ₘ (session.without (object.place name)).structures := by
  cases object with
  | holder | array | region | interner | dictionary =>
      simp only [structures, put, without, Structure.place, Names.objects_insert,
        Multiset.map_cons, Multiset.cons_add, Multiset.add_cons]

theorem structures_without_of_none (absent : session.find? place = none) :
    (session.without place).structures = session.structures := by
  cases place with
  | manager name | array name | region name | interner name | dictionary name =>
      have unnamed := Option.map_eq_none_iff.mp absent
      simp only [structures, without, Names.objects_erase_of_unnamed unnamed]

theorem find?_put (session : Session K V) (name : String) (object : Structure K V)
    (place : Place) :
    (session.put name object).find? place =
      if object.place name = place then some object else session.find? place := by
  cases object with
  | holder | array | region | interner | dictionary =>
      cases place with
      | manager other | array other | region other | interner other | dictionary other =>
          simp only [put, find?, Structure.place, reduceCtorEq, if_false, Place.manager.injEq, Place.array.injEq,
            Place.region.injEq, Place.interner.injEq, Place.dictionary.injEq, Names.getElem?_insert]
          try split <;> rfl

theorem find?_without (session : Session K V) (place other : Place) :
    (session.without place).find? other =
      if place = other then none else session.find? other := by
  cases place with
  | manager | array | region | interner | dictionary =>
      cases other with
      | manager other | array other | region other | interner other | dictionary other =>
          simp only [without, find?, reduceCtorEq, if_false, Place.manager.injEq, Place.array.injEq,
            Place.region.injEq, Place.interner.injEq, Place.dictionary.injEq, Names.getElem?_erase]
          try split <;> rfl

end Session

end SymbolStore
