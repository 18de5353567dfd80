import SymbolStore.Proofs.Session.Structure
import SymbolStore.Proofs.Twin.Arrays
import SymbolStore.Proofs.Twin.Dictionaries
import SymbolStore.Proofs.Twin.Interners

/-!
Structures of two processes that stand for each other, whatever their kind, and what they show of
themselves without their addresses.
-/

namespace SymbolStore

open SymbolStore.Action (Lockstep)
open SymbolStore.Process (Twins)

variable {K V O : Type} {allocator : Allocator} {names later : Renaming}
  {rest extents : Multiset Extent} {room a b : Nat} {p q : Process}

theorem Interner.rename_congr {interner : Interner} (level : interner.Level names)
    (keeps : names.Keeps later interner.holdings) : interner.rename later = interner.rename names := by
  have chunks : names.Keeps later interner.region.holdings := keeps.mono (Multiset.le_cons_self _ _)
  have block : later.block interner.table.block = names.block interner.table.block :=
    keeps.block (interner.table.extent interner.manager) (Multiset.mem_cons_self _ _)
  rw [rename, rename, Region.rename_congr chunks, BucketArray.rename_congr block fun entry member =>
    entry_congr chunks (level.inside entry member)]

theorem Region.Level.renumbered {region : Region} (level : region.Level names)
    (block : later.block = names.block) : region.Level later :=
  ⟨level.least, fun chunk member =>
    have level := level.chunks chunk member
    ⟨level.filled, level.here, block ▸ level.there⟩⟩

theorem Region.rename_eq {region : Region} (block : later.block = names.block)
    (number : later.region region.id = names.region region.id) :
    region.rename later = region.rename names := by
  have chunks : Chunk.rename later = Chunk.rename names := by
    funext chunk
    rw [Chunk.rename, Chunk.rename, block]
  rw [rename, rename, chunks, number]

namespace Structure

def rename (names : Renaming) : Structure K V → Structure K V
  | .holder manager => .holder manager
  | .array inner => .array (inner.rename names)
  | .region inner => .region (inner.rename names)
  | .interner inner => .interner (inner.rename names)
  | .dictionary inner => .dictionary (inner.rename names)

/-- Chunks and those that stand for them start at the same places of their pages. -/
def Level (names : Renaming) : Structure K V → Prop
  | .region inner => inner.Level names
  | .interner inner => inner.Level names
  | _ => True

def fixed : Structure K V → Multiset Extent
  | .region inner => inner.holdings
  | .interner inner => inner.region.holdings
  | _ => 0

def internerId? : Structure K V → Option Nat
  | .interner inner => some inner.region.id
  | _ => none

abbrev Beside := SymbolStore.Beside (holdings : Structure K V → Multiset Extent) rename Level

abbrev Onto := SymbolStore.Onto (holdings : Structure K V → Multiset Extent) rename Level fixed
  regionId?

variable {object other : Structure K V}

@[simp] theorem place_rename (names : Renaming) (object : Structure K V) (name : String) :
    (object.rename names).place name = object.place name := by
  cases object <;> rfl

@[simp] theorem regionId?_rename (names : Renaming) (object : Structure K V) :
    (object.rename names).regionId? = object.regionId?.map names.region := by
  cases object <;> rfl

theorem rename_congr (level : object.Level names) (keeps : names.Keeps later object.holdings) :
    object.rename later = object.rename names := by
  cases object with
  | holder => rfl
  | array inner =>
      have block : later.block inner.block = names.block inner.block :=
        keeps.block _ (Multiset.mem_singleton_self _)
      rw [rename, rename, FlatArray.rename, FlatArray.rename, block]
  | region inner => exact congrArg Structure.region (Region.rename_congr keeps)
  | interner inner => exact congrArg Structure.interner (Interner.rename_congr level keeps)
  | dictionary inner => exact congrArg Structure.dictionary (Dictionary.rename_congr keeps)

theorem Level.renumbered (level : object.Level names) (block : later.block = names.block) :
    object.Level later := by
  cases object with
  | holder | array | dictionary => trivial
  | region => exact Region.Level.renumbered level block
  | interner => exact ⟨(Interner.Level.region level).renumbered block, level.align, level.inside⟩

/-- Of numbers of regions only its own matters to a structure. -/
theorem rename_eq (block : later.block = names.block)
    (number : ∀ id, object.regionId? = some id → later.region id = names.region id) :
    object.rename later = object.rename names := by
  obtain ⟨blocks, numbers⟩ := names
  obtain ⟨_, numbers'⟩ := later
  obtain rfl := block
  cases object with
  | holder | array | dictionary => rfl
  | region inner =>
      exact congrArg Structure.region (Region.rename_eq rfl (number inner.id rfl))
  | interner inner =>
      have region : inner.region.rename ⟨_, numbers'⟩ = inner.region.rename ⟨_, numbers⟩ :=
        Region.rename_eq rfl (number inner.region.id rfl)
      rw [rename, rename, Interner.rename, Interner.rename, region]
      rfl

theorem discard_tandem {excused pardoned : Failure → Process → Prop}
    (twins : Twins allocator names (object.holdings + rest) room p q) :
    Lockstep excused pardoned object.discard (object.rename names).discard p q
      (fun _ _ => Twins allocator names rest room) fun _ _ _ => False := by
  cases object with
  | holder manager =>
      rw [holdings, zero_add] at twins
      exact twins.release manager
  | array => exact FlatArray.discard_tandem twins
  | region => exact Region.discard_tandem twins
  | interner => exact Interner.discard_tandem twins
  | dictionary => exact Dictionary.discard_tandem twins

/-- The structures of a kind are made of objects that have places, blocks, numbers and other names
of their own. -/
structure Kind (make : O → Structure K V) (place : String → Place) (holdings : O → Multiset Extent)
    (rename : Renaming → O → O) (Level : Renaming → O → Prop) (fixed : O → Multiset Extent)
    (number : O → Option Nat) : Prop where
  apart {name other : String} : place name ≠ .manager other
  place (name : String) (o : O) : (make o).place name = place name
  holdings (o : O) : (make o).holdings = holdings o
  rename (names : Renaming) (o : O) : (make o).rename names = make (rename names o)
  level (names : Renaming) (o : O) : (make o).Level names ↔ Level names o
  fixed (o : O) : (make o).fixed = fixed o
  symbols {o o' : O} : number o' = number o → (make o').internerId? = (make o).internerId?
  number (o : O) : (make o).regionId? = number o
  injective : Function.Injective make

theorem array_kind : Kind (.array : FlatArray → Structure K V) .array FlatArray.holdings
    FlatArray.rename (fun _ _ => True) (fun _ => 0) fun _ => none := by
  refine ⟨Place.noConfusion, ?_, ?_, ?_, ?_, ?_, fun _ => rfl, ?_, fun _ _ => Structure.array.inj⟩ <;>
    intros <;> rfl

theorem region_kind : Kind (.region : Region → Structure K V) .region Region.holdings Region.rename
    Region.Level Region.holdings fun region => some region.id := by
  refine ⟨Place.noConfusion, ?_, ?_, ?_, ?_, ?_, fun _ => rfl, ?_, fun _ _ => Structure.region.inj⟩ <;>
    intros <;> rfl

theorem interner_kind : Kind (.interner : Interner → Structure K V) .interner Interner.holdings
    Interner.rename Interner.Level (fun interner => interner.region.holdings)
    fun interner => some interner.region.id := by
  refine ⟨Place.noConfusion, ?_, ?_, ?_, ?_, ?_, id, ?_, fun _ _ => Structure.interner.inj⟩ <;>
    intros <;> rfl

theorem dictionary_kind : Kind (.dictionary : Dictionary K V → Structure K V) .dictionary
    Dictionary.holdings Dictionary.rename (fun _ _ => True) (fun _ => 0) fun _ => none := by
  refine ⟨Place.noConfusion, ?_, ?_, ?_, ?_, ?_, fun _ => rfl, ?_, fun _ _ => Structure.dictionary.inj⟩ <;>
    intros <;> rfl

section Kinds

variable {make : O → Structure K V} {place : String → Place} {holdings : O → Multiset Extent}
  {rename : Renaming → O → O} {Level : Renaming → O → Prop} {fixed : O → Multiset Extent}
  {number : O → Option Nat} {known : Renaming → Prop} {o : O} {s t : O × Process}
  (kind : Kind make place holdings rename Level fixed number)
include kind

theorem Kind.beside_iff : Beside allocator names rest room (make o, p) (make (rename names o), q) ↔
    SymbolStore.Beside holdings rename Level allocator names rest room (o, p) (rename names o, q) := by
  constructor
  · intro beside
    have twins := beside.twins
    rw [kind.holdings] at twins
    exact ⟨rfl, (kind.level names o).mp beside.level, twins⟩
  · intro beside
    refine ⟨(kind.rename names o).symm, (kind.level names o).mpr beside.level, ?_⟩
    rw [kind.holdings]
    exact beside.twins

theorem Kind.beside {o' : O}
    (beside : SymbolStore.Beside holdings rename Level allocator names rest room (o, p) (o', q)) :
    Beside allocator names rest room (make o, p) (make o', q) := by
  obtain rfl : o' = rename names o := beside.same
  exact kind.beside_iff.mpr beside

theorem Kind.onto
    (onto : SymbolStore.Onto holdings rename Level fixed number allocator names rest room o known s t) :
    Onto allocator names rest room (make o) known (make s.1, s.2) (make t.1, t.2) where
  grows := by
    rw [kind.fixed, kind.fixed]
    exact onto.grows
  number := by
    rw [kind.number, kind.number]
    exact onto.number
  onward := by
    rw [kind.fixed]
    exact onto.onward.mono (le_refl _) fun later _ knows => ⟨kind.beside knows.1, knows.2⟩

end Kinds

end Structure

/-- What a structure shows of itself: how full it is, and what it lists, in its order. -/
inductive View (K V : Type)
  | holder
  | array (elements : List (List UInt8))
  | region (generation remaining : Nat) (usage : Region.Usage)
  | interner (count capacity generation remaining : Nat) (usage : Region.Usage)
    (entries : List (List UInt8 × List UInt8))
  | dictionary (count deleted capacity : Nat) (entries : List (K × V))

namespace Structure

def view (heap : Heap) : Structure K V → View K V
  | .holder _ => .holder
  | .array inner => .array (inner.toList heap)
  | .region inner => .region inner.generation inner.remaining inner.usage
  | .interner inner =>
    .interner inner.count inner.capacity inner.region.generation inner.region.remaining
      inner.region.usage ((inner.toList heap).map Prod.snd)
  | .dictionary inner => .dictionary inner.count inner.deleted inner.capacity inner.toList

/-- Structures that stand for each other show the same. -/
theorem view_rename {object : Structure K V}
    (beside : Beside allocator names rest room (object, p) (object.rename names, q)) :
    (object.rename names).view q.heap = object.view p.heap := by
  cases object with
  | holder => rfl
  | array inner => exact congrArg View.array (FlatArray.toList_rename beside.twins)
  | region inner =>
      simp only [rename, view, Region.remaining_rename, Region.usage_rename]
      rfl
  | interner inner =>
      have beside := interner_kind.beside_iff.mp beside
      simp only [rename, view, Interner.toList_rename beside, Interner.capacity_rename, List.map_map]
      simp only [Interner.rename, Region.remaining_rename, Region.usage_rename]
      rfl
  | dictionary inner =>
      simp only [rename, view, Dictionary.toList_rename, Dictionary.capacity_rename]
      rfl

end Structure

end SymbolStore
