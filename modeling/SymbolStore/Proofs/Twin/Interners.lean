import SymbolStore.Proofs.Interner.Stocked
import SymbolStore.Proofs.Twin.Regions
import SymbolStore.Proofs.Twin.Tables

/-!
Interners of two processes that stand for each other. Their entries are at other addresses, but in
the same buckets and with the same bytes.
-/

namespace SymbolStore

open SymbolStore.Action (Lockstep)
open SymbolStore.Process (Twins)

variable {allocator : Allocator} {grants : Nat → Bool} {names later : Renaming}
  {rest extents : Multiset Extent} {bound room : Nat} {p q : Process} {content : List UInt8}
  {hash : UInt64}

namespace Symbol

def rename (names : Renaming) (symbol : Symbol) : Symbol :=
  { symbol with interner := names.region symbol.interner, entry := symbol.entry.rename names }

/-- The other symbol stands for this one. Where its entry is matters if this is the number of the
interner that is there. -/
structure Alike (names : Renaming) (number : Option Nat) (symbol other : Symbol) : Prop where
  interner : other.interner = names.region symbol.interner
  generation : other.generation = symbol.generation
  entry : number = some symbol.interner → other.entry = symbol.entry.rename names

theorem alike_rename (names : Renaming) (number : Option Nat) (symbol : Symbol) :
    symbol.Alike names number (symbol.rename names) := ⟨rfl, rfl, fun _ => rfl⟩

end Symbol

namespace Entry

section

variable {entry : Pointer} (layout : Layout) (twins : Twins allocator names extents room p q)
  (own : entry.block ∈ extents.map Extent.address)
include twins own

theorem hash_rename : Entry.hash q.heap (entry.rename names) = Entry.hash p.heap entry :=
  congrArg Word.ofBytes (twins.read entry own 8)

theorem length_rename : length q.heap (entry.rename names) = length p.heap entry :=
  congrArg (fun bytes => (Word.ofBytes bytes).toNat) (twins.read (entry.plus 8) own 8)

theorem value_rename : value q.heap layout (entry.rename names) = value p.heap layout entry :=
  twins.read (entry.plus (valueOffset layout)) own layout.size

theorem bytes_rename : bytes q.heap layout (entry.rename names) = bytes p.heap layout entry := by
  rw [bytes, bytes, length_rename twins own]
  exact twins.read (entry.plus (header layout).size) own _

theorem holds_rename : holds q.heap layout content hash (entry.rename names) =
    holds p.heap layout content hash entry := by
  rw [holds, holds, hash_rename twins own, length_rename twins own, bytes_rename layout twins own]

end

end Entry

namespace Interner

def rename (names : Renaming) (interner : Interner) : Interner :=
  { interner with
    region := interner.region.rename names
    table := interner.table.rename names (Pointer.rename names) }

variable {interner : Interner}

@[simp] theorem capacity_rename (names : Renaming) (interner : Interner) :
    (interner.rename names).capacity = interner.capacity := BucketArray.capacity_rename ..

/-- The region can be renamed, the values ask for a moderate alignment, and the entries are in the
region. -/
structure Level (names : Renaming) (interner : Interner) : Prop where
  region : interner.region.Level names
  align : interner.value.align ≤ Allocator.pageSize
  inside : ∀ entry ∈ interner.entries, entry.block ∈ interner.region.holdings.map Extent.address

abbrev Beside := SymbolStore.Beside holdings rename Level

abbrev Onto := SymbolStore.Onto holdings rename Level (fun interner => interner.region.holdings)
  fun interner => some interner.region.id

theorem holdings_add (interner : Interner) (rest : Multiset Extent) : interner.holdings + rest =
    interner.region.holdings + (interner.table.extent interner.manager ::ₘ rest) := by
  rw [holdings, Multiset.cons_add, Multiset.add_cons]

theorem own_of_mem {block : Nat} (member : block ∈ interner.region.holdings.map Extent.address) :
    block ∈ (interner.holdings + rest).map Extent.address := by
  rw [holdings_add, Multiset.map_add]
  exact Multiset.mem_add.mpr (.inl member)

theorem entry_congr {entry : Pointer} (keeps : names.Keeps later extents)
    (own : entry.block ∈ extents.map Extent.address) : entry.rename later = entry.rename names := by
  obtain ⟨extent, member, is⟩ := Multiset.mem_map.mp own
  have block := keeps.block extent member
  rw [is] at block
  rw [Pointer.rename, Pointer.rename, block]

theorem findHashed_mem {heap : Heap} {found : Option Pointer}
    (searched : interner.findHashed heap content hash = .ok found) :
    ∀ entry ∈ found, entry ∈ interner.entries := by
  simp only [findHashed, bind, Except.bind] at searched
  split at searched
  · cases searched
  · split at searched
    · rename_i index _
      cases searched
      intro entry member
      obtain ⟨bucket, present, holds⟩ := Option.bind_eq_some_iff.mp member
      cases bucket <;> cases holds
      exact mem_entries.mpr ⟨index, present⟩
    · cases searched
      exact fun entry none => absurd none (Option.not_mem_none entry)

section Reads

variable (beside : Beside allocator names rest room (interner, p) (interner.rename names, q))
include beside

theorem Beside.own {entry : Pointer} (member : entry ∈ interner.entries) :
    entry.block ∈ (interner.holdings + rest).map Extent.address :=
  own_of_mem (beside.level.inside entry member)

theorem findHashed_rename (content : List UInt8) (hash : UInt64) :
    (interner.rename names).findHashed q.heap content hash =
      (interner.findHashed p.heap content hash).map (Option.map (Pointer.rename names)) := by
  have alike : ∀ entry ∈ interner.entries,
      Entry.holds q.heap interner.value content hash (entry.rename names) =
        Entry.holds p.heap interner.value content hash entry := fun entry member =>
    Entry.holds_rename interner.value beside.twins (beside.own member)
  simp only [findHashed, bind, Except.bind, rename, BucketArray.rename, search_map alike,
    Array.getElem?_map]
  cases search interner.table.buckets hash (Entry.holds p.heap interner.value content hash) with
  | error cause => rfl
  | ok outcome =>
      simp only [Except.map, Search.map]
      cases outcome.finding with
      | found index =>
          dsimp only [pure, Except.pure]
          cases interner.table.buckets[index]? with
          | none => rfl
          | some bucket => exact congrArg Except.ok (Bucket.map_entry _ bucket)
      | vacant | exhausted => rfl

theorem find_rename (content : List UInt8) : (interner.rename names).find q.heap content =
    (interner.find p.heap content).map (Option.map (Pointer.rename names)) :=
  findHashed_rename beside content (interner.hasher content)

theorem lookup_rename (content : List UInt8) : (interner.rename names).lookup q.heap content =
    (interner.lookup p.heap content).map (Option.map (Symbol.rename names)) := by
  rw [lookup, lookup, find_rename beside]
  cases interner.find p.heap content with
  | error cause => rfl
  | ok found => cases found <;> rfl

theorem contains_rename (content : List UInt8) :
    (interner.rename names).contains q.heap content = interner.contains p.heap content := by
  rw [contains, contains, lookup_rename beside]
  cases interner.lookup p.heap content with
  | error cause => rfl
  | ok found => cases found <;> rfl

theorem get_rename (content : List UInt8) :
    (interner.rename names).get q.heap content = interner.get p.heap content := by
  rw [get, get, find_rename beside]
  cases searched : interner.find p.heap content with
  | error cause => rfl
  | ok found =>
      cases found with
      | none => rfl
      | some entry =>
          have own := beside.own (findHashed_mem searched entry rfl)
          have value := Entry.value_rename interner.value beside.twins own
          exact congrArg (fun value => Except.ok (some value)) value

theorem toList_rename : (interner.rename names).toList q.heap =
    (interner.toList p.heap).map fun (symbol, bytes, value) =>
      (symbol.rename names, bytes, value) := by
  rw [toList, toList, List.map_map]
  show (Bucket.entries (interner.table.buckets.map (Bucket.map (Pointer.rename names)))).map _ = _
  rw [Bucket.entries_map, List.map_map]
  refine List.map_congr_left fun entry member => ?_
  have own := beside.own member
  exact congrArg₂ (fun bytes value => ((interner.symbol entry).rename names, bytes, value))
    (Entry.bytes_rename interner.value beside.twins own)
    (Entry.value_rename interner.value beside.twins own)

end Reads

section Symbols

variable {symbol other : Symbol} (alike : symbol.Alike names (some interner.region.id) other)
include alike

/-- A symbol and the one that stands for it are good at the same time. -/
theorem resolve?_rename : Interner.resolve? (interner.rename names) other =
    (interner.resolve? symbol).map (Pointer.rename names) := by
  have number : other.interner = (interner.rename names).region.id ↔
      symbol.interner = interner.region.id := by
    rw [alike.interner]
    exact names.region.injective.eq_iff
  have generation : other.generation = (interner.rename names).region.generation ↔
      symbol.generation = interner.region.generation := by
    rw [alike.generation]
    rfl
  simp only [resolve?, number, generation]
  split
  · rename_i good
    rw [alike.entry (congrArg some good.1.symm), Option.map_some]
  · rfl

variable (issued : symbol.interner = interner.region.id → interner.Issues symbol)
  (beside : Beside allocator names rest room (interner, p) (interner.rename names, q))
include issued beside

omit beside in
theorem resolve?_own {entry : Pointer} (good : interner.resolve? symbol = some entry) :
    entry.block ∈ (interner.holdings + rest).map Extent.address := by
  obtain rfl := resolve?_eq_some.mp good
  exact own_of_mem (Region.mem_holdings (issued rfl).inside)

theorem valueOf_rename :
    (interner.rename names).valueOf q.heap other = interner.valueOf p.heap symbol := by
  rw [valueOf, valueOf, resolve?_rename alike, Option.map_map]
  refine Option.map_congr fun entry good => ?_
  exact Entry.value_rename interner.value beside.twins (resolve?_own alike issued good)

theorem bytesOf_rename :
    (interner.rename names).bytesOf q.heap other = interner.bytesOf p.heap symbol := by
  rw [bytesOf, bytesOf, resolve?_rename alike, Option.map_map]
  refine Option.map_congr fun entry good => ?_
  exact Entry.bytes_rename interner.value beside.twins (resolve?_own alike issued good)

theorem textOf_rename :
    (interner.rename names).textOf q.heap other = interner.textOf p.heap symbol := by
  rw [textOf, textOf, bytesOf_rename alike issued beside]

omit beside in
theorem resolve?_held {entry : Pointer} (good : interner.resolve? symbol = some entry) :
    entry.block ∈ interner.holdings.map Extent.address := by
  have own : entry.block ∈ (interner.holdings + 0).map Extent.address :=
    resolve?_own alike issued good
  rwa [add_zero] at own

theorem setValue_tandem {excused pardoned : Failure → Interner × Process → Prop}
    (value : List UInt8) :
    Lockstep excused pardoned (setValue symbol value) (setValue other value) (interner, p)
      (interner.rename names, q)
      (fun a b s t => b = a ∧ Onto allocator names rest room interner (fun _ => True) s t)
      fun _ => Onto allocator names rest room interner fun _ => True := by
  rw [setValue, setValue]
  refine .step (by rfl) (by rfl) ?_
  rw [resolve?_rename alike]
  cases good : interner.resolve? symbol with
  | none => exact .last (by rfl) (by rfl) ⟨rfl, beside.onto trivial⟩
  | some entry =>
      have held : entry.block ∈ interner.holdings.map Extent.address :=
        resolve?_held alike issued good
      have own : (entry.plus (Entry.valueOffset interner.value)).block ∈
          interner.holdings.map Extent.address := held
      refine Method.lockstep_process (beside.store own _) ?_ ?_
      · exact fun _ _ _ beside => beside.onto trivial
      · exact fun _ _ _ _ beside => .last (by rfl) (by rfl) ⟨rfl, beside.onto trivial⟩

end Symbols

theorem Level.issues (level : interner.Level names) {entry : Pointer}
    (member : entry ∈ interner.entries) : interner.Issues (interner.symbol entry) := by
  have inside := level.inside entry member
  rw [Region.holdings, Multiset.map_map, Multiset.map_coe] at inside
  exact ⟨rfl, inside⟩

theorem found_rename {found : Option Symbol}
    (beside : Beside allocator names rest room (interner, p) (interner.rename names, q))
    (searched : interner.lookup p.heap content = .ok found) :
    (found.map (Symbol.rename names)).map
        (fun symbol => (symbol, (interner.rename names).bytesOf q.heap symbol)) =
      (found.map fun symbol => (symbol, interner.bytesOf p.heap symbol)).map
        (Prod.map (Symbol.rename names) id) := by
  rw [Option.map_map, Option.map_map]
  refine Option.map_congr fun symbol is => ?_
  have issued : interner.Issues symbol := by
    simp only [lookup, find, bind, Except.bind] at searched
    split at searched
    · cases searched
    · rename_i entry? hashed
      cases searched
      obtain ⟨entry, there, rfl⟩ := Option.map_eq_some_iff.mp is
      exact beside.level.issues (findHashed_mem hashed entry there)
  exact congrArg (Prod.mk _)
    (bytesOf_rename (Symbol.alike_rename names _ symbol) (fun _ => issued) beside)

theorem Beside.regrown {table : BucketArray Pointer} {p' q' : Process} {more : Nat}
    (beside : Beside allocator names rest more (interner, p) (interner.rename names, q))
    (less : (Bucket.entries table.buckets : Multiset Pointer) ≤ interner.entries)
    (keeps : names.Keeps later (interner.region.holdings + rest))
    (twins : Process.Twins allocator later
      (table.extent interner.manager ::ₘ (interner.region.holdings + rest)) room p' q') :
    Beside allocator later rest room (interner.withTable table, p')
      ((interner.rename names).withTable (table.rename later (Pointer.rename names)), q') := by
  have chunks := keeps.mono (Multiset.le_add_right interner.region.holdings rest)
  have inside : ∀ entry ∈ Bucket.entries table.buckets,
      entry.block ∈ interner.region.holdings.map Extent.address := fun entry member =>
    beside.level.inside entry (Multiset.mem_coe.mp (Multiset.mem_of_le less member))
  refine ⟨?_, ⟨beside.level.region.congr chunks, beside.level.align, inside⟩, ?_⟩
  · simp only [rename, withTable, Region.rename_congr chunks]
    rw [BucketArray.rename_congr rfl fun entry member =>
      (entry_congr chunks (inside entry member)).symm]
  · rw [holdings_add, Multiset.add_cons]
    exact twins

theorem Beside.inner
    (beside : Beside allocator names rest room (interner, p) (interner.rename names, q)) :
    Region.Beside allocator names (interner.table.extent interner.manager ::ₘ rest) room
      (interner.region, p) (interner.region.rename names, q) where
  same := rfl
  level := beside.level.region
  twins := by
    rw [← holdings_add]
    exact beside.twins

theorem Beside.entered {other : Interner} {excused pardoned : Failure → Process → Prop}
    (beside : Beside allocator names rest room (interner, p) (other, q)) {entry : Pointer}
    (own : entry.block ∈ interner.holdings.map Extent.address)
    (content : List UInt8) (hash : UInt64) (value : List UInt8) :
    Lockstep excused pardoned (Entry.store interner.value entry content hash value)
      (Entry.store interner.value (entry.rename names) content hash value) p q
      (fun _ _ p q => Beside allocator names rest room (interner, p) (other, q))
      fun _ p q => Beside allocator names rest room (interner, p) (other, q) := by
  have apart (distance : Nat) :
      (entry.plus distance).block ∈ interner.holdings.map Extent.address := own
  have renamed (distance : Nat) :
      (entry.rename names).plus distance = (entry.plus distance).rename names := rfl
  rw [Entry.store, Entry.store, Entry.storeValue, Entry.storeValue]
  simp only [renamed]
  refine (beside.store own _).bind (fun _ _ _ left => left) fun _ _ p q beside => ?_
  refine (beside.store (apart 8) _).bind (fun _ _ _ left => left) fun _ _ p q beside => ?_
  refine (beside.store (apart _) value).bind (fun _ _ _ left => left) fun _ _ p q beside => ?_
  exact beside.store (apart _) content

theorem onto_of_region {region other : Region} {known : Renaming → Prop}
    (level : interner.Level names)
    (onto : Region.Onto allocator names (interner.table.extent interner.manager ::ₘ rest) room
      interner.region known (region, p) (other, q)) :
    Onto allocator names rest room interner known ({ interner with region }, p)
      ({ interner.rename names with region := other }, q) := by
  obtain ⟨grows, number, later, keeps, beside, knows⟩ := onto
  obtain rfl := beside.same
  have chunks := keeps.mono (Multiset.le_add_right interner.region.holdings _)
  have block : later.block interner.table.block = names.block interner.table.block :=
    keeps.block (interner.table.extent interner.manager)
      (Multiset.mem_add.mpr (.inr (Multiset.mem_cons_self _ _)))
  have inside : ∀ entry ∈ interner.entries, entry.block ∈ region.holdings.map Extent.address :=
    fun entry member =>
      Multiset.mem_of_le (Multiset.map_le_map grows) (level.inside entry member)
  refine ⟨grows, number, later, keeps.mono ?_, ⟨?_, ⟨beside.level, level.align, inside⟩, ?_⟩, knows⟩
  · exact add_le_add_right (Multiset.le_cons_self rest _) _
  · simp only [rename]
    rw [BucketArray.rename_congr block fun entry member =>
      entry_congr chunks (level.inside entry member)]
  · rw [holdings_add]
    exact beside.twins

theorem Beside.put {entry : Pointer}
    (beside : Beside allocator names rest room (interner, p) (interner.rename names, q))
    (own : entry.block ∈ interner.region.holdings.map Extent.address) (index count : Nat) :
    Beside allocator names rest room
      ({ interner with table := interner.table.put index (.occupied entry), count }, p)
      ({ interner.rename names with
        table := (interner.rename names).table.put index (.occupied (entry.rename names))
        count }, q) := by
  have inside : ∀ other ∈ Bucket.entries (interner.table.put index (.occupied entry)).buckets,
      other.block ∈ interner.region.holdings.map Extent.address := by
    intro other member
    obtain ⟨j, stored⟩ := Bucket.mem_entries.mp member
    rcases Bucket.set_cases stored with ⟨-, new⟩ | old
    · cases new
      exact own
    · exact beside.level.inside other (mem_entries.mpr ⟨j, old⟩)
  refine ⟨?_, ⟨beside.level.region, beside.level.align, inside⟩, ?_⟩
  · have buckets : (interner.table.rename names (Pointer.rename names)).put index
        (.occupied (entry.rename names)) =
          (interner.table.put index (.occupied entry)).rename names (Pointer.rename names) :=
      BucketArray.put_rename names _ index (.occupied entry)
    exact congrArg (fun table => { interner.rename names with table, count }) buckets
  · rw [holdings, BucketArray.extent_put]
    exact beside.twins

theorem Beside.emptied {other : Interner}
    (beside : Beside allocator names rest room (interner, p) (other, q)) :
    Beside allocator names rest room (interner.emptied, p) (other.emptied, q) := by
  obtain rfl : other = interner.rename names := beside.same
  refine ⟨?_, ⟨beside.level.region, beside.level.align, ?_⟩, ?_⟩
  · have buckets : (interner.table.rename names (Pointer.rename names)).clear =
        interner.table.clear.rename names (Pointer.rename names) := BucketArray.clear_rename names _
    exact congrArg (fun table => { interner.rename names with table, count := 0 }) buckets
  · intro entry member
    rw [entries_emptied] at member
    exact absurd member List.not_mem_nil
  · have held : interner.emptied.holdings = interner.holdings :=
      congrArg (· ::ₘ interner.region.holdings) (BucketArray.extent_clear interner.manager _)
    rw [held]
    exact beside.twins

@[simp] theorem value_rename (names : Renaming) (interner : Interner) :
    (interner.rename names).value = interner.value := rfl

section Operations

variable (bySize : allocator.BySize grants bound)
include bySize

theorem grow_tandem
    (beside : Beside allocator names rest (room + 1) (interner, p) (interner.rename names, q)) :
    Method.Tandem bound grow grow (interner, p) (interner.rename names, q)
      (fun _ _ => Onto allocator names rest room interner fun _ => True)
      fun _ => Onto allocator names rest room interner fun _ => True := by
  have lessened := beside.less (Nat.le_succ room)
  have hashes : ∀ entry ∈ Bucket.entries interner.table.buckets,
      Entry.hash q.heap (entry.rename names) = Entry.hash p.heap entry := fun entry member =>
    Entry.hash_rename beside.twins (beside.own member)
  have split : interner.holdings + rest =
      interner.table.extent interner.manager ::ₘ (interner.region.holdings + rest) := by
    rw [holdings_add, Multiset.add_cons]
  rw [grow]
  refine .step (by rfl) (by rfl) (.step (by rfl) (by rfl) ?_)
  simp only [capacity_rename]
  refine .ofFault (fun _ => lessened.onto trivial) fun required _ => ?_
  refine Method.lockstep_process (BucketArray.rehashed_tandem bySize interner.table
    interner.manager .interner hashes _ beside.twins) ?_ ?_
  · intro _ p q twins
    have beside : Beside allocator names rest room (interner, p) (interner.rename names, q) :=
      { lessened with twins }
    exact beside.onto trivial
  rintro table _ p q ⟨less, later, keeps, rfl, twins⟩
  refine .step (by rfl) (by rfl) (.step (by rfl) (by rfl) ?_)
  have block : names.block interner.table.block = later.block interner.table.block :=
    (keeps.block (interner.table.extent interner.manager)
      (split ▸ Multiset.mem_cons_self _ _)).symm
  have chunks : names.Keeps later (interner.region.holdings + rest) :=
    keeps.mono (split ▸ Multiset.le_cons_self _ _)
  have both : Process.Twins allocator later (interner.table.extent interner.manager ::ₘ
      (table.extent interner.manager ::ₘ (interner.region.holdings + rest))) room p q := by
    rw [Multiset.cons_swap, ← split]
    exact twins
  show Method.Tandem bound (liftM (interner.manager.free interner.table.block))
    (liftM (interner.manager.free (names.block interner.table.block))) _ _ _ _
  rw [block]
  refine Method.lockstep_lift (Lockstep.mono (Manager.free_tandem (both.printed _ _)) ?_
    fun _ _ _ => False.elim)
  intro _ _ p q twins
  exact ⟨le_refl _, rfl, later, chunks, beside.regrown less chunks twins, trivial⟩

theorem vacancy_tandem (hash : UInt64) (fuel : Nat)
    (beside : Beside allocator names rest (room + fuel) (interner, p) (interner.rename names, q)) :
    Method.Tandem bound (vacancy hash fuel) (vacancy hash fuel) (interner, p)
      (interner.rename names, q)
      (fun a b => Onto allocator names rest room interner fun _ => b = a)
      fun _ => Onto allocator names rest room interner fun _ => True := by
  induction fuel generalizing names interner p q with
  | zero => exact Action.lockstep_stop (beside.onto trivial)
  | succ fuel ih =>
      have lessened := beside.less (Nat.le_add_right room (fuel + 1))
      rw [vacancy]
      refine .step (by rfl) (by rfl) ?_
      have found : firstEmpty (interner.rename names).table.buckets hash =
          firstEmpty interner.table.buckets hash := firstEmpty_map _ _ hash
      show Method.Tandem bound (liftM (firstEmpty interner.table.buckets hash) >>= _)
        (liftM (firstEmpty (interner.rename names).table.buckets hash) >>= _) _ _ _ _
      rw [found]
      refine .ofFault (fun _ => lessened.onto trivial) fun found _ => ?_
      cases found with
      | some index => exact .last (by rfl) (by rfl) (lessened.onto rfl)
      | none =>
          have beside : Beside allocator names rest (room + fuel + 1) (interner, p)
              (interner.rename names, q) := beside
          refine (grow_tandem bySize beside).bind ?_ ?_
          · exact fun _ _ _ onto => onto.mono (Nat.le_add_right room fuel) fun _ known => known
          · rintro _ _ ⟨middle, p⟩ ⟨_, q⟩ ⟨grows, number, later, keeps, beside, -⟩
            obtain rfl := beside.same
            refine (ih beside).mono ?_ ?_
            · exact fun _ _ _ _ onto => onto.after grows number keeps fun _ known => known
            · exact fun _ _ _ onto => onto.after grows number keeps fun _ known => known

theorem storeEntry_tandem (hash : UInt64) (value : List UInt8)
    (beside : Beside allocator names rest (room + 1) (interner, p) (interner.rename names, q)) :
    Method.Tandem bound (storeEntry content hash value) (storeEntry content hash value)
      (interner, p) (interner.rename names, q)
      (fun a b s t => a.block ∈ s.1.region.holdings.map Extent.address ∧
        Onto allocator names rest room interner (fun later => b = a.rename later) s t)
      fun _ => Onto allocator names rest room interner fun _ => True := by
  have lessened := beside.less (Nat.le_succ room)
  have align (size : Nat) :
      Layout.align ⟨size, (Entry.header interner.value).align⟩ ≤ Allocator.pageSize :=
    Nat.max_le.mpr ⟨by decide, beside.level.align⟩
  rw [storeEntry]
  refine .step (by rfl) (by rfl) ?_
  dsimp only [value_rename]
  cases Word.add? (Entry.header interner.value).size content.length with
  | none => exact Action.lockstep_fail (lessened.onto trivial)
  | some size =>
      have allocates := Region.allocate_tandem bySize (align size) beside.inner
      refine Method.lockstep_part allocates ?_ ?_
      · exact fun _ _ _ _ _ onto => onto_of_region beside.level onto
      · rintro _ place region other p q ⟨rfl, inside, onto⟩
        obtain ⟨grows, number, later, keeps, stored, -⟩ := onto_of_region beside.level onto
        obtain rfl : other = region.rename later := congrArg Interner.region stored.same
        have pointed := Region.pointer_rename later inside
        have own := Region.pointer_mem inside
        have held : (region.pointer place).block ∈
            (holdings { interner with region }).map Extent.address := by
          rw [holdings, Multiset.map_cons]
          exact Multiset.mem_cons_of_mem own
        refine .step (by rfl) (by rfl) ?_
        dsimp only
        rw [pointed]
        refine Method.lockstep_process (Beside.entered stored held content hash _) ?_ ?_
        · exact fun _ _ _ stored => ⟨grows, number, later, keeps, stored, trivial⟩
        · intro _ _ p q stored
          refine .last (by rfl) (by rfl) ?_
          exact ⟨own, grows, number, later, keeps, stored, rfl⟩

theorem insertNew_tandem (hash : UInt64) (value : List UInt8)
    (beside : Beside allocator names rest (room + 66) (interner, p) (interner.rename names, q)) :
    Method.Tandem bound (insertNew content hash value) (insertNew content hash value)
      (interner, p) (interner.rename names, q)
      (fun a b s t => a.interner = s.1.region.id ∧
        Onto allocator names rest room interner (fun later => b = a.rename later) s t)
      fun _ => Onto allocator names rest room interner fun _ => True := by
  have beside : Beside allocator names rest (room + 1 + (maxGrowths + 1)) (interner, p)
      (interner.rename names, q) := beside
  rw [insertNew]
  refine (vacancy_tandem bySize hash (maxGrowths + 1) beside).bind ?_ ?_
  · exact fun _ _ _ onto => onto.mono (Nat.le_succ room) fun _ known => known
  rintro index _ ⟨grown, p⟩ ⟨_, q⟩ ⟨grows, number, later, keeps, beside, rfl⟩
  obtain rfl := beside.same
  have back {known : Renaming → Prop} {s t : Interner × Process}
      (onto : Onto allocator later rest room grown known s t) :
      Onto allocator names rest room interner known s t := onto.after grows number keeps fun _ => id
  refine (storeEntry_tandem bySize hash value beside).bind
    (fun _ _ _ => back) ?_
  rintro entry _ ⟨stored, p⟩ ⟨_, q⟩ ⟨inside, grows, number, last, keeps, beside, rfl⟩
  obtain rfl := beside.same
  refine .step (by rfl) (by rfl) ?_
  show Method.Tandem bound (liftM (Word.add stored.count 1) >>= _)
    (liftM (Word.add stored.count 1) >>= _) _ _ _ _
  refine .ofFault (fun _ => back ⟨grows, number, last, keeps, beside, trivial⟩) ?_
  intro count _
  refine .step (by rfl) (by rfl) (.step (by rfl) (by rfl) (.last (by rfl) (by rfl) ⟨rfl, ?_⟩))
  exact back ⟨grows, number, last, keeps, Beside.put beside inside _ _, rfl⟩

theorem insert_tandem (content value : List UInt8)
    (beside : Beside allocator names rest (room + 67) (interner, p) (interner.rename names, q)) :
    Method.Tandem bound (insert content value) (insert content value) (interner, p)
      (interner.rename names, q)
      (fun a b s t => a.1.interner = s.1.region.id ∧
        Onto allocator names rest room interner (fun later => b = (a.1.rename later, a.2)) s t)
      fun _ => Onto allocator names rest room interner fun _ => True := by
  have lessened := beside.less (Nat.le_add_right room 67)
  have inserted {interner : Interner} {names : Renaming} {p q : Process} {hash : UInt64}
      (beside : Beside allocator names rest (room + 66) (interner, p) (interner.rename names, q)) :
      Method.Tandem bound (do return (← insertNew content hash value, true))
        (do return (← insertNew content hash value, true)) (interner, p) (interner.rename names, q)
        (fun a b s t => a.1.interner = s.1.region.id ∧
          Onto allocator names rest room interner (fun later => b = (a.1.rename later, a.2)) s t)
        fun _ => Onto allocator names rest room interner fun _ => True := by
    refine (insertNew_tandem bySize hash value beside).bind (fun _ _ _ => id) ?_
    rintro symbol _ s t ⟨issued, onto⟩
    exact ⟨issued, onto.mono (Nat.le_refl room) fun _ same => congrArg (·, true) same⟩
  rw [insert]
  refine .step (by rfl) (by rfl) (.step (by rfl) (by rfl) ?_)
  have searched := findHashed_rename beside content (interner.hasher content)
  show Method.Tandem bound
    (liftM (interner.findHashed p.heap content (interner.hasher content)) >>= _)
    (liftM ((interner.rename names).findHashed q.heap content (interner.hasher content)) >>= _)
    _ _ _ _
  rw [searched]
  refine .ofMapped (fun _ => lessened.onto trivial) fun found _ => ?_
  cases found with
  | some entry => exact .last (by rfl) (by rfl) ⟨rfl, lessened.onto rfl⟩
  | none =>
      refine .ofFault (fun _ => lessened.onto trivial) fun used _ => ?_
      dsimp only
      rw [capacity_rename]
      split
      · have beside : Beside allocator names rest (room + 66 + 1) (interner, p)
            (interner.rename names, q) := beside
        refine (grow_tandem bySize beside).bind ?_ ?_
        · exact fun _ _ _ onto => onto.mono (Nat.le_add_right room 66) fun _ => id
        · rintro _ _ ⟨grown, p⟩ ⟨_, q⟩ ⟨grows, number, later, keeps, beside, -⟩
          obtain rfl := beside.same
          refine (inserted beside).mono ?_ ?_
          · exact fun _ _ _ _ ends => ⟨ends.1, ends.2.after grows number keeps fun _ => id⟩
          · exact fun _ _ _ onto => onto.after grows number keeps fun _ => id
      · exact inserted (beside.less (Nat.le_succ (room + 66)))

theorem intern_tandem (text : String) (default : List UInt8)
    (beside : Beside allocator names rest (room + 67) (interner, p) (interner.rename names, q)) :
    Method.Tandem bound (intern text default) (intern text default) (interner, p)
      (interner.rename names, q)
      (fun a b s t => a.interner = s.1.region.id ∧
        Onto allocator names rest room interner (fun later => b = a.rename later) s t)
      fun _ => Onto allocator names rest room interner fun _ => True := by
  rw [intern]
  refine (insert_tandem bySize _ _ beside).bind (fun _ _ _ => id) ?_
  rintro ⟨symbol, isNew⟩ _ s t ⟨issued, onto⟩
  exact ⟨issued, onto.mono (Nat.le_refl room) fun _ same => congrArg Prod.fst same⟩

theorem create_tandem (manager : Manager) (requested : Nat) {value : Layout}
    (hasher : List UInt8 → UInt64) (align : value.align ≤ Allocator.pageSize)
    (next : names.region p.nextRegion = q.nextRegion)
    (twins : Process.Twins allocator names extents (room + 1) p q) :
    Process.Tandem bound (create manager requested value hasher)
      (create manager requested value hasher) p q
      (fun interner other p' q' => interner.region.id = p.nextRegion ∧
        names.Onward extents fun later =>
          Beside allocator later extents room (interner, p') (other, q'))
      fun _ => Process.Twins allocator names extents room := by
  rw [create]
  refine .require (twins.less (Nat.le_succ room)) fun _ => ?_
  refine (Region.create_tandem manager _ next twins).bind
    (fun _ _ _ twins => twins.less (Nat.le_succ room)) ?_
  rintro region _ p' q' ⟨none, number, beside⟩
  obtain rfl := beside.same
  have given := beside.twins
  rw [Region.holdings_unused none, zero_add] at given
  have buckets : Process.Tandem bound
      (do BucketArray.create manager (← bucketCount requested) : Action Process (BucketArray Pointer))
      (do BucketArray.create manager (← bucketCount requested)) p' q'
      (fun table other p q => Bucket.entries table.buckets = [] ∧
        names.Onward extents fun later => other = table.rename later (Pointer.rename later) ∧
          Process.Twins allocator later (table.extent manager ::ₘ extents) room p q)
      fun _ => Process.Twins allocator names extents room := by
    refine .ofFault (fun _ => given.less (Nat.le_succ room)) fun capacity _ => ?_
    refine (BucketArray.create_tandem bySize manager capacity given).mono ?_ fun _ _ _ => id
    rintro table _ p q ⟨empty, later, keeps, renamed, twins⟩
    refine ⟨?_, later, keeps, renamed _, twins⟩
    rw [empty, entries_replicate]
  refine (Lockstep.onFailure buckets ?_ ?_ ?_).bind (fun _ _ _ => id) ?_
  · intro _ p q twins
    refine (Region.discard_tandem ?_).mono (fun _ _ _ _ => id) fun _ _ _ => False.elim
    rw [Region.holdings_unused none, zero_add]
    exact twins
  · exact fun _ _ => Region.discard_spent none
  · exact fun _ _ => Region.discard_spent (List.map_eq_nil_iff.mpr none)
  rintro table _ p q ⟨empty, later, keeps, rfl, twins⟩
  refine (twins.retain manager).bind (fun _ _ _ => False.elim) ?_
  rintro _ _ p q ⟨-, twins⟩
  have chunks : names.Keeps later region.holdings :=
    keeps.mono ((Region.holdings_unused none).trans_le (Multiset.zero_le extents))
  refine ⟨number, later, keeps, ?_, ⟨beside.level.congr chunks, align, ?_⟩, ?_⟩
  · rw [rename, Region.rename_congr chunks]
  · intro entry member
    rw [entries, empty] at member
    exact absurd member List.not_mem_nil
  · rw [holdings_add, Region.holdings_unused none, zero_add]
    exact twins

end Operations

theorem clear_tandem {excused pardoned : Failure → Interner × Process → Prop}
    (beside : Beside allocator names rest room (interner, p) (interner.rename names, q)) :
    Lockstep excused pardoned clear clear (interner, p) (interner.rename names, q)
      (fun _ _ => Onto allocator names rest room interner fun _ => True)
      fun _ => Onto allocator names rest room interner fun _ => True := by
  rw [clear]
  refine Method.lockstep_part (Region.reset_tandem beside.inner) ?_ ?_
  · exact fun _ _ _ _ _ onto => onto_of_region beside.level onto
  · rintro _ _ region other p q onto
    obtain ⟨grows, number, later, keeps, beside, -⟩ := onto_of_region beside.level onto
    obtain rfl : other = region.rename later := congrArg Interner.region beside.same
    refine .step (by rfl) (by rfl) (.step (by rfl) (by rfl) (.last (by rfl) (by rfl) ?_))
    have emptied := Beside.emptied beside
    exact ⟨grows, number, later, keeps, emptied.printed _ _, trivial⟩

theorem discard_tandem {excused pardoned : Failure → Process → Prop}
    (twins : Process.Twins allocator names (interner.holdings + rest) room p q) :
    Lockstep excused pardoned interner.discard (interner.rename names).discard p q
      (fun _ _ => Process.Twins allocator names rest room) fun _ _ _ => False := by
  rw [holdings_add] at twins
  rw [discard, discard]
  refine (Region.discard_tandem twins).bind (fun _ _ _ => False.elim) fun _ _ p q twins => ?_
  refine (Manager.free_tandem twins).bind (fun _ _ _ => False.elim) ?_
  exact fun _ _ _ _ twins => twins.release _

end Interner

end SymbolStore
