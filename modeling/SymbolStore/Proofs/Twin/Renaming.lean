import Mathlib.Logic.Equiv.Basic
import SymbolStore.Proofs.Twin.Ample

/-!
Two processes in which some blocks stand for each other: they have the same bytes and belong to the
same managers, but have other addresses. Whatever the managers are asked to do with them goes alike.
Addresses and the numbers of regions are renamed one to one; a new block is given its other address by
a swap, which leaves the blocks alone that there are.
-/

namespace SymbolStore

open SymbolStore.Action (Ends Lockstep)

/-- Other addresses for blocks and other numbers for regions. -/
structure Renaming where
  block : Equiv.Perm Nat
  region : Equiv.Perm Nat

def Pointer.rename (names : Renaming) (pointer : Pointer) : Pointer :=
  { pointer with block := names.block pointer.block }

namespace Renaming

variable {names later last : Renaming} {extents fewer : Multiset Extent} {extent : Extent} {a b : Nat}

def assign (names : Renaming) (a b : Nat) : Renaming :=
  { names with block := names.block.trans (Equiv.swap (names.block a) b) }

def number (names : Renaming) (a b : Nat) : Renaming :=
  { names with region := names.region.trans (Equiv.swap (names.region a) b) }

@[simp] theorem block_assign (names : Renaming) (a b : Nat) : (names.assign a b).block a = b :=
  Equiv.swap_apply_left ..

@[simp] theorem region_number (names : Renaming) (a b : Nat) : (names.number a b).region a = b :=
  Equiv.swap_apply_left ..

theorem region_number_of_ne {id : Nat} (other : id ≠ a) (free : names.region id ≠ b) :
    (names.number a b).region id = names.region id :=
  Equiv.swap_apply_of_ne_of_ne (fun same => other (names.region.injective same)) free

structure Keeps (names later : Renaming) (extents : Multiset Extent) : Prop where
  block : ∀ extent ∈ extents, later.block extent.address = names.block extent.address
  region : later.region = names.region

theorem Keeps.refl (names : Renaming) (extents : Multiset Extent) : names.Keeps names extents :=
  ⟨fun _ _ => rfl, rfl⟩

theorem Keeps.mono (keeps : names.Keeps later extents) (less : fewer ≤ extents) :
    names.Keeps later fewer :=
  ⟨fun extent member => keeps.block extent (Multiset.mem_of_le less member), keeps.region⟩

theorem Keeps.trans (first : names.Keeps later extents) (second : later.Keeps last extents) :
    names.Keeps last extents :=
  ⟨fun extent member => (second.block extent member).trans (first.block extent member),
    second.region.trans first.region⟩

theorem Keeps.symm (keeps : names.Keeps later extents) : later.Keeps names extents :=
  ⟨fun extent member => (keeps.block extent member).symm, keeps.region.symm⟩

def Onward (names : Renaming) (extents : Multiset Extent) (known : Renaming → Prop) : Prop :=
  ∃ later, names.Keeps later extents ∧ known later

variable {known final : Renaming → Prop}

theorem Onward.here (now : known names) : names.Onward extents known := ⟨names, .refl _ _, now⟩

theorem Onward.mono (onward : names.Onward extents known) (less : fewer ≤ extents)
    (weaker : ∀ later, names.Keeps later extents → known later → final later) :
    names.Onward fewer final := by
  obtain ⟨later, keeps, knows⟩ := onward
  exact ⟨later, keeps.mono less, weaker later keeps knows⟩

theorem keeps_assign (fresh : a ∉ extents.map Extent.address)
    (fresh' : b ∉ extents.map fun extent => names.block extent.address) :
    names.Keeps (names.assign a b) extents where
  block extent member := by
    refine Equiv.swap_apply_of_ne_of_ne (fun same => fresh ?_) fun same => fresh' ?_
    · exact names.block.injective same ▸ Multiset.mem_map_of_mem _ member
    · exact same ▸ Multiset.mem_map_of_mem (fun extent => names.block extent.address) member
  region := rfl

end Renaming

structure Extent.Paired (names : Renaming) (p q : Process) (extent : Extent) : Prop where
  same : ∃ block, p.heap.find? extent.address = some block ∧
    q.heap.find? (names.block extent.address) = some block
  here : extent.manager.Holds p extent.address extent.size
  there : extent.manager.Holds q (names.block extent.address) extent.size

/-- The blocks stand for each other in the processes, under other addresses. Both processes are
without limits. -/
structure Process.Twins (allocator : Allocator) (names : Renaming) (extents : Multiset Extent)
    (room : Nat) (p q : Process) : Prop where
  here : p.Ample allocator room
  there : q.Ample allocator room
  paired : ∀ extent ∈ extents, extent.Paired names p q
  distinct : (extents.map Extent.address).Nodup

/-- Two steps that go alike, unless one of them fails when addresses are short. -/
abbrev Process.Tandem {α β : Type} (bound : Nat) : Action Process α → Action Process β →
    Process → Process → (α → β → Process → Process → Prop) →
      (Failure → Process → Process → Prop) → Prop :=
  Lockstep (fun _ p => p.Spent bound) fun _ q => q.Spent bound

abbrev Method.Tandem {O O' α β : Type} (bound : Nat) : Method O α → Method O' β →
    O × Process → O' × Process → (α → β → O × Process → O' × Process → Prop) →
      (Failure → O × Process → O' × Process → Prop) → Prop :=
  Lockstep (fun _ s => s.2.Spent bound) fun _ t => t.2.Spent bound

open SymbolStore.Process (Tandem)

variable {allocator : Allocator} {grants : Nat → Bool} {manager : Manager} {names later : Renaming}
  {extents fewer : Multiset Extent} {extent : Extent} {bound room more a b : Nat}
  {p q p' q' : Process}

theorem Extent.Paired.kept (paired : extent.Paired names p q)
    (here : p'.heap.find? extent.address = p.heap.find? extent.address ∧
      ∀ size, extent.manager.Holds p extent.address size →
        extent.manager.Holds p' extent.address size)
    (there : q'.heap.find? (names.block extent.address) =
        q.heap.find? (names.block extent.address) ∧
      ∀ size, extent.manager.Holds q (names.block extent.address) size →
        extent.manager.Holds q' (names.block extent.address) size) : extent.Paired names p' q' where
  same := by
    obtain ⟨block, found, found'⟩ := paired.same
    exact ⟨block, here.1.trans found, there.1.trans found'⟩
  here := here.2 _ paired.here
  there := there.2 _ paired.there

theorem Extent.Paired.evolved {freed freed' : List Nat} (paired : extent.Paired names p q)
    (here : p.Evolves p' freed) (there : q.Evolves q' freed') (apart : extent.address ∉ freed)
    (apart' : names.block extent.address ∉ freed') : extent.Paired names p' q' where
  same := by
    obtain ⟨block, found, found'⟩ := paired.same
    exact ⟨block, here.blocks _ block apart found, there.blocks _ block apart' found'⟩
  here := here.held _ _ _ apart paired.here
  there := there.held _ _ _ apart' paired.there

namespace Process.Twins

theorem less (twins : Twins allocator names extents more p q) (less : room ≤ more) :
    Twins allocator names extents room p q :=
  { twins with here := twins.here.less less, there := twins.there.less less }

theorem forget (twins : Twins allocator names extents room p q) (less : fewer ≤ extents) :
    Twins allocator names fewer room p q :=
  { twins with
    paired := fun extent member => twins.paired extent (Multiset.mem_of_le less member)
    distinct := Multiset.nodup_of_le (Multiset.map_le_map less) twins.distinct }

theorem congr (twins : Twins allocator names extents room p q)
    (keeps : names.Keeps later extents) : Twins allocator later extents room p q :=
  { twins with
    paired := fun extent member => by
      have same := keeps.block extent member
      have paired := twins.paired extent member
      exact ⟨same ▸ paired.same, paired.here, same ▸ paired.there⟩ }

theorem renumbered (twins : Twins allocator names extents room p q)
    (block : later.block = names.block) : Twins allocator later extents room p q :=
  { twins with
    paired := fun extent member => by
      have paired := twins.paired extent member
      exact ⟨block ▸ paired.same, paired.here, block ▸ paired.there⟩ }

theorem apart (twins : Twins allocator names (extent ::ₘ extents) room p q) {other : Extent}
    (member : other ∈ extents) : other.address ≠ extent.address ∧
      names.block other.address ≠ names.block extent.address := by
  have distinct := twins.distinct
  rw [Multiset.map_cons, Multiset.nodup_cons] at distinct
  have different : other.address ≠ extent.address := fun same =>
    distinct.1 (same ▸ Multiset.mem_map_of_mem _ member)
  exact ⟨different, fun same => different (names.block.injective same)⟩

theorem kept (twins : Twins allocator names extents room p q) (here : p'.Ample allocator more)
    (there : q'.Ample allocator more)
    (paired : ∀ extent ∈ extents, extent.Paired names p q → extent.Paired names p' q') :
    Twins allocator names extents more p' q' where
  here := here
  there := there
  paired extent member := paired extent member (twins.paired extent member)
  distinct := twins.distinct

theorem rested (twins : Twins allocator names extents room p q) (here : p'.Ample allocator more)
    (there : q'.Ample allocator more) (rests : Manager.Rests p p') (rests' : Manager.Rests q q') :
    Twins allocator names extents more p' q' :=
  twins.kept here there fun _ _ paired => paired.kept
    ⟨congrArg (Heap.find? · _) rests.1, rests.2 _ _⟩
    ⟨congrArg (Heap.find? · _) rests'.1, rests'.2 _ _⟩

theorem printed (twins : Twins allocator names extents room p q) (journal journal' : Journal) :
    Twins allocator names extents room { p with journal } { q with journal := journal' } :=
  twins.rested (twins.here.printed journal) (twins.there.printed journal')
    ⟨rfl, fun _ _ _ holds => ⟨holds.present, holds.recorded⟩⟩
    ⟨rfl, fun _ _ _ holds => ⟨holds.present, holds.recorded⟩⟩

theorem remarked (twins : Twins allocator names extents room p q) (here : p.Remarks p')
    (there : q.Remarks q') : Twins allocator names extents room p' q' := by
  obtain ⟨journal, -, rfl⟩ := here
  obtain ⟨journal', -, rfl⟩ := there
  exact twins.printed journal journal'

theorem counted (twins : Twins allocator names extents room p q) :
    Twins allocator names extents room { p with nextRegion := p.nextRegion + 1 }
      { q with nextRegion := q.nextRegion + 1 } :=
  twins.rested twins.here.counted twins.there.counted
    ⟨rfl, fun _ _ _ holds => ⟨holds.present, holds.recorded⟩⟩
    ⟨rfl, fun _ _ _ holds => ⟨holds.present, holds.recorded⟩⟩

theorem written (twins : Twins allocator names extents room p q) (place : Pointer)
    (values : List UInt8) :
    Twins allocator names extents room { p with heap := p.heap.write place values }
      { q with heap := q.heap.write (place.rename names) values } := by
  refine twins.kept (twins.here.written place values) (twins.there.written _ values) ?_
  intro extent member paired
  refine ⟨?_, holds_write paired.here place values,
    holds_write paired.there (place.rename names) values⟩
  obtain ⟨block, found, found'⟩ := paired.same
  by_cases equal : place.block = extent.address
  · refine ⟨block.write place.offset values, ?_, ?_⟩
    · rw [Heap.find?_write, if_pos equal, found, Option.map_some]
    · have there : (place.rename names).block = names.block extent.address :=
        congrArg names.block equal
      rw [Heap.find?_write, if_pos there, found', Option.map_some]
      rfl
  · refine ⟨block, ?_, ?_⟩
    · rw [Heap.find?_write, if_neg equal, found]
    · rw [Heap.find?_write, if_neg, found']
      exact fun same => equal (names.block.injective same)

theorem read (twins : Twins allocator names extents room p q) (place : Pointer)
    (own : place.block ∈ extents.map Extent.address) (count : Nat) :
    q.heap.read (place.rename names) count = p.heap.read place count := by
  obtain ⟨extent, member, is⟩ := Multiset.mem_map.mp own
  obtain ⟨block, found, found'⟩ := (twins.paired extent member).same
  rw [is] at found found'
  have there : q.heap.find? (place.rename names).block = some block := found'
  rw [Heap.read, Heap.read, found, there]
  rfl

theorem covers (twins : Twins allocator names extents room p q) {place : Pointer}
    (own : place.block ∈ extents.map Extent.address) (count : Nat) :
    q.heap.covers (place.rename names) count = p.heap.covers place count := by
  obtain ⟨extent, member, is⟩ := Multiset.mem_map.mp own
  obtain ⟨block, found, found'⟩ := (twins.paired extent member).same
  rw [is] at found found'
  have there : q.heap.find? (place.rename names).block = some block := found'
  rw [Heap.covers, Heap.covers, found, there]
  rfl

theorem store (twins : Twins allocator names extents room p q) {place : Pointer}
    (own : place.block ∈ extents.map Extent.address) (values : List UInt8)
    {excused pardoned : Failure → Process → Prop} :
    Lockstep excused pardoned (Process.store place values)
      (Process.store (place.rename names) values) p q
      (fun _ _ => Twins allocator names extents room) fun _ => Twins allocator names extents room := by
  rw [Process.store, Process.store]
  refine .step (by rfl) (by rfl) ?_
  rw [twins.covers own]
  split
  · exact .last (by rfl) (by rfl) (twins.written place values)
  · exact Action.lockstep_throw twins

theorem retain (twins : Twins allocator names extents room p q) (other : Manager)
    {excused pardoned : Failure → Process → Prop} :
    Lockstep excused pardoned other.retain other.retain p q
      (fun _ _ p' q' => (p'.nextRegion = p.nextRegion ∧ q'.nextRegion = q.nextRegion) ∧
        Twins allocator names extents room p' q') fun _ _ _ => False :=
  Action.lockstep_of_ends (Manager.retain_ample twins.here) (Manager.retain_ample twins.there)
    fun _ _ _ _ here there =>
      ⟨⟨here.2.2, there.2.2⟩, twins.rested here.1 there.1 here.2.1 there.2.1⟩

theorem release (twins : Twins allocator names extents room p q) (other : Manager)
    {excused pardoned : Failure → Process → Prop} :
    Lockstep excused pardoned other.release other.release p q
      (fun _ _ => Twins allocator names extents room) fun _ _ _ => False :=
  Action.lockstep_of_ends (Manager.release_ample twins.here) (Manager.release_ample twins.there)
    fun _ _ _ _ here there => twins.rested here.1 there.1 here.2 there.2

theorem added (twins : Twins allocator names extents room p q) (fresh : a ∉ extents.map Extent.address)
    (fresh' : b ∉ extents.map fun extent => names.block extent.address) {size : Nat}
    (paired : Extent.Paired (names.assign a b) p q ⟨manager, a, size⟩) :
    Twins allocator (names.assign a b) (⟨manager, a, size⟩ ::ₘ extents) room p q := by
  have others := twins.congr (names.keeps_assign fresh fresh')
  refine { others with paired := ?_, distinct := ?_ }
  · intro extent member
    rcases Multiset.mem_cons.mp member with rfl | old
    · exact paired
    · exact others.paired extent old
  · rw [Multiset.map_cons, Multiset.nodup_cons]
    exact ⟨fresh, others.distinct⟩

theorem not_mem_of_fresh (twins : Twins allocator names extents room p q)
    (fresh : p.heap.find? a = none) : a ∉ extents.map Extent.address := by
  intro member
  obtain ⟨extent, there, rfl⟩ := Multiset.mem_map.mp member
  exact (twins.paired extent there).here.ne_of_fresh fresh rfl

theorem not_mem_of_fresh' (twins : Twins allocator names extents room p q)
    (fresh : q.heap.find? b = none) : b ∉ extents.map fun extent => names.block extent.address := by
  intro member
  obtain ⟨extent, there, rfl⟩ := Multiset.mem_map.mp member
  exact (twins.paired extent there).there.ne_of_fresh fresh rfl

end Process.Twins

section Objects

variable {O : Type} {holdings : O → Multiset Extent} {rename : Renaming → O → O}
  {Level : Renaming → O → Prop} {fixed : O → Multiset Extent} {number : O → Option Nat}
  {rest : Multiset Extent} {o middle : O} {s t : O × Process}

/-- An object and the one that stands for it, with their blocks and others beside. -/
structure Beside (holdings : O → Multiset Extent) (rename : Renaming → O → O)
    (Level : Renaming → O → Prop) (allocator : Allocator) (names : Renaming)
    (rest : Multiset Extent) (room : Nat) (s t : O × Process) : Prop where
  same : t.1 = rename names s.1
  level : Level names s.1
  twins : Process.Twins allocator names (holdings s.1 + rest) room s.2 t.2

/-- What has become of an object and the one that stands for it, and what is known under the names
that they have now. Blocks that do not move while the object lives have the names that they had, and
so has its region. -/
structure Onto (holdings : O → Multiset Extent) (rename : Renaming → O → O)
    (Level : Renaming → O → Prop) (fixed : O → Multiset Extent) (number : O → Option Nat)
    (allocator : Allocator) (names : Renaming) (rest : Multiset Extent) (room : Nat) (o : O)
    (known : Renaming → Prop) (s t : O × Process) : Prop where
  grows : fixed o ≤ fixed s.1
  number : number s.1 = number o
  onward : names.Onward (fixed o + rest) fun later =>
    Beside holdings rename Level allocator later rest room s t ∧ known later

theorem Beside.less (beside : Beside holdings rename Level allocator names rest more s t)
    (less : room ≤ more) : Beside holdings rename Level allocator names rest room s t :=
  { beside with twins := beside.twins.less less }

theorem Beside.store {other : O} {excused pardoned : Failure → Process → Prop}
    (beside : Beside holdings rename Level allocator names rest room (o, p) (other, q))
    {place : Pointer} (own : place.block ∈ (holdings o).map Extent.address) (values : List UInt8) :
    Lockstep excused pardoned (Process.store place values)
      (Process.store (place.rename names) values) p q
      (fun _ _ p q => Beside holdings rename Level allocator names rest room (o, p) (other, q))
      fun _ p q => Beside holdings rename Level allocator names rest room (o, p) (other, q) := by
  have among : place.block ∈ (holdings o + rest).map Extent.address := by
    rw [Multiset.map_add]
    exact Multiset.mem_add.mpr (.inl own)
  exact (beside.twins.store among values).mono (fun _ _ _ _ twins => { beside with twins })
    fun _ _ _ twins => { beside with twins }

theorem Beside.printed {other : O}
    (beside : Beside holdings rename Level allocator names rest room (o, p) (other, q))
    (journal journal' : Journal) :
    Beside holdings rename Level allocator names rest room (o, { p with journal })
      (other, { q with journal := journal' }) :=
  { beside with twins := beside.twins.printed journal journal' }

theorem Beside.onto (beside : Beside holdings rename Level allocator names rest room s t)
    {known : Renaming → Prop} (knows : known names) :
    Onto holdings rename Level fixed number allocator names rest room s.1 known s t :=
  ⟨le_refl _, rfl, .here ⟨beside, knows⟩⟩

theorem Beside.moved (beside : Beside holdings rename Level allocator later rest room s t)
    (keeps : names.Keeps later rest) {known : Renaming → Prop} (knows : known later) :
    Onto holdings rename Level (fun _ => 0) (fun _ => none) allocator names rest room o known s t :=
  ⟨le_refl _, rfl, later, keeps.mono (zero_add rest).le, beside, knows⟩

/-- What became of the object is what became of it on the way, and what became of that. -/
theorem Onto.after {known final : Renaming → Prop}
    (onto : Onto holdings rename Level fixed number allocator later rest room middle known s t)
    (grows : fixed o ≤ fixed middle) (same : number middle = number o)
    (keeps : names.Keeps later (fixed o + rest)) (knows : ∀ last, known last → final last) :
    Onto holdings rename Level fixed number allocator names rest room o final s t where
  grows := grows.trans onto.grows
  number := onto.number.trans same
  onward := by
    obtain ⟨last, further, beside, known⟩ := onto.onward
    exact ⟨last, keeps.trans (further.mono (add_le_add_left grows rest)), beside, knows last known⟩

theorem Onto.mono {known final : Renaming → Prop}
    (onto : Onto holdings rename Level fixed number allocator names rest more o known s t)
    (less : room ≤ more) (knows : ∀ later, known later → final later) :
    Onto holdings rename Level fixed number allocator names rest room o final s t :=
  { onto with
    onward := onto.onward.mono (le_refl _) fun later _ known =>
      ⟨known.1.less less, knows later known.2⟩ }

variable {α : Type} {excused pardoned : Failure → O × Process → Prop}

theorem lockstep_told {x y : Method O α}
    (both : Lockstep excused pardoned x y s t
      (fun a b s' t' => b = a ∧
        Onto holdings rename Level fixed number allocator names rest room o (fun _ => True) s' t')
      fun _ => Onto holdings rename Level fixed number allocator names rest room o fun _ => True) :
    Lockstep excused pardoned x y s t
      (fun a b => Onto holdings rename Level fixed number allocator names rest room o fun _ => b = a)
      fun _ => Onto holdings rename Level fixed number allocator names rest room o fun _ => True :=
  both.mono (fun _ _ _ _ ends => ends.2.mono (le_refl room) fun _ _ => ends.1)
    fun _ _ _ onto => onto

theorem lockstep_silent {x y : Method O PUnit}
    (both : Lockstep excused pardoned x y s t
      (fun _ _ => Onto holdings rename Level fixed number allocator names rest room o fun _ => True)
      fun _ => Onto holdings rename Level fixed number allocator names rest room o fun _ => True) :
    Lockstep excused pardoned x y s t
      (fun a b => Onto holdings rename Level fixed number allocator names rest room o fun _ => b = a)
      fun _ => Onto holdings rename Level fixed number allocator names rest room o fun _ => True :=
  lockstep_told (both.mono (fun _ _ _ _ onto => ⟨rfl, onto⟩) fun _ _ _ onto => onto)

end Objects

open SymbolStore.Process (Twins)

namespace Manager

theorem HandsOut.twins {payload : Layout} (handed : manager.HandsOut p p' payload a)
    (handed' : manager.HandsOut q q' payload b)
    (twins : Twins allocator names extents (room + 1) p q) :
    names.Keeps (names.assign a b) extents ∧
      Twins allocator (names.assign a b) (⟨manager, a, payload.size⟩ ::ₘ extents) room p' q' := by
  have fresh := twins.not_mem_of_fresh handed.fresh
  have fresh' := twins.not_mem_of_fresh' handed'.fresh
  have others := twins.kept (handed.ample twins.here) (handed'.ample twins.there)
    fun _ _ paired => paired.evolved handed.evolves handed'.evolves List.not_mem_nil List.not_mem_nil
  refine ⟨names.keeps_assign fresh fresh', others.added fresh fresh' ?_⟩
  refine ⟨⟨_, handed.grants.block, ?_⟩, handed.grants.holds, ?_⟩
  · rw [Renaming.block_assign]
    exact handed'.grants.block
  · rw [Renaming.block_assign]
    exact handed'.grants.holds

theorem TakesBack.twins {size size' : Nat}
    (taken : extent.manager.TakesBack p p' extent.address size)
    (taken' : extent.manager.TakesBack q q' (names.block extent.address) size')
    (twins : Twins allocator names (extent ::ₘ extents) room p q) :
    Twins allocator names extents room p' q' := by
  refine (twins.forget (Multiset.le_cons_self _ _)).kept (taken.ample twins.here)
    (taken'.ample twins.there) ?_
  intro other member paired
  have apart := twins.apart member
  exact paired.evolved taken.evolves taken'.evolves (fun same => apart.1 (List.mem_singleton.mp same))
    fun same => apart.2 (List.mem_singleton.mp same)

theorem Moves.not_mem {block : Block} {newSize : Nat} {address : Extent → Nat}
    (moves : manager.Moves p p' b block a newSize)
    (holds : ∀ extent ∈ extents, address extent ≠ b ∧
      extent.manager.Holds p (address extent) extent.size) : a ∉ extents.map address := by
  intro member
  obtain ⟨extent, there, rfl⟩ := Multiset.mem_map.mp member
  obtain ⟨apart, held⟩ := holds extent there
  have fresh := moves.fresh
  rw [Heap.find?_erase_of_ne apart] at fresh
  exact held.ne_of_fresh fresh rfl

theorem Moves.twins {block : Block} {newSize : Nat}
    (moves : extent.manager.Moves p p' extent.address block a newSize)
    (moves' : extent.manager.Moves q q' (names.block extent.address) block b newSize)
    (twins : Twins allocator names (extent ::ₘ extents) (room + 1) p q) :
    names.Keeps (names.assign a b) extents ∧
      Twins allocator (names.assign a b) (⟨extent.manager, a, newSize⟩ ::ₘ extents) room p' q' := by
  have older := twins.forget (Multiset.le_cons_self _ _)
  have others := older.kept (moves.ample twins.here) (moves'.ample twins.there)
    fun other member paired => by
      have apart := twins.apart member
      exact paired.evolved moves.evolves moves'.evolves
        (fun same => apart.1 (List.mem_singleton.mp same))
        fun same => apart.2 (List.mem_singleton.mp same)
  have fresh : a ∉ extents.map Extent.address := moves.not_mem fun other member =>
    ⟨(twins.apart member).1, (older.paired other member).here⟩
  have fresh' : b ∉ extents.map fun extent => names.block extent.address :=
    moves'.not_mem fun other member =>
      ⟨(twins.apart member).2, (older.paired other member).there⟩
  refine ⟨Renaming.keeps_assign fresh fresh',
    others.added fresh fresh' ⟨⟨_, moves.block, ?_⟩, moves.held, ?_⟩⟩
  · rw [Renaming.block_assign]
    exact moves'.block
  · rw [Renaming.block_assign]
    exact moves'.held

section

variable (bySize : allocator.BySize grants bound)
include bySize

theorem allocate_tandem (manager : Manager) (payload : Layout)
    (twins : Twins allocator names extents (room + 1) p q) :
    Tandem bound (manager.allocate payload) (manager.allocate payload) p q
      (fun a b p' q' => payload.Paged a ∧ payload.Paged b ∧ names.Keeps (names.assign a b) extents ∧
        Twins allocator (names.assign a b) (⟨manager, a, payload.size⟩ ::ₘ extents) room p' q')
      fun _ => Twins allocator names extents room := by
  refine (Action.lockstep_of_objection (manager.allocate_objects bySize payload twins.here)
    (manager.allocate_objects bySize payload twins.there)).mono ?_ ?_
  · rintro a b p' q' ⟨⟨paged, handed⟩, paged', handed'⟩
    exact ⟨paged, paged', handed.twins handed' twins⟩
  · rintro _ p' q' ⟨remarks, remarks'⟩
    exact (twins.remarked remarks remarks').less (Nat.le_succ room)

theorem allocateArray_tandem (manager : Manager) (element : Layout) (count : Nat)
    (twins : Twins allocator names extents (room + 1) p q) :
    Tandem bound (manager.allocateArray element count) (manager.allocateArray element count) p q
      (fun a b p' q' => names.Keeps (names.assign a b) extents ∧
        Twins allocator (names.assign a b) (⟨manager, a, element.size * count⟩ ::ₘ extents) room p' q')
      fun _ => Twins allocator names extents room := by
  rw [allocateArray]
  refine .ofError (fun _ => twins.less (Nat.le_succ room)) fun bytes counted => ?_
  obtain rfl := Layout.eq_of_arrayBytes counted
  exact (allocate_tandem bySize manager _ twins).mono (fun _ _ _ _ ends => ends.2.2)
    fun _ _ _ left => left

theorem reallocateArray_tandem {element : Layout} {oldCount : Nat} (newCount : Nat)
    (size : extent.size = element.size * oldCount)
    (twins : Twins allocator names (extent ::ₘ extents) (room + 1) p q) :
    Tandem bound (extent.manager.reallocateArray extent.address element oldCount newCount)
      (extent.manager.reallocateArray (names.block extent.address) element oldCount newCount) p q
      (fun a b p' q' => names.Keeps (names.assign a b) extents ∧
        Twins allocator (names.assign a b)
          (⟨extent.manager, a, element.size * newCount⟩ ::ₘ extents) room p' q')
      fun _ => Twins allocator names (extent ::ₘ extents) room := by
  have paired := twins.paired extent (Multiset.mem_cons_self _ _)
  obtain ⟨block, found, found'⟩ := paired.same
  obtain ⟨_, present, sized, -⟩ := paired.here.present
  rw [found] at present
  cases present
  refine (Action.lockstep_of_objection
    (reallocateArray_objects bySize newCount twins.here found (sized.trans size)
      (sized ▸ paired.here))
    (reallocateArray_objects bySize newCount twins.there found' (sized.trans size)
      (sized ▸ paired.there))).mono ?_ ?_
  · rintro a b p' q' ⟨moves, moves'⟩
    exact moves.twins moves' twins
  · rintro _ p' q' ⟨remarks, remarks'⟩
    exact (twins.remarked remarks remarks').less (Nat.le_succ room)

end

theorem free_tandem (twins : Twins allocator names (extent ::ₘ extents) room p q)
    {excused pardoned : Failure → Process → Prop} :
    Lockstep excused pardoned (extent.manager.free extent.address)
      (extent.manager.free (names.block extent.address)) p q
      (fun _ _ => Twins allocator names extents room) fun _ _ _ => False := by
  have paired := twins.paired extent (Multiset.mem_cons_self _ _)
  refine Action.lockstep_of_ends (free_takes twins.here.sound paired.here)
    (free_takes twins.there.sound paired.there) ?_
  rintro _ _ p' q' ⟨size, taken⟩ ⟨size', taken'⟩
  exact taken.twins taken' twins

end Manager

end SymbolStore
