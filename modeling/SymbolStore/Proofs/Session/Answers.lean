import SymbolStore.Proofs.Session.Alone

/-!
Requests to a structure that is alone in a second session are answered there as in the first one, but
for addresses and the numbers of regions.
-/

namespace SymbolStore

open SymbolStore.Action (Lockstep)
open SymbolStore.Process (Twins)

variable {K V : Type}

namespace Answer

def rename (names : Renaming) : Answer K V → Answer K V
  | .address answer => .address (names.block answer)
  | .pointer answer => .pointer (answer.rename names)
  | .handle answer => .handle (answer.rename names)
  | .interned answer =>
    .interned (answer.map fun (symbol, told) => (symbol.rename names, told))
  | answer => answer

def Of (number : Option Nat) : Answer K V → Prop
  | .handle answer => number = some answer.region
  | .interned answer => ∀ entry ∈ answer, number = some entry.1.interner
  | _ => True

theorem rename_congr {names later : Renaming} {number : Option Nat} {answer : Answer K V}
    (of : answer.Of number) (block : later.block = names.block)
    (region : ∀ id, number = some id → later.region id = names.region id) :
    answer.rename later = answer.rename names := by
  have pointer (place : Pointer) : place.rename later = place.rename names := by
    rw [Pointer.rename, Pointer.rename, block]
  cases answer with
  | address => exact congrArg (fun block : Equiv.Perm Nat => Answer.address (block _)) block
  | pointer => exact congrArg Answer.pointer (pointer _)
  | handle handle =>
      rw [rename, rename, Region.Handle.rename, Region.Handle.rename, region handle.region of]
  | interned entries =>
      refine congrArg Answer.interned (List.map_congr_left fun entry member => ?_)
      have symbol : entry.1.rename later = entry.1.rename names := by
        rw [Symbol.rename, Symbol.rename, pointer, region _ (of entry member)]
      exact congrArg (·, entry.2) symbol
  | done | truth | number | bytes | text | elements | inserted | value | entries => rfl

def Plain (answer : Answer K V) : Prop :=
  ∀ names number, answer.rename names = answer ∧ answer.Of number

end Answer

namespace Command

def subject? : Command K V → Option Place
  | resolveHandle region _ => some (.region region)
  | command => command.place?

def concerns (place : Place) (command : Command K V) : Bool := command.subject? = some place

theorem concerns_iff {place : Place} {command : Command K V} :
    command.concerns place = true ↔ command.subject? = some place := decide_eq_true_iff

/-- Whether the request is one to a structure on this manager, and asks for no range of an alignment
above that of a page. -/
def isOn (manager : String) : Command K V → Bool
  | createManager .. | shareManager .. | dropManager .. | allocate .. | allocateArray ..
  | reallocate .. | reallocateArray .. | free .. | writeBlock .. | readBlock .. => false
  | createArray _ source .. => source = manager
  | createRegion _ source _ => source = some manager
  | storeRange _ range _ => range.align ≤ Allocator.pageSize
  | createInterner _ source _ value _ =>
    decide (source = some manager ∧ value.align ≤ Allocator.pageSize)
  | createDictionary _ source .. => source = some manager
  | _ => true

end Command

namespace Session

variable {α β O : Type} {allocator : Allocator} {grants : Nat → Bool} {own : Label → Prop}
  {place : Place} {names later : Renaming} {bound room more a b : Nat} {s t : Session K V}
  {direct direct' : Multiset Extent} {name : String} {command : Command K V}

/-- The second session has what stands for what the first one has, and has answered alike. -/
def Answered (allocator : Allocator) (own : Label → Prop) (place : Place) (a b : Nat)
    (names : Renaming) (room : Nat) (number : Option Nat) (answer other : Answer K V) :
    Session K V → Session K V → Prop :=
  Remains allocator own place a b names room fun later =>
    other = answer.rename later ∧ answer.Of number

def Echoes (allocator : Allocator) (own : Label → Prop) (place : Place) (names : Renaming)
    (room bound : Nat) (command : Command K V) (s t : Session K V) : Prop :=
  Tandem bound (perform command) (perform command) s t
    (Answered allocator own place s.process.nextRegion t.process.nextRegion names room
      (s.numberAt place))
    fun _ => Remains allocator own place s.process.nextRegion t.process.nextRegion names room
      fun _ => True

theorem Remains.mono {known final : Renaming → Prop}
    (remains : Remains allocator own place a b names room known s t)
    (knows : ∀ later, later.region = names.region → known later → final later) :
    Remains allocator own place a b names room final s t := by
  obtain ⟨later, region, alone, known⟩ := remains
  exact ⟨later, region, alone, knows later region known⟩

theorem tandem_plain {x y : Action (Session K V) α} {number : Option Nat} {answer : α → Answer K V}
    (plain : ∀ a, (answer a).Plain)
    (both : Tandem bound x y s t
      (fun result other => Remains allocator own place a b names room fun _ => other = result)
      fun _ => Remains allocator own place a b names room fun _ => True) :
    Tandem bound (x >>= fun result => pure (answer result)) (y >>= fun result => pure (answer result))
      s t (Answered allocator own place a b names room number)
      fun _ => Remains allocator own place a b names room fun _ => True := by
  refine both.bind (fun _ _ _ => id) fun result other s' t' remains => .last (by rfl) (by rfl) ?_
  refine remains.mono fun later _ same => ?_
  obtain ⟨clear, of⟩ := plain result later number
  exact ⟨same ▸ clear.symm, of⟩

theorem numberAt_region {region : Region} (named : s.regions[name]? = some region) :
    s.numberAt (.region name) = some region.id := by
  rw [numberAt, find?_region named, Option.bind_some]
  rfl

theorem numberAt_interner {interner : Interner} (named : s.interners[name]? = some interner) :
    s.numberAt (.interner name) = some interner.region.id := by
  rw [numberAt, find?_interner named, Option.bind_some]
  rfl

section Requests

variable {number : Option Nat} (settled : s.Settled direct) {cost : Nat} (less : cost ≤ 128)
include settled

section Kinds

include less

theorem onArray_tandem {x y : Method FlatArray α} {known : α → α → Renaming → Prop}
    (alone : Alone allocator own (.array name) a b names (room + 128) s t)
    (step : ∀ array, s.arrays[name]? = some array →
      FlatArray.Beside allocator names 0 (room + cost) (array, s.process)
        (array.rename names, t.process) →
      Method.Tandem bound x y (array, s.process) (array.rename names, t.process)
        (fun result other => FlatArray.Onto allocator names 0 room array (known result other))
        fun _ => FlatArray.Onto allocator names 0 room array fun _ => True) :
    Tandem bound (onArray name x) (onArray name y) s t
      (fun result other => Remains allocator own (.array name) a b names room (known result other))
      fun _ => Remains allocator own (.array name) a b names room fun _ => True := by
  rw [onArray, onArray]
  exact (alone.less (Nat.add_le_add_left less room)).on Structure.array_kind (fun _ => rfl) settled
    (Nat.le_add_right room cost) step

theorem onRegion_tandem {x y : Method Region α} {known : α → α → Renaming → Prop}
    (alone : Alone allocator own (.region name) a b names (room + 128) s t)
    (step : ∀ region, s.regions[name]? = some region →
      Region.Beside allocator names 0 (room + cost) (region, s.process)
        (region.rename names, t.process) →
      Method.Tandem bound x y (region, s.process) (region.rename names, t.process)
        (fun result other => Region.Onto allocator names 0 room region (known result other))
        fun _ => Region.Onto allocator names 0 room region fun _ => True) :
    Tandem bound (onRegion name x) (onRegion name y) s t
      (fun result other => Remains allocator own (.region name) a b names room (known result other))
      fun _ => Remains allocator own (.region name) a b names room fun _ => True := by
  rw [onRegion, onRegion]
  exact (alone.less (Nat.add_le_add_left less room)).on Structure.region_kind (fun _ => rfl) settled
    (Nat.le_add_right room cost) step

theorem onInterner_tandem {x y : Method Interner α} {known : α → α → Renaming → Prop}
    (alone : Alone allocator own (.interner name) a b names (room + 128) s t)
    (step : ∀ interner, s.interners[name]? = some interner →
      Interner.Beside allocator names 0 (room + cost) (interner, s.process)
        (interner.rename names, t.process) →
      Method.Tandem bound x y (interner, s.process) (interner.rename names, t.process)
        (fun result other => Interner.Onto allocator names 0 room interner (known result other))
        fun _ => Interner.Onto allocator names 0 room interner fun _ => True) :
    Tandem bound (onInterner name x) (onInterner name y) s t
      (fun result other =>
        Remains allocator own (.interner name) a b names room (known result other))
      fun _ => Remains allocator own (.interner name) a b names room fun _ => True := by
  rw [onInterner, onInterner]
  exact (alone.less (Nat.add_le_add_left less room)).on Structure.interner_kind (fun _ => rfl)
    settled (Nat.le_add_right room cost) step

theorem onDictionary_tandem {x y : Method (Dictionary K V) α} {known : α → α → Renaming → Prop}
    (alone : Alone allocator own (.dictionary name) a b names (room + 128) s t)
    (step : ∀ dictionary, s.dictionaries[name]? = some dictionary →
      Dictionary.Beside allocator names 0 (room + cost) (dictionary, s.process)
        (dictionary.rename names, t.process) →
      Method.Tandem bound x y (dictionary, s.process) (dictionary.rename names, t.process)
        (fun result other => Dictionary.Onto allocator names 0 room dictionary (known result other))
        fun _ => Dictionary.Onto allocator names 0 room dictionary fun _ => True) :
    Tandem bound (onDictionary name x) (onDictionary name y) s t
      (fun result other =>
        Remains allocator own (.dictionary name) a b names room (known result other))
      fun _ => Remains allocator own (.dictionary name) a b names room fun _ => True := by
  rw [onDictionary, onDictionary]
  exact (alone.less (Nat.add_le_add_left less room)).on Structure.dictionary_kind (fun _ => rfl)
    settled (Nat.le_add_right room cost) step

end Kinds

section Arrays

variable (bySize : allocator.BySize grants bound)
  (alone : Alone allocator own (.array name) s.process.nextRegion t.process.nextRegion names
    (room + 128) s t)
include alone

theorem echoes_fillArray (value : List UInt8) :
    Echoes allocator own (.array name) names room bound (.fillArray name value) s t := by
  rw [Echoes, perform]
  refine tandem_plain (fun _ _ _ => ⟨rfl, trivial⟩) ?_
  exact onArray_tandem settled (Nat.zero_le 128) alone fun _ _ beside =>
    lockstep_silent (FlatArray.fill_tandem value beside)

theorem echoes_setElement (index : Nat) (value : List UInt8) :
    Echoes allocator own (.array name) names room bound (.setElement name index value) s t := by
  rw [Echoes, perform]
  refine tandem_plain (fun _ _ _ => ⟨rfl, trivial⟩) ?_
  exact onArray_tandem settled (Nat.zero_le 128) alone fun _ _ beside =>
    lockstep_silent (FlatArray.set_tandem index value beside)

theorem echoes_getElement (index : Nat) :
    Echoes allocator own (.array name) names room bound (.getElement name index) s t := by
  rw [Echoes, perform]
  refine tandem_plain (fun _ _ _ => ⟨rfl, trivial⟩) ?_
  exact onArray_tandem settled (Nat.zero_le 128) alone fun _ _ beside =>
    lockstep_told (FlatArray.get_tandem index beside)

theorem echoes_readArray :
    Echoes allocator own (.array name) names room bound (.readArray name) s t := by
  rw [Echoes, perform]
  refine onArray_tandem settled (Nat.zero_le 128) alone fun array _ beside => ?_
  refine .step (by rfl) (by rfl) (.step (by rfl) (by rfl) (.last (by rfl) (by rfl) ?_))
  exact beside.onto ⟨congrArg Answer.elements (FlatArray.toList_rename beside.twins), trivial⟩

include bySize

theorem echoes_resizeArray (length : Nat) (value : List UInt8) :
    Echoes allocator own (.array name) names room bound (.resizeArray name length value) s t := by
  rw [Echoes, perform]
  refine tandem_plain (fun _ _ _ => ⟨rfl, trivial⟩) ?_
  exact onArray_tandem settled (by decide : 1 ≤ 128) alone fun _ _ beside =>
    lockstep_silent (FlatArray.resize_tandem bySize length value beside)

end Arrays

section Regions

variable (bySize : allocator.BySize grants bound)
  (alone : Alone allocator own (.region name) s.process.nextRegion t.process.nextRegion names
    (room + 128) s t)
include alone

theorem echoes_resetRegion :
    Echoes allocator own (.region name) names room bound (.resetRegion name) s t := by
  rw [Echoes, perform]
  refine tandem_plain (fun _ _ _ => ⟨rfl, trivial⟩) ?_
  exact onRegion_tandem settled (Nat.zero_le 128) alone fun _ _ beside =>
    lockstep_silent (Region.reset_tandem beside)

omit settled in
theorem echoes_resolveHandle {label : String} (mine : own (.handle label)) :
    Echoes allocator own (.region name) names room bound (.resolveHandle name label) s t := by
  have kept := alone.less (Nat.le_add_right room 128)
  have fails : Remains allocator own (.region name) s.process.nextRegion t.process.nextRegion names
      room (fun _ => True) s t := ⟨names, rfl, kept, trivial⟩
  have regions : Option.Rel (fun region other => other = Region.rename names region)
      s.regions[name]? t.regions[name]? := kept.stands Structure.region_kind fun _ => rfl
  rw [Echoes, perform]
  refine .step (by rfl) (by rfl) (lockstep_named regions fails ?_)
  rintro region _ named rfl
  refine .step (by rfl) (by rfl) ?_
  rw [handle, bind_assoc, bind_assoc]
  refine .step (by rfl) (by rfl) ?_
  refine lockstep_named (rel_of_map (alone.labelled.handles label mine)) fails ?_
  rintro handle _ - rfl
  have twins := kept.twins
  rw [occupied_of_find? (find?_region named), ← add_zero (Structure.holdings _)] at twins
  rw [Region.resolve_rename handle twins]
  cases region.resolve s.process.heap handle with
  | ok bytes =>
      refine .last (by rfl) (by rfl) ?_
      exact ⟨names, rfl, kept, rfl, trivial⟩
  | error failure => exact Action.lockstep_throw fails

include bySize

theorem echoes_storeRange {range : Layout} (content : Nat → UInt8)
    (small : range.align ≤ Allocator.pageSize) :
    Echoes allocator own (.region name) names room bound (.storeRange name range content) s t := by
  rw [Echoes, perform]
  have stores := onRegion_tandem settled (by decide : 1 ≤ 128) alone fun region _ beside =>
    Region.store_tandem bySize content small beside
  refine stores.bind (fun _ _ _ => id) fun place other s' t' remains => .last (by rfl) (by rfl) ?_
  exact remains.mono fun later _ same => ⟨congrArg Answer.pointer same, trivial⟩

theorem echoes_storeBytes {direct' : Multiset Extent} (there : t.Settled direct')
    (bytes : List UInt8) (label : Option String) :
    Echoes allocator own (.region name) names room bound (.storeBytes name bytes label) s t := by
  rw [Echoes, perform]
  have stores : Tandem bound (onRegion name (Region.storeBytes bytes) : Action (Session K V) _)
      (onRegion name (Region.storeBytes bytes)) s t
      (fun handle other => Remains allocator own (.region name) s.process.nextRegion
        t.process.nextRegion names room fun later =>
          other = handle.rename later ∧ s.numberAt (.region name) = some handle.region)
      fun _ => Remains allocator own (.region name) s.process.nextRegion t.process.nextRegion names
        room fun _ => True := by
    refine onRegion_tandem settled (by decide : 1 ≤ 128) alone fun region named beside => ?_
    refine (Region.storeBytes_tandem bySize bytes beside).mono ?_ fun _ _ _ => id
    rintro handle other ⟨after, p⟩ ⟨after', q⟩ ⟨issued, onto⟩
    refine onto.mono (le_refl room) fun later same => ⟨same, ?_⟩
    rw [numberAt_region named, issued]
    exact onto.number.symm
  refine stores.bind (fun _ _ _ => id) fun handle other s' t' remains => ?_
  have number : s.numberAt (.region name) = some handle.region := by
    obtain ⟨_, _, _, _, number⟩ := remains
    exact number
  obtain ⟨small, small'⟩ := alone.number_lt settled there number
  refine (nameHandle_tandem label remains small small').bind (fun _ _ _ => False.elim) ?_
  intro _ _ s' t' remains
  refine .last (by rfl) (by rfl) ?_
  exact remains.mono fun later _ known => ⟨congrArg Answer.handle known.1, known.2⟩

end Regions

section Dictionaries

variable (bySize : allocator.BySize grants bound)
  (alone : Alone allocator own (.dictionary name) s.process.nextRegion t.process.nextRegion names
    (room + 128) s t)
include alone

theorem echoes_getKey (key : K) :
    Echoes allocator own (.dictionary name) names room bound (.getKey name key) s t := by
  rw [Echoes, perform]
  refine onDictionary_tandem settled (Nat.zero_le 128) alone fun dictionary _ beside => ?_
  refine .step (by rfl) (by rfl) ?_
  rw [Dictionary.get_rename]
  refine .ofFault (fun _ => beside.onto trivial) fun value _ => .last (by rfl) (by rfl) ?_
  exact beside.onto ⟨rfl, trivial⟩

theorem echoes_hasKey (key : K) :
    Echoes allocator own (.dictionary name) names room bound (.hasKey name key) s t := by
  rw [Echoes, perform]
  refine onDictionary_tandem settled (Nat.zero_le 128) alone fun dictionary _ beside => ?_
  refine .step (by rfl) (by rfl) ?_
  rw [Dictionary.contains_rename]
  refine .ofFault (fun _ => beside.onto trivial) fun value _ => .last (by rfl) (by rfl) ?_
  exact beside.onto ⟨rfl, trivial⟩

theorem echoes_listDictionary :
    Echoes allocator own (.dictionary name) names room bound (.listDictionary name) s t := by
  rw [Echoes, perform]
  refine onDictionary_tandem settled (Nat.zero_le 128) alone fun dictionary _ beside => ?_
  refine .step (by rfl) (by rfl) ?_
  rw [Dictionary.toList_rename]
  refine .last (by rfl) (by rfl) ?_
  exact beside.onto ⟨rfl, trivial⟩

theorem echoes_modifyKey (key : K) (f : V → V) :
    Echoes allocator own (.dictionary name) names room bound (.modifyKey name key f) s t := by
  rw [Echoes, perform]
  refine tandem_plain (fun _ _ _ => ⟨rfl, trivial⟩) ?_
  exact onDictionary_tandem settled (Nat.zero_le 128) alone fun _ _ beside =>
    lockstep_told (Dictionary.modify_tandem key f beside)

theorem echoes_removeKey (key : K) :
    Echoes allocator own (.dictionary name) names room bound (.removeKey name key) s t := by
  rw [Echoes, perform]
  refine tandem_plain (fun _ _ _ => ⟨rfl, trivial⟩) ?_
  exact onDictionary_tandem settled (Nat.zero_le 128) alone fun _ _ beside =>
    lockstep_told (Dictionary.remove_tandem key beside)

theorem echoes_deleteKey (key : K) :
    Echoes allocator own (.dictionary name) names room bound (.deleteKey name key) s t := by
  rw [Echoes, perform]
  refine tandem_plain (fun _ _ _ => ⟨rfl, trivial⟩) ?_
  exact onDictionary_tandem settled (Nat.zero_le 128) alone fun _ _ beside =>
    lockstep_told (Dictionary.delete_tandem key beside)

theorem echoes_clearDictionary :
    Echoes allocator own (.dictionary name) names room bound (.clearDictionary name) s t := by
  rw [Echoes, perform]
  refine tandem_plain (fun _ _ _ => ⟨rfl, trivial⟩) ?_
  exact onDictionary_tandem settled (Nat.zero_le 128) alone fun _ _ beside =>
    lockstep_silent (Dictionary.clear_tandem beside)

include bySize

theorem echoes_setKey (key : K) (value : V) :
    Echoes allocator own (.dictionary name) names room bound (.setKey name key value) s t := by
  rw [Echoes, perform]
  refine tandem_plain (fun _ _ _ => ⟨rfl, trivial⟩) ?_
  exact onDictionary_tandem settled (by decide : 2 ≤ 128) alone fun _ _ beside =>
    lockstep_told (Dictionary.set_tandem bySize key value beside)

end Dictionaries

section Interners

variable (bySize : allocator.BySize grants bound)
  (alone : Alone allocator own (.interner name) s.process.nextRegion t.process.nextRegion names
    (room + 128) s t)
include alone

theorem echoes_valueFor (content : List UInt8) :
    Echoes allocator own (.interner name) names room bound (.valueFor name content) s t := by
  rw [Echoes, perform]
  refine onInterner_tandem settled (Nat.zero_le 128) alone fun interner _ beside => ?_
  refine .step (by rfl) (by rfl) (.step (by rfl) (by rfl) ?_)
  show Method.Tandem bound (liftM (interner.get s.process.heap content) >>= _)
    (liftM ((interner.rename names).get t.process.heap content) >>= _) _ _ _ _
  rw [Interner.get_rename beside]
  refine .ofFault (fun _ => beside.onto trivial) fun value _ => .last (by rfl) (by rfl) ?_
  exact beside.onto ⟨rfl, trivial⟩

theorem echoes_contains (content : List UInt8) :
    Echoes allocator own (.interner name) names room bound (.contains name content) s t := by
  rw [Echoes, perform]
  refine onInterner_tandem settled (Nat.zero_le 128) alone fun interner _ beside => ?_
  refine .step (by rfl) (by rfl) (.step (by rfl) (by rfl) ?_)
  show Method.Tandem bound (liftM (interner.contains s.process.heap content) >>= _)
    (liftM ((interner.rename names).contains t.process.heap content) >>= _) _ _ _ _
  rw [Interner.contains_rename beside]
  refine .ofFault (fun _ => beside.onto trivial) fun value _ => .last (by rfl) (by rfl) ?_
  exact beside.onto ⟨rfl, trivial⟩

theorem echoes_listInterner :
    Echoes allocator own (.interner name) names room bound (.listInterner name) s t := by
  rw [Echoes, perform]
  refine onInterner_tandem settled (Nat.zero_le 128) alone fun interner named beside => ?_
  refine .step (by rfl) (by rfl) (.step (by rfl) (by rfl) (.last (by rfl) (by rfl) ?_))
  refine beside.onto ⟨congrArg Answer.interned (Interner.toList_rename beside), ?_⟩
  intro entry member
  obtain ⟨place, -, rfl⟩ := List.mem_map.mp member
  exact numberAt_interner named

theorem echoes_clearInterner :
    Echoes allocator own (.interner name) names room bound (.clearInterner name) s t := by
  rw [Echoes, perform]
  refine tandem_plain (fun _ _ _ => ⟨rfl, trivial⟩) ?_
  exact onInterner_tandem settled (Nat.zero_le 128) alone fun _ _ beside =>
    lockstep_silent (Interner.clear_tandem beside)

theorem symbol_tandem {label : String} (mine : own (.symbol label)) {x : Symbol → Method Interner α}
    {known : α → α → Renaming → Prop}
    (step : ∀ interner symbol other,
      Interner.Beside allocator names 0 room (interner, s.process)
        (interner.rename names, t.process) →
      symbol.Alike names (some interner.region.id) other →
      (symbol.interner = interner.region.id → interner.Issues symbol) →
      Method.Tandem bound (x symbol) (x other) (interner, s.process)
        (interner.rename names, t.process)
        (fun result other => Interner.Onto allocator names 0 room interner (known result other))
        fun _ => Interner.Onto allocator names 0 room interner fun _ => True) :
    Tandem bound
      (do
        let _ ← named (← current).interners name
        onInterner name (x (← symbol label)))
      (do
        let _ ← named (← current).interners name
        onInterner name (x (← symbol label))) s t
      (fun result other => Remains allocator own (.interner name) s.process.nextRegion
        t.process.nextRegion names room (known result other))
      fun _ => Remains allocator own (.interner name) s.process.nextRegion t.process.nextRegion names
        room fun _ => True := by
  have kept := alone.less (Nat.le_add_right room 128)
  have fails : Remains allocator own (.interner name) s.process.nextRegion t.process.nextRegion names
      room (fun _ => True) s t := ⟨names, rfl, kept, trivial⟩
  have interners : Option.Rel (fun interner other => other = Interner.rename names interner)
      s.interners[name]? t.interners[name]? := kept.stands Structure.interner_kind fun _ => rfl
  refine .step (by rfl) (by rfl) (lockstep_named interners fails ?_)
  rintro interner _ present rfl
  rw [symbol, bind_assoc]
  refine .step (by rfl) (by rfl) ?_
  refine lockstep_named (alone.labelled.symbols label mine) fails fun symbol other named alike => ?_
  refine onInterner_tandem settled (Nat.zero_le 128) alone fun found there beside => ?_
  obtain rfl := Option.some.inj (present.symm.trans there)
  rw [find?_interner present, Option.bind_some] at alike
  have belongs := mem_structures.mpr ⟨.interner name, find?_interner present⟩
  exact step interner symbol other beside alike ((settled.issued label symbol named).2 interner belongs)

theorem echoes_valueOf {label : String} (mine : own (.symbol label)) :
    Echoes allocator own (.interner name) names room bound (.valueOf name label) s t := by
  rw [Echoes, perform]
  refine symbol_tandem settled alone mine fun interner symbol other beside alike issued => ?_
  refine .step (by rfl) (by rfl) (.step (by rfl) (by rfl) (.last (by rfl) (by rfl) ?_))
  exact beside.onto ⟨congrArg Answer.bytes (Interner.valueOf_rename alike issued beside), trivial⟩

theorem echoes_bytesOf {label : String} (mine : own (.symbol label)) :
    Echoes allocator own (.interner name) names room bound (.bytesOf name label) s t := by
  rw [Echoes, perform]
  refine symbol_tandem settled alone mine fun interner symbol other beside alike issued => ?_
  refine .step (by rfl) (by rfl) (.step (by rfl) (by rfl) (.last (by rfl) (by rfl) ?_))
  exact beside.onto ⟨congrArg Answer.bytes (Interner.bytesOf_rename alike issued beside), trivial⟩

theorem echoes_textOf {label : String} (mine : own (.symbol label)) :
    Echoes allocator own (.interner name) names room bound (.textOf name label) s t := by
  rw [Echoes, perform]
  refine symbol_tandem settled alone mine fun interner symbol other beside alike issued => ?_
  refine .step (by rfl) (by rfl) (.step (by rfl) (by rfl) (.last (by rfl) (by rfl) ?_))
  exact beside.onto ⟨congrArg Answer.text (Interner.textOf_rename alike issued beside), trivial⟩

theorem echoes_setValue {label : String} (mine : own (.symbol label)) (value : List UInt8) :
    Echoes allocator own (.interner name) names room bound (.setValue name label value) s t := by
  have performs : (perform (.setValue name label value) : Action (Session K V) (Answer K V)) =
      (do
        let _ ← named (← current).interners name
        onInterner name (Interner.setValue (← symbol label) value)) >>= fun set =>
          pure (.truth set) := by
    simp only [perform, bind_assoc]
  rw [Echoes, performs]
  refine tandem_plain (fun _ _ _ => ⟨rfl, trivial⟩) ?_
  refine symbol_tandem settled alone mine fun interner symbol other beside alike issued => ?_
  exact lockstep_told (Interner.setValue_tandem alike issued beside value)

omit settled alone in
theorem nameSymbol_answers {symbol other : Symbol} {number : Option Nat} {answer : Answer K V}
    (label : Option String) (plain : answer.Plain)
    (remains : Remains allocator own place a b names room
      (fun later => other = symbol.rename later) s t) :
    Tandem bound
      (do
        nameSymbol label symbol
        return answer)
      (do
        nameSymbol label other
        return answer) s t
      (Answered allocator own place a b names room number)
      fun _ => Remains allocator own place a b names room fun _ => True := by
  have known : Remains allocator own place a b names room
      (fun later => other = symbol.rename later ∧ True) s t :=
    remains.mono fun _ _ same => ⟨same, trivial⟩
  refine (nameSymbol_tandem label known).bind (fun _ _ _ => False.elim) ?_
  intro _ _ s' t' remains
  refine .last (by rfl) (by rfl) ?_
  exact remains.mono fun later _ _ => ⟨(plain later number).1.symm, (plain later number).2⟩

omit settled alone in
theorem found_answers {E : Type} {x y : Action (Session K V) (Option (Symbol × E))}
    {f : Option (Symbol × E) → Action (Session K V) (Answer K V)} {answer : E → Answer K V}
    {number : Option Nat} (label : Option String)
    (some_eq : ∀ symbol rest, f (some (symbol, rest)) = (do
      nameSymbol label symbol
      return answer rest))
    (none_eq : f none = pure (.bytes none)) (plain : ∀ rest, (answer rest).Plain)
    (finds : Tandem bound x y s t
      (fun found other => Remains allocator own place a b names room fun later =>
        other = found.map (Prod.map (Symbol.rename later) id))
      fun _ => Remains allocator own place a b names room fun _ => True) :
    Tandem bound (x >>= f) (y >>= f) s t (Answered allocator own place a b names room number)
      fun _ => Remains allocator own place a b names room fun _ => True := by
  refine finds.bind (fun _ _ _ => id) fun found other s' t' remains => ?_
  obtain ⟨later, region, alone, rfl⟩ := remains
  cases found with
  | none =>
      rw [Option.map_none, none_eq]
      refine .last (by rfl) (by rfl) ?_
      exact ⟨later, region, alone, rfl, trivial⟩
  | some entry =>
      rw [Option.map_some, Prod.map, some_eq, some_eq]
      exact nameSymbol_answers label (plain entry.2) ⟨later, region, alone, rfl⟩

theorem echoes_lookup (content : List UInt8) (label : Option String) :
    Echoes allocator own (.interner name) names room bound (.lookup name content label) s t := by
  rw [Echoes, perform]
  refine found_answers label (fun _ _ => rfl) rfl (fun _ _ _ => ⟨rfl, trivial⟩) ?_
  refine onInterner_tandem settled (Nat.zero_le 128) alone fun interner _ beside => ?_
  refine .step (by rfl) (by rfl) (.step (by rfl) (by rfl) ?_)
  show Method.Tandem bound (liftM (interner.lookup s.process.heap content) >>= _)
    (liftM ((interner.rename names).lookup t.process.heap content) >>= _) _ _ _ _
  rw [Interner.lookup_rename beside]
  refine .ofMapped (fun _ => beside.onto trivial) fun found searched => ?_
  refine .last (by rfl) (by rfl) ?_
  exact beside.onto (Interner.found_rename beside searched)

theorem echoes_nameEntry (index : Nat) (label : Option String) :
    Echoes allocator own (.interner name) names room bound (.nameEntry name index label) s t := by
  rw [Echoes, perform]
  refine found_answers label (fun _ _ => rfl) rfl (fun _ _ _ => ⟨rfl, trivial⟩) ?_
  refine onInterner_tandem settled (Nat.zero_le 128) alone fun interner _ beside => ?_
  rw [entryAt]
  refine .step (by rfl) (by rfl) (.step (by rfl) (by rfl) (.last (by rfl) (by rfl) ?_))
  refine beside.onto ?_
  rw [Interner.toList_rename beside, List.getElem?_map, Option.map_map, Option.map_map]
  rfl

include bySize

theorem echoes_insert (content value : List UInt8) (label : Option String) :
    Echoes allocator own (.interner name) names room bound (.insert name content value label) s t := by
  rw [Echoes, perform]
  have inserts : Tandem bound
      (onInterner name (Interner.insert content value) : Action (Session K V) _)
      (onInterner name (Interner.insert content value)) s t
      (fun given other => Remains allocator own (.interner name) s.process.nextRegion
        t.process.nextRegion names room fun later => other = (given.1.rename later, given.2))
      fun _ => Remains allocator own (.interner name) s.process.nextRegion t.process.nextRegion names
        room fun _ => True :=
    onInterner_tandem settled (by decide : 67 ≤ 128) alone fun _ _ beside =>
      (Interner.insert_tandem bySize content value beside).mono (fun _ _ _ _ ends => ends.2)
        fun _ _ _ => id
  refine inserts.bind (fun _ _ _ => id) fun given other s' t' remains => ?_
  obtain ⟨later, region, alone, rfl⟩ := remains
  exact nameSymbol_answers label (fun _ _ => ⟨rfl, trivial⟩) ⟨later, region, alone, rfl⟩

theorem echoes_intern (text : String) (default : List UInt8) (label : Option String) :
    Echoes allocator own (.interner name) names room bound (.intern name text default label) s t := by
  rw [Echoes, perform]
  have inserts : Tandem bound
      (onInterner name (Interner.intern text default) : Action (Session K V) _)
      (onInterner name (Interner.intern text default)) s t
      (fun given other => Remains allocator own (.interner name) s.process.nextRegion
        t.process.nextRegion names room fun later => other = given.rename later)
      fun _ => Remains allocator own (.interner name) s.process.nextRegion t.process.nextRegion names
        room fun _ => True :=
    onInterner_tandem settled (by decide : 67 ≤ 128) alone fun _ _ beside =>
      (Interner.intern_tandem bySize text default beside).mono (fun _ _ _ _ ends => ends.2)
        fun _ _ _ => id
  refine inserts.bind (fun _ _ _ => id) fun given other s' t' remains => ?_
  exact nameSymbol_answers label (fun _ _ => ⟨rfl, trivial⟩) remains

end Interners

section Lives

omit settled in
theorem echoes_drop (performs : perform command = vacate place)
    (apart : ∀ other, place ≠ .manager other)
    (alone : Alone allocator own place s.process.nextRegion t.process.nextRegion names (room + 128) s
      t) : Echoes allocator own place names room bound command s t := by
  rw [Echoes, performs]
  refine ((alone.less (Nat.le_add_right room 128)).vacates apart).mono ?_ fun _ _ _ => False.elim
  rintro _ _ s' t' ⟨rfl, ⟨truth, rfl⟩, alone⟩
  exact ⟨names, rfl, alone, rfl, trivial⟩

theorem echoes_create {build : Manager → Action Process α} {naming : α → Action (Session K V) Unit}
    {make : α → Structure K V} {source : String}
    (performs : perform command = (do
      naming (← building (some source) build)
      return .done))
    (names_eq : ∀ a, naming a = occupy name (make a)) (located : ∀ a, (make a).place name = place)
    (apart : ∀ other, place ≠ .manager other)
    (alone : Alone allocator own place s.process.nextRegion t.process.nextRegion names (room + 128) s
      t)
    (makes : ∀ manager p q, p.nextRegion = s.process.nextRegion →
      q.nextRegion = t.process.nextRegion →
      Twins allocator names (s.occupied place) (room + 1) p q →
      Process.Tandem bound (build manager) (build manager) p q
        (fun a b p q => (∀ id, (make a).internerId? = some id → id = s.process.nextRegion) ∧
          names.Onward (s.occupied place) fun later =>
            Structure.Beside allocator later (s.occupied place) room (make a, p) (make b, q))
        fun _ => Twins allocator names (s.occupied place) room) :
    Echoes allocator own place names room bound command s t := by
  rw [Echoes, performs]
  have smaller := alone.less (by omega : room + 1 ≤ room + 128)
  refine (smaller.builds settled source located apart (Nat.le_succ room) makes names_eq).mono ?_
    fun _ _ _ => id
  intro answer other s' t' remains
  refine remains.mono fun later _ known => ?_
  rw [known.1, known.2]
  exact ⟨rfl, trivial⟩

variable (bySize : allocator.BySize grants bound)
include bySize

theorem echoes_createArray (source : String) (element : Layout) (length : Nat) (value : List UInt8)
    (alone : Alone allocator own (.array name) s.process.nextRegion t.process.nextRegion names
      (room + 128) s t) :
    Echoes allocator own (.array name) names room bound
      (.createArray name source element length value) s t := by
  refine echoes_create settled (by rw [perform]) (nameArray_eq name) (fun _ => rfl)
    (fun _ => Place.noConfusion) alone fun manager p q _ _ twins => ?_
  refine (FlatArray.create_tandem bySize manager element length value twins).mono ?_
    fun _ _ _ => id
  intro array other p q onward
  refine ⟨fun _ none => ?_, onward.mono (le_refl _) fun _ _ => Structure.array_kind.beside⟩
  cases none

theorem echoes_createDictionary (source : String) (capacity : Nat) (rule : KeyRule K) (node : Layout)
    (alone : Alone allocator own (.dictionary name) s.process.nextRegion t.process.nextRegion names
      (room + 128) s t) :
    Echoes allocator own (.dictionary name) names room bound
      (.createDictionary name (some source) capacity rule node) s t := by
  refine echoes_create settled (by rw [perform]) (nameDictionary_eq name) (fun _ => rfl)
    (fun _ => Place.noConfusion) alone fun manager p q _ _ twins => ?_
  refine (Dictionary.create_tandem bySize manager capacity rule node twins).mono ?_ fun _ _ _ => id
  intro dictionary other p q onward
  refine ⟨fun _ none => ?_, onward.mono (le_refl _) fun _ _ => Structure.dictionary_kind.beside⟩
  cases none

variable (next : names.region s.process.nextRegion = t.process.nextRegion)
include next

omit bySize in
theorem echoes_createRegion (source : String) (chunkSize : Nat)
    (alone : Alone allocator own (.region name) s.process.nextRegion t.process.nextRegion names
      (room + 128) s t) :
    Echoes allocator own (.region name) names room bound
      (.createRegion name (some source) chunkSize) s t := by
  refine echoes_create settled (by rw [perform]) (nameRegion_eq name) (fun _ => rfl)
    (fun _ => Place.noConfusion) alone fun manager p q here there twins => ?_
  have given : names.region p.nextRegion = q.nextRegion := by rw [here, there, next]
  refine (Region.create_tandem manager chunkSize given (twins.less (Nat.le_succ room))).mono ?_
    fun _ _ _ => id
  rintro region other p q ⟨-, -, beside⟩
  refine ⟨fun _ none => ?_, .here (Structure.region_kind.beside beside)⟩
  cases none

theorem echoes_createInterner (source : String) (capacity : Nat) {value : Layout}
    (hasher : List UInt8 → UInt64) (small : value.align ≤ Allocator.pageSize)
    (alone : Alone allocator own (.interner name) s.process.nextRegion t.process.nextRegion names
      (room + 128) s t) :
    Echoes allocator own (.interner name) names room bound
      (.createInterner name (some source) capacity value hasher) s t := by
  refine echoes_create settled (by rw [perform]) (nameInterner_eq name) (fun _ => rfl)
    (fun _ => Place.noConfusion) alone fun manager p q here there twins => ?_
  have given : names.region p.nextRegion = q.nextRegion := by rw [here, there, next]
  refine (Interner.create_tandem bySize manager capacity hasher small given twins).mono ?_
    fun _ _ _ => id
  rintro interner other p' q' ⟨number, onward⟩
  refine ⟨fun id is => ?_, onward.mono (le_refl _) fun _ _ => Structure.interner_kind.beside⟩
  rw [← Option.some.inj is, number, here]

end Lives

end Requests

/-- Requests to the structure at the place are answered alike. -/
theorem perform_echoes (bySize : allocator.BySize grants bound) {direct' : Multiset Extent}
    (here : s.Settled direct) (there : t.Settled direct')
    (alone : Alone allocator own place s.process.nextRegion t.process.nextRegion names (room + 128) s
      t)
    (next : names.region s.process.nextRegion = t.process.nextRegion) {manager : String}
    (command : Command K V) (concerns : command.concerns place = true)
    (on : command.isOn manager = true) (mine : ∀ label ∈ command.reads?, own label) :
    Echoes allocator own place names room bound command s t := by
  have subject := Command.concerns_iff.mp concerns
  cases command with
  | createManager | shareManager | dropManager | allocate | allocateArray | reallocate
  | reallocateArray | free | writeBlock | readBlock => cases on
  | createArray name source element length value =>
      cases subject
      exact echoes_createArray here bySize source element length value alone
  | resizeArray name length value =>
      cases subject
      exact echoes_resizeArray here bySize alone length value
  | fillArray name value =>
      cases subject
      exact echoes_fillArray here alone value
  | setElement name index value =>
      cases subject
      exact echoes_setElement here alone index value
  | getElement name index =>
      cases subject
      exact echoes_getElement here alone index
  | readArray name =>
      cases subject
      exact echoes_readArray here alone
  | dropArray name =>
      cases subject
      exact echoes_drop (perform_drop (.array name)) (fun _ => Place.noConfusion) alone
  | createRegion name source chunkSize =>
      cases subject
      obtain rfl := of_decide_eq_true on
      exact echoes_createRegion here next manager chunkSize alone
  | storeRange region range content =>
      cases subject
      exact echoes_storeRange here bySize alone content (of_decide_eq_true on)
  | storeBytes region bytes label =>
      cases subject
      exact echoes_storeBytes here bySize alone there bytes label
  | resolveHandle region label =>
      cases subject
      exact echoes_resolveHandle alone (mine _ rfl)
  | resetRegion region =>
      cases subject
      exact echoes_resetRegion here alone
  | dropRegion name =>
      cases subject
      exact echoes_drop (perform_drop (.region name)) (fun _ => Place.noConfusion) alone
  | createInterner name source capacity value hasher =>
      cases subject
      obtain ⟨rfl, small⟩ := of_decide_eq_true on
      exact echoes_createInterner here bySize next manager capacity hasher small alone
  | insert interner content value label =>
      cases subject
      exact echoes_insert here bySize alone content value label
  | intern interner text default label =>
      cases subject
      exact echoes_intern here bySize alone text default label
  | lookup interner content label =>
      cases subject
      exact echoes_lookup here alone content label
  | valueFor interner content =>
      cases subject
      exact echoes_valueFor here alone content
  | contains interner content =>
      cases subject
      exact echoes_contains here alone content
  | valueOf interner label =>
      cases subject
      exact echoes_valueOf here alone (mine _ rfl)
  | setValue interner label value =>
      cases subject
      exact echoes_setValue here alone (mine _ rfl) value
  | bytesOf interner label =>
      cases subject
      exact echoes_bytesOf here alone (mine _ rfl)
  | textOf interner label =>
      cases subject
      exact echoes_textOf here alone (mine _ rfl)
  | listInterner interner =>
      cases subject
      exact echoes_listInterner here alone
  | nameEntry interner index label =>
      cases subject
      exact echoes_nameEntry here alone index label
  | clearInterner interner =>
      cases subject
      exact echoes_clearInterner here alone
  | dropInterner name =>
      cases subject
      exact echoes_drop (perform_drop (.interner name)) (fun _ => Place.noConfusion) alone
  | createDictionary name source capacity rule node =>
      cases subject
      obtain rfl := of_decide_eq_true on
      exact echoes_createDictionary here bySize manager capacity rule node alone
  | setKey dictionary key value =>
      cases subject
      exact echoes_setKey here bySize alone key value
  | getKey dictionary key =>
      cases subject
      exact echoes_getKey here alone key
  | modifyKey dictionary key f =>
      cases subject
      exact echoes_modifyKey here alone key f
  | hasKey dictionary key =>
      cases subject
      exact echoes_hasKey here alone key
  | removeKey dictionary key =>
      cases subject
      exact echoes_removeKey here alone key
  | deleteKey dictionary key =>
      cases subject
      exact echoes_deleteKey here alone key
  | listDictionary dictionary =>
      cases subject
      exact echoes_listDictionary here alone
  | clearDictionary dictionary =>
      cases subject
      exact echoes_clearDictionary here alone
  | dropDictionary name =>
      cases subject
      exact echoes_drop (perform_drop (.dictionary name)) (fun _ => Place.noConfusion) alone

end Session

end SymbolStore
