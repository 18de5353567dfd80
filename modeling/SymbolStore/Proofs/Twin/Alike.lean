import SymbolStore.Proofs.Twin.Framed

/-!
Processes with the same blocks and the same books, each kept in a tree of whatever shape. If the system
goes by the blocks and not by the trees, the calls of managers go alike in both.
-/

namespace SymbolStore

open SymbolStore.Action (Lockstep Respects)

/-- The same blocks, byte for byte. -/
structure Heap.Same (here there : Heap) : Prop where
  frontier : there.frontier = here.frontier
  granted : there.granted = here.granted
  blocks : ∀ address, there.find? address = here.find? address

/-- The system decides by the blocks that there are. -/
structure Allocator.Extensional (allocator : Allocator) : Prop where
  place : ∀ {here there : Heap} (layout : Layout), here.Same there →
    allocator.place there layout = allocator.place here layout
  move : ∀ {here there : Heap} (base : Nat) (layout : Layout) (size : Nat), here.Same there →
    allocator.move there base layout size = allocator.move here base layout size

def Ledger.Alike (here there : Ledger) : Prop :=
  ∃ live : Std.TreeMap Nat Nat, (∀ address : Nat, live[address]? = here.live[address]?) ∧
    there = { here with live }

def Process.Alike (p q : Process) : Prop :=
  ∃ heap ledgers, p.heap.Same heap ∧
    (∀ id : Nat, Option.Rel Ledger.Alike p.ledgers[id]? ledgers[id]?) ∧
    q = { p with heap, ledgers }

/-- The relation of such processes under a system that goes by the blocks. It does not wear off. -/
def Process.Likeness (_room : Nat) (p q : Process) : Prop := p.allocator.Extensional ∧ p.Alike q

namespace Heap.Same

variable {here there last : Heap}

theorem refl (heap : Heap) : heap.Same heap := ⟨rfl, rfl, fun _ => rfl⟩

theorem trans (first : here.Same there) (second : there.Same last) : here.Same last where
  frontier := second.frontier.trans first.frontier
  granted := second.granted.trans first.granted
  blocks a := (second.blocks a).trans (first.blocks a)

theorem framed (same : here.Same there) : here.Framed there where
  frontier := same.frontier
  granted := same.granted
  frames a := congrArg (Option.map Block.frame) (same.blocks a)

theorem insert (same : here.Same there) (address : Nat) (block : Block) :
    (here.insert address block).Same (there.insert address block) where
  frontier := (same.framed.insert address block).frontier
  granted := (same.framed.insert address block).granted
  blocks a := by rw [find?_insert, find?_insert, same.blocks]

theorem erase (same : here.Same there) (address : Nat) :
    (here.erase address).Same (there.erase address) where
  frontier := same.frontier
  granted := same.granted
  blocks a := by rw [find?_erase, find?_erase, same.blocks]

theorem write (same : here.Same there) (place : Pointer) (values : List UInt8) :
    (here.write place values).Same (there.write place values) where
  frontier := same.frontier
  granted := same.granted
  blocks a := by rw [find?_write, find?_write, same.blocks]

theorem writeHeader (same : here.Same there) (address : Nat) (payload : Layout) :
    (here.writeHeader address payload).Same (there.writeHeader address payload) where
  frontier := same.frontier
  granted := same.granted
  blocks a := by rw [find?_writeHeader, find?_writeHeader, same.blocks]

theorem give (same : here.Same there) (address owner : Nat) :
    (here.give address owner).Same (there.give address owner) where
  frontier := same.frontier
  granted := same.granted
  blocks a := by rw [find?_give, find?_give, same.blocks]

end Heap.Same

/-- A system that does not even look at the bytes. -/
theorem Allocator.Blind.extensional {allocator : Allocator} (blind : allocator.Blind) :
    allocator.Extensional :=
  ⟨fun layout same => blind.place layout same.framed,
    fun base layout size same => blind.move base layout size same.framed⟩

namespace Ledger.Alike

variable {here there last : Ledger}

theorem refl (ledger : Ledger) : ledger.Alike ledger := ⟨ledger.live, fun _ => rfl, rfl⟩

theorem trans (first : here.Alike there) (second : there.Alike last) : here.Alike last := by
  rcases first with ⟨live, same, rfl⟩
  rcases second with ⟨live', same', rfl⟩
  exact ⟨live', fun address => (same' address).trans (same address), rfl⟩

theorem counters (alike : here.Alike there) : there.counters = here.counters := by
  rcases alike with ⟨live, -, rfl⟩
  rfl

end Ledger.Alike

namespace Ledger

variable {here there last : Option Ledger}

theorem rel_refl (here : Option Ledger) : Option.Rel Alike here here := by
  cases here with
  | none => exact .none
  | some ledger => exact .some (.refl ledger)

theorem rel_trans (first : Option.Rel Alike here there) (second : Option.Rel Alike there last) :
    Option.Rel Alike here last := by
  cases first with
  | none => exact second
  | some alike =>
      cases second with
      | some alike' => exact .some (alike.trans alike')

theorem alike_getD (same : Option.Rel Alike here there) (ledger : Ledger) :
    (here.getD ledger).Alike (there.getD ledger) := by
  cases same with
  | none => exact .refl ledger
  | some alike => exact alike

theorem rel_map {f g : Ledger → Ledger} (same : Option.Rel Alike here there)
    (keeps : ∀ ledger ledger', ledger.Alike ledger' → (f ledger).Alike (g ledger')) :
    Option.Rel Alike (here.map f) (there.map g) := by
  cases same with
  | none => exact .none
  | some alike => exact .some (keeps _ _ alike)

end Ledger

namespace Process.Alike

variable {p q r : Process}

theorem refl (p : Process) : p.Alike p :=
  ⟨p.heap, p.ledgers, .refl _, fun _ => Ledger.rel_refl _, rfl⟩

theorem trans (first : p.Alike q) (second : q.Alike r) : p.Alike r := by
  rcases first with ⟨heap, ledgers, equal, same, rfl⟩
  rcases second with ⟨heap', ledgers', equal', same', rfl⟩
  exact ⟨heap', ledgers', equal.trans equal', fun id => Ledger.rel_trans (same id) (same' id), rfl⟩

theorem ledgerIn (alike : p.Alike q) (manager : Manager) :
    (manager.ledgerIn p).Alike (manager.ledgerIn q) := by
  rcases alike with ⟨heap, ledgers, equal, same, rfl⟩
  rw [Manager.ledgerIn, Manager.ledgerIn, Std.TreeMap.getD_eq_getD_getElem?,
    Std.TreeMap.getD_eq_getD_getElem?]
  exact Ledger.alike_getD (same manager.id) .closed

end Process.Alike

def Process.Likewise {α : Type} (x y : Action Process α) : Prop :=
  ∀ p q, Likeness 0 p q → Lockstep (fun _ _ => False) (fun _ _ => False) x y p q
    (fun a b p q => b = a ∧ Likeness 0 p q) fun _ => Likeness 0

namespace Process.Likewise

variable {α β : Type} {manager : Manager} {x y : Action Process α}

theorem respects (likewise : Likewise x x) (excused : Failure → Prop) (cost : Nat) :
    Respects excused Likeness cost x := by
  intro room p q related
  have plain : Respects (fun _ => False) Likeness cost x := by
    intro room p q related
    refine (likewise p q related).mono ?_ ?_
    · exact fun _ _ _ _ ends => ⟨ends.1, room, Nat.le_refl _, ends.2⟩
    · exact fun _ _ _ related => ⟨room, Nat.le_refl _, related⟩
  exact plain.excusing excused room p q related

theorem bind {f g : α → Action Process β} (first : Likewise x y)
    (next : ∀ a, Likewise (f a) (g a)) : Likewise (x >>= f) (y >>= g) := by
  intro p q related
  apply (first p q related).bind
  · exact fun _ _ _ related => related
  · rintro a _ p q ⟨rfl, related⟩
    exact next _ p q related

theorem pure (a : α) : Likewise (Pure.pure a) (Pure.pure a) :=
  fun _ _ related => ⟨rfl, related⟩

theorem throw (failure : Failure) : Likewise (throw failure : Action Process α) (throw failure) :=
  fun _ _ related => Action.lockstep_throw related

theorem ofFault {x : Except Fault α} {f g : α → Action Process β}
    (next : ∀ a, Likewise (f a) (g a)) : Likewise (liftM x >>= f) (liftM x >>= g) :=
  fun p q related => .ofFault (fun _ => related) fun a _ => next a p q related

theorem ofError {x : Except MemoryError α} {f g : α → Action Process β}
    (next : ∀ a, Likewise (f a) (g a)) : Likewise (liftM x >>= f) (liftM x >>= g) :=
  fun p q related => .ofError (fun _ => related) fun a _ => next a p q related

theorem log (level : Level) (origin : Origin) (text : Unit → String) :
    Likewise (Process.log level origin text) (Process.log level origin text) := by
  rintro p _ ⟨fit, heap, ledgers, equal, same, rfl⟩
  refine .last (by rfl) (by rfl) ?_
  exact ⟨rfl, fit, heap, ledgers, equal, same, rfl⟩

theorem updateHeap {f : Heap → Heap}
    (keeps : ∀ here there, here.Same there → (f here).Same (f there)) :
    Likewise (Process.updateHeap f) (Process.updateHeap f) := by
  rintro p _ ⟨fit, heap, ledgers, equal, same, rfl⟩
  refine .last (by rfl) (by rfl) ?_
  exact ⟨rfl, fit, _, ledgers, keeps _ _ equal, same, rfl⟩

theorem get {f : Process → Action Process α} (same : ∀ p q, Likeness 0 p q → f q = f p)
    (next : ∀ p, Likewise (f p) (f p)) : Likewise (get >>= f) (get >>= f) := by
  intro p q related
  refine .step (by rfl) (by rfl) ?_
  rw [same p q related]
  exact next p p q related

theorem store (place : Pointer) (values : List UInt8) :
    Likewise (Process.store place values) (Process.store place values) := by
  rw [Process.store]
  apply get
  · rintro p _ ⟨-, heap, ledgers, equal, -, rfl⟩
    dsimp only
    rw [equal.framed.covers]
  · intro p
    split
    · exact updateHeap fun _ _ equal => equal.write place values
    · exact throw _

theorem ledger {f g : Ledger → Action Process α}
    (next : ∀ here there, here.Alike there → Likewise (f here) (g there)) :
    Likewise (manager.ledger >>= f) (manager.ledger >>= g) := by
  intro p q related
  refine .step (by rfl) (by rfl) ?_
  exact next _ _ (related.2.ledgerIn manager) p q related

theorem setLedger {here there : Ledger} (alike : here.Alike there) :
    Likewise (manager.setLedger here) (manager.setLedger there) := by
  rintro p _ ⟨fit, heap, ledgers, equal, same, rfl⟩
  refine .last (by rfl) (by rfl) ?_
  refine ⟨rfl, fit, heap, _, equal, fun id => ?_, rfl⟩
  have same := same id
  by_cases own : id = manager.id
  · rw [own, Process.modify_here, Process.modify_here]
    exact Ledger.rel_map (own ▸ same) fun _ _ _ => alike
  · rw [Process.modify_elsewhere _ _ own, Process.modify_elsewhere _ _ own]
    exact same

theorem ends (manager : Manager) :
    Likewise (modify fun process => { process with ledgers := process.ledgers.erase manager.id })
      (modify fun process => { process with ledgers := process.ledgers.erase manager.id }) := by
  rintro p _ ⟨fit, heap, ledgers, equal, same, rfl⟩
  refine .last (by rfl) (by rfl) ?_
  refine ⟨rfl, fit, heap, _, equal, fun id => ?_, rfl⟩
  rw [Std.TreeMap.getElem?_erase, Std.TreeMap.getElem?_erase]
  split
  · exact .none
  · exact same id

end Process.Likewise

namespace Manager

open Process (Likewise Likeness)

variable {manager : Manager}

def EntersAlike (entry : Ledger → Ledger × Option Fault) : Prop :=
  ∀ {here there : Ledger}, here.Alike there →
    (entry here).1.Alike (entry there).1 ∧ (entry there).2 = (entry here).2

theorem enter_likewise {entry : Ledger → Ledger × Option Fault} (enters : EntersAlike entry) :
    Likewise (manager.enter entry) (manager.enter entry) := by
  rw [enter]
  apply Likewise.ledger
  intro here there alike
  obtain ⟨entered, same⟩ := enters alike
  rcases first : entry here with ⟨ledger, fault?⟩
  rcases second : entry there with ⟨other, fault'?⟩
  rw [first, second] at entered same
  cases same
  apply (Likewise.setLedger entered).bind
  intro _
  cases fault? with
  | none => exact .pure _
  | some fault => exact .throw _

theorem entersAlike_recorded (released acquired : Nat) (blocks : Int)
    (change : Std.TreeMap Nat Nat → Std.TreeMap Nat Nat)
    (keeps : ∀ live live' : Std.TreeMap Nat Nat, (∀ a : Nat, live'[a]? = live[a]?) →
      ∀ a : Nat, (change live')[a]? = (change live)[a]?) :
    EntersAlike fun ledger =>
      Ledger.recorded { ledger with live := change ledger.live } released acquired blocks := by
  rintro here _ ⟨live, same, rfl⟩
  have books := keeps here.live live same
  unfold Ledger.recorded
  dsimp only
  cases here.counters.record released acquired blocks with
  | error fault => exact ⟨⟨change live, books, rfl⟩, rfl⟩
  | ok counters => exact ⟨⟨change live, books, rfl⟩, rfl⟩

theorem entersAlike_acquire (address size : Nat) :
    EntersAlike fun ledger => ledger.acquire address size := by
  refine entersAlike_recorded 0 size 1 (fun live => live.insert address size) ?_
  intro live live' same a
  rw [Std.TreeMap.getElem?_insert, Std.TreeMap.getElem?_insert, same]

theorem entersAlike_release (address size : Nat) :
    EntersAlike fun ledger => ledger.release address size := by
  refine entersAlike_recorded size 0 (-1) (fun live => live.erase address) ?_
  intro live live' same a
  rw [Std.TreeMap.getElem?_erase, Std.TreeMap.getElem?_erase, same]

theorem whenTracked_likewise {x : Action Process Unit} (likewise : Likewise x x) :
    Likewise (manager.whenTracked x) (manager.whenTracked x) := by
  rw [whenTracked]
  apply Likewise.ledger
  rintro here _ ⟨live, same, rfl⟩
  show Likewise (if here.isTracked then x else _) (if here.isTracked then x else _)
  split
  · exact likewise
  · exact .pure _

theorem checkBudget_likewise (releasing requested : Nat) :
    Likewise (manager.checkBudget releasing requested)
      (manager.checkBudget releasing requested) := by
  rw [checkBudget]
  apply Likewise.ledger
  rintro here _ ⟨live, same, rfl⟩
  show Likewise (liftM (here.excess? releasing requested) >>= _)
    (liftM (here.excess? releasing requested) >>= _)
  apply Likewise.ofFault
  intro excess
  cases excess with
  | none => exact .pure _
  | some pair => exact (Likewise.log _ _ _).bind fun _ => .throw _

theorem recordedSize_likewise (call : BlockCall) (address : Nat) :
    Likewise (manager.recordedSize call address) (manager.recordedSize call address) := by
  rw [recordedSize]
  apply Likewise.ledger
  rintro here _ ⟨live, same, rfl⟩
  dsimp only
  rw [same]
  split
  · exact .pure _
  · exact .throw _

theorem checkPromise_likewise (address : Nat) (size : Option Nat) :
    Likewise (manager.checkPromise address size) (manager.checkPromise address size) := by
  rw [checkPromise]
  apply Likewise.ledger
  rintro here _ ⟨live, same, rfl⟩
  show Likewise (if here.isTracked then _ else _) (if here.isTracked then _ else _)
  split
  · exact .pure _
  apply Likewise.get
  · rintro p _ ⟨-, heap, ledgers, equal, -, rfl⟩
    dsimp only
    rw [equal.blocks]
  intro p
  split
  · split
    · exact .pure _
    · exact .throw _
  · exact .throw _

theorem retain_likewise : Likewise manager.retain manager.retain := by
  rw [retain]
  apply Likewise.ledger
  rintro here _ ⟨live, same, rfl⟩
  exact .setLedger ⟨live, same, rfl⟩

theorem release_likewise : Likewise manager.release manager.release := by
  rw [release]
  apply Likewise.ledger
  rintro here _ ⟨live, same, rfl⟩
  show Likewise (if 1 < here.holders then _ else _) (if 1 < here.holders then _ else _)
  split
  · exact .setLedger ⟨live, same, rfl⟩
  · show Likewise (if 0 < here.counters.liveBlocks then _ else _)
      (if 0 < here.counters.liveBlocks then _ else _)
    split
    · exact (Likewise.log _ _ _).bind fun _ => .ends manager
    · exact .ends manager

theorem giveBack_likewise (address : Nat) : Likewise (giveBack address) (giveBack address) := by
  rw [giveBack, readHeader]
  apply Likewise.bind
  · apply Likewise.get
    · rintro p _ ⟨-, heap, ledgers, equal, -, rfl⟩
      dsimp only
      rw [equal.blocks]
    · intro p
      split
      · exact .pure _
      · exact .throw _
  intro payload
  rw [System.deallocate, System.blockAt]
  apply Likewise.bind
  · apply Likewise.get
    · rintro p _ ⟨-, heap, ledgers, equal, -, rfl⟩
      dsimp only
      rw [equal.blocks]
    · intro p
      split
      · split
        · exact .pure _
        · exact .throw _
      · exact .throw _
  · exact fun _ => .updateHeap fun _ _ equal => equal.erase _

theorem free_likewise (address : Nat) : Likewise (manager.free address) (manager.free address) := by
  rw [free, strikeOut]
  refine Likewise.bind ?_ fun _ => giveBack_likewise address
  apply Likewise.ledger
  rintro here _ ⟨live, same, rfl⟩
  show Likewise (if here.isTracked then _ else _) (if here.isTracked then _ else _)
  split
  · exact (recordedSize_likewise _ _).bind fun size => enter_likewise (entersAlike_release address size)
  · exact checkPromise_likewise _ _

/-- A block goes to the same place, if the system goes by the blocks. -/
theorem place_likewise (payload whole : Layout) :
    Likewise (place payload whole) (place payload whole) := by
  rw [place, System.allocate]
  apply Likewise.bind
  · apply Likewise.get
    · rintro p _ ⟨extensional, heap, ledgers, equal, -, rfl⟩
      dsimp only
      rw [extensional.place whole equal]
    · intro p
      split
      · exact .pure _
      · exact (Likewise.updateHeap fun _ _ equal => equal.insert _ _).bind fun _ => .pure _
  intro found
  cases found with
  | none => exact (Likewise.log _ _ _).bind fun _ => .throw _
  | some base =>
      dsimp only
      rw [finishBlock]
      apply Likewise.get
      · rintro p _ ⟨-, heap, ledgers, equal, -, rfl⟩
        dsimp only
        rw [equal.blocks]
      · intro p
        split
        · exact (Likewise.updateHeap fun _ _ equal => equal.writeHeader _ _).bind fun _ => .pure _
        · exact .throw _

theorem allocate_likewise (payload : Layout) :
    Likewise (manager.allocate payload) (manager.allocate payload) := by
  rw [allocate]
  apply Likewise.bind
  · cases isPowerOfTwo payload.align with
    | true => exact .pure _
    | false => exact .throw _
  intro _
  apply (whenTracked_likewise (checkBudget_likewise 0 _)).bind
  intro _
  apply Likewise.ofError
  intro whole
  apply (place_likewise payload whole).bind
  intro address
  apply (whenTracked_likewise (enter_likewise (entersAlike_acquire address _))).bind
  intro _
  exact (Likewise.updateHeap fun _ _ equal => equal.give address manager.id).bind fun _ => .pure _

end Manager

/-- Managers do the same in processes with the same blocks and the same books. -/
theorem Process.likeness_parallel :
    Parallel (fun _ => True) (fun _ => False) Process.Likeness where
  number := by
    rintro _ p _ ⟨-, heap, ledgers, -, -, rfl⟩
    rfl
  counted := by
    rintro _ p _ ⟨extensional, heap, ledgers, equal, same, rfl⟩
    exact ⟨extensional, heap, ledgers, equal, same, rfl⟩
  logged origin text _ := (Likewise.log _ origin text).respects _ _
  stored place values := (Likewise.store place values).respects _ _
  retain _ := Manager.retain_likewise.respects _ _
  release _ := Manager.release_likewise.respects _ _
  allocate payload _ := (Manager.allocate_likewise payload).respects _ _
  free address _ := (Manager.free_likewise address).respects _ _

section Freed

variable {manager : Manager} {size address : Nat} {p q process : Process}

def Process.without (manager : Manager) (size : Nat) (process : Process) (address : Nat) : Process :=
  { process with
    heap := process.heap.erase address
    ledgers :=
      if (manager.ledgerIn process).isTracked then
        process.ledgers.modify manager.id fun _ =>
          (manager.ledgerIn process).withoutBlock address size
      else process.ledgers }

def Process.withoutAll (manager : Manager) (size : Nat) (process : Process) (blocks : List Nat) :
    Process :=
  blocks.foldl (without manager size) process

theorem Process.allocator_withoutAll (manager : Manager) (size : Nat) (process : Process)
    (blocks : List Nat) :
    (process.withoutAll manager size blocks).allocator = process.allocator := by
  induction blocks generalizing process with
  | nil => rfl
  | cons block rest ih => exact ih (process.without manager size block)

theorem Manager.free_leaves (sound : process.Sound) (holds : manager.Holds process address size) :
    Action.Ends (manager.free address) process
      (fun _ after => after = process.without manager size address) fun _ _ => False := by
  obtain ⟨block, found, -⟩ := holds.present
  rw [free, strikeOut]
  simp only [Action.ends_bind, ends_ledger, Process.without]
  cases tracked : (manager.ledgerIn process).isTracked with
  | true =>
      have released := (Ledger.release_agrees (sound.ledgers manager tracked) (holds.lists tracked)
        sound.heap fun _ _ _ found => found).1
      simp only [if_true, recordedSize, Action.ends_bind, ends_ledger, holds.recorded tracked,
        Action.ends_pure, ends_enter, released]
      have struck : { process with ledgers := process.ledgers.modify manager.id fun _ =>
          (manager.ledgerIn process).withoutBlock address size }.heap.Sound := sound.heap
      rw [ends_giveBack _ struck found]
  | false =>
      simp only [Bool.false_eq_true, if_false]
      apply (checkPromise_effect .free address none tracked).mono
      · rintro _ _ ⟨rfl, -⟩
        rw [ends_giveBack _ sound.heap found]
      · rintro _ _ ⟨-, rejects⟩
        exact rejects.unheld size (fun s none => absurd none (Option.not_mem_none s)) holds

theorem Manager.freeAll_leaves (blocks : List Nat) (sound : process.Sound) (distinct : blocks.Nodup)
    (holds : ∀ block ∈ blocks, manager.Holds process block size) :
    Action.Ends (blocks.forM manager.free) process
      (fun _ after => after = process.withoutAll manager size blocks) fun _ _ => False := by
  induction blocks generalizing process with
  | nil => rfl
  | cons block rest ih =>
      obtain ⟨unlike, distinct⟩ := List.nodup_cons.mp distinct
      have held := holds block List.mem_cons_self
      rw [List.forM]
      apply ((free_leaves sound held).and (free_ends sound held)).bind (fun _ _ none => none.1)
      rintro _ _ ⟨rfl, evolves⟩
      apply ih evolves.sound distinct
      intro other member
      apply evolves.held _ _ _ ?_ (holds other (List.mem_cons_of_mem _ member))
      intro same
      exact unlike (List.mem_singleton.mp same ▸ member)

theorem Process.ledgers_without (manager : Manager) (size : Nat) (process : Process)
    (address id : Nat) : (process.without manager size address).ledgers[id]? =
      if id = manager.id then (process.ledgers[id]?).map (·.released address size)
      else process.ledgers[id]? := by
  unfold without
  dsimp only
  by_cases own : id = manager.id
  · rw [if_pos own, own]
    cases found : process.ledgers[manager.id]? with
    | none =>
        split
        · rw [modify_here, found]
          rfl
        · exact found
    | some ledger =>
        have is : manager.ledgerIn process = ledger := by
          rw [Manager.ledgerIn, Std.TreeMap.getD_eq_getD_getElem?, found, Option.getD_some]
        rw [is, Option.map_some, Ledger.released]
        split
        · rw [modify_here, found, Option.map_some]
        · exact found
  · rw [if_neg own]
    split
    · exact modify_elsewhere _ _ own
    · rfl

/-- Blocks of one size come out of the books in any order. -/
theorem Ledger.released_swap (ledger : Ledger) (address other size : Nat) :
    ((ledger.released address size).released other size).Alike
      ((ledger.released other size).released address size) := by
  have same (a b : Nat) : ((ledger.released a size).released b size) =
      if ledger.isTracked then (ledger.withoutBlock a size).withoutBlock b size else ledger := by
    rw [released, isTracked_released, released]
    split <;> rfl
  rw [same, same]
  split
  · refine ⟨(ledger.live.erase other).erase address, fun a => ?_, rfl⟩
    show _ = ((ledger.live.erase address).erase other)[a]?
    simp only [Std.TreeMap.getElem?_erase]
    split <;> split <;> rfl
  · exact .refl ledger

theorem Ledger.Alike.released {here there : Ledger} (alike : here.Alike there) (address size : Nat) :
    (here.released address size).Alike (there.released address size) := by
  rcases alike with ⟨live, same, rfl⟩
  unfold Ledger.released
  show Ledger.Alike _ (if here.isTracked then _ else _)
  split
  · refine ⟨live.erase address, fun a => ?_, rfl⟩
    show (live.erase address)[a]? = (here.live.erase address)[a]?
    rw [Std.TreeMap.getElem?_erase, Std.TreeMap.getElem?_erase, same]
  · exact ⟨live, same, rfl⟩

theorem Process.Alike.without (alike : p.Alike q) (manager : Manager) (size address : Nat) :
    (p.without manager size address).Alike (q.without manager size address) := by
  rcases alike with ⟨heap, ledgers, equal, same, rfl⟩
  refine ⟨_, _, equal.erase address, fun id => ?_, rfl⟩
  have books := ledgers_without manager size { p with heap, ledgers } address id
  refine books ▸ ?_
  rw [ledgers_without]
  split
  · exact Ledger.rel_map (same id) fun _ _ alike => alike.released address size
  · exact same id

theorem Process.Alike.withoutAll (alike : p.Alike q) (blocks : List Nat) :
    (p.withoutAll manager size blocks).Alike (q.withoutAll manager size blocks) := by
  induction blocks generalizing p q with
  | nil => exact alike
  | cons block rest ih => exact ih (alike.without manager size block)

/-- It does not matter which of two blocks is given back first. -/
theorem Process.without_swap (manager : Manager) (size : Nat) (process : Process)
    (address other : Nat) :
    ((process.without manager size address).without manager size other).Alike
      ((process.without manager size other).without manager size address) := by
  let last := (process.without manager size other).without manager size address
  refine ⟨last.heap, last.ledgers, ⟨rfl, rfl, fun a => ?_⟩, fun id => ?_, rfl⟩
  · show ((process.heap.erase other).erase address).find? a =
      ((process.heap.erase address).erase other).find? a
    simp only [Heap.find?_erase]
    split <;> split <;> rfl
  · simp only [last, ledgers_without]
    split
    · rw [Option.map_map, Option.map_map]
      cases process.ledgers[id]? with
      | none => exact .none
      | some ledger => exact .some (ledger.released_swap address other size)
    · exact Ledger.rel_refl _

theorem Process.withoutAll_perm {blocks others : List Nat} (perm : blocks.Perm others) :
    (process.withoutAll manager size blocks).Alike (process.withoutAll manager size others) := by
  induction perm generalizing process with
  | nil => exact .refl process
  | cons block _ ih => exact ih
  | swap block block' rest => exact (process.without_swap manager size block' block).withoutAll rest
  | trans _ _ first second => exact first.trans second

end Freed

end SymbolStore
