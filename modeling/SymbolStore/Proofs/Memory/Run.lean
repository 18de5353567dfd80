import SymbolStore.Proofs.Memory.Books

/-!
Runs of calls to one tracked manager, in accordance with its books: how a request ends, then a whole
run, and what comes of it where no further allocation can be counted.
-/

namespace SymbolStore

open SymbolStore.Action (Ends)

namespace Manager

/-- One request with the manager in accordance with its books. -/
structure Accords (manager : Manager) (limit : Option Nat) (books : Books) (before : Process)
    (request : Request) (outcome : Except Failure (Option Nat)) (after : Process) : Prop where
  describes : manager.Describes (books.after request outcome) after
  within : ∀ bytes ∈ limit, (manager.ledgerIn after).counters.liveBytes ≤ bytes
  /-- A misuse is always noticed, and nothing else stops the manager. -/
  stopped : ∀ fault, outcome = .error (.fault fault) ↔ books.misuse? request = some fault
  /-- A failure changes nothing. -/
  spared : ∀ failure, outcome = .error failure →
    manager.ledgerIn after = manager.ledgerIn before ∧
      ∀ entry ∈ books.live, after.heap.find? entry.1 = before.heap.find? entry.1

/-- Every step is in accordance with the books. -/
def Follows (manager : Manager) (limit : Option Nat) :
    Books → Process → List (Step Request (Option Nat) Manager) → Prop
  | _, _, [] => True
  | books, before, step :: rest =>
    manager.Accords limit books before step.request step.outcome step.after.2 ∧
      Follows manager limit (books.after step.request step.outcome) step.after.2 rest

/-- Blocks are asked for, and resized to more than nothing, only while a further allocation can be
counted. -/
def Countably : Books → List (Step Request (Option Nat) Manager) → Prop
  | _, [] => True
  | books, step :: rest =>
    (0 < step.request.weight → ¬ books.Full) ∧
      Countably (books.after step.request step.outcome) rest

variable {manager : Manager} {limit : Option Nat} {books : Books} {process after : Process}

theorem after_error (books : Books) (request : Request) (failure : Failure) :
    books.after request (.error failure) = books := by
  cases request <;> rfl

def Lands (manager : Manager) (limit : Option Nat) (books : Books) (before : Process)
    (request : Request) (outcome : Except Failure (Option Nat)) (after : Manager × Process) :
    Prop :=
  after.1 = manager ∧ manager.Accords limit books before request outcome after.2 ∧
    manager.Orderly limit (books.after request outcome) after.2

namespace Orderly

variable (orderly : manager.Orderly limit books process) {request : Request}
include orderly

theorem freeFault_none {address size : Nat} (holds : manager.Holds process address size) :
    books.freeFault? address = none := by
  rw [Books.freeFault?, orderly.describes.size?_eq, holds.recorded orderly.tracked]

theorem resizeFault_none {address size : Nat} (holds : manager.Holds process address size) :
    books.resizeFault? address size = none := by
  rw [Books.resizeFault?, orderly.describes.size?_eq, holds.recorded orderly.tracked]
  exact if_pos rfl

theorem freeFault_of_rejects {address : Nat} {failure : Failure}
    (rejects : manager.Rejects process .free address none failure) :
    ∃ fault, failure = .fault fault ∧ books.freeFault? address = some fault := by
  have told := rejects.told
  rw [complaint, if_pos orderly.tracked] at told
  rw [Books.freeFault?, orderly.describes.size?_eq]
  cases recorded : (manager.ledgerIn process).live[address]? with
  | none =>
      rw [recorded] at told
      exact ⟨_, told, rfl⟩
  | some size =>
      have holds := orderly.given address orderly.tracked size recorded
      exact absurd holds (rejects.unheld size (by simp))

theorem resizeFault_of_rejects {address oldSize : Nat} {failure : Failure}
    (rejects : manager.Rejects process .reallocate address (some oldSize) failure) :
    ∃ fault, failure = .fault fault ∧ books.resizeFault? address oldSize = some fault := by
  have told := rejects.told
  rw [complaint, if_pos orderly.tracked] at told
  rw [Books.resizeFault?, orderly.describes.size?_eq]
  cases recorded : (manager.ledgerIn process).live[address]? with
  | none =>
      rw [recorded] at told
      exact ⟨_, told, rfl⟩
  | some size =>
      rw [recorded] at told
      refine ⟨_, told, if_neg ?_⟩
      intro same
      have holds := orderly.given address orderly.tracked size recorded
      refine rejects.unheld size ?_ holds
      intro s claimed
      rw [Option.mem_some_iff] at claimed
      exact claimed.symm.trans same.symm

omit orderly in
theorem lands_ok {answer : Option Nat} (proper : books.misuse? request = none)
    (there : manager.Orderly limit (books.after request (.ok answer)) after) :
    manager.Lands limit books process request (.ok answer) (manager, after) := by
  refine ⟨rfl, ?_, there⟩
  exact
    { describes := there.describes
      within := by
        rw [there.describes.liveBytes]
        exact there.within
      stopped := by
        intro fault
        rw [proper]
        exact ⟨fun failed => (nomatch failed), fun misused => (nomatch misused)⟩
      spared := fun _ failed => nomatch failed }

theorem lands_error {failure : Failure} (sound : after.Sound)
    (ledger : manager.ledgerIn after = manager.ledgerIn process)
    (blocks : ∀ entry ∈ books.live, after.heap.find? entry.1 = process.heap.find? entry.1)
    (stopped : ∀ fault, failure = .fault fault ↔ books.misuse? request = some fault) :
    manager.Lands limit books process request (.error failure) (manager, after) := by
  have there := orderly.spared sound ⟨_, ledger⟩ blocks
  have same := after_error books request failure
  refine ⟨rfl, ?_, by rw [same]; exact there⟩
  exact
    { describes := by
        rw [same]
        exact there.describes
      within := by
        rw [there.describes.liveBytes]
        exact there.within
      stopped := by
        intro fault
        rw [← stopped, Except.error.injEq]
      spared := fun _ _ => ⟨ledger, blocks⟩ }

theorem lands_remarks {cause : MemoryError} (remarks : process.Remarks after)
    (proper : books.misuse? request = none) :
    manager.Lands limit books process request (.error (.error cause)) (manager, after) := by
  apply orderly.lands_error (remarks.evolves orderly.sound).sound (remarks.ledgerIn_eq manager)
  · intro entry _
    rw [remarks.heap_eq]
  · intro fault
    rw [proper]
    exact ⟨fun failed => (nomatch failed), fun misused => (nomatch misused)⟩

/-- A request that the manager never sees. -/
theorem lands_refused {refusal : Refusal} (proper : books.misuse? request = none) :
    manager.Lands limit books process request (.error (.refused refusal)) (manager, process) := by
  apply orderly.lands_error orderly.sound rfl (fun _ _ => rfl)
  intro fault
  rw [proper]
  exact ⟨fun failed => (nomatch failed), fun misused => (nomatch misused)⟩

theorem lands_misuse {fault : Fault} (misused : books.misuse? request = some fault) :
    manager.Lands limit books process request (.error (.fault fault)) (manager, process) := by
  apply orderly.lands_error orderly.sound rfl (fun _ _ => rfl)
  intro other
  rw [misused, Failure.fault.injEq, Option.some.injEq]

/-- While allocations can be counted, a request for a block fails for want of memory or for its
alignment. -/
theorem lands_refuses {align : Nat} {failure : Failure} (room : ¬ books.Full)
    (refuses : manager.Refuses process align failure after)
    (proper : books.misuse? request = none) :
    manager.Lands limit books process request (.error failure) (manager, after) := by
  rcases refuses with ⟨⟨-, rfl⟩ | ⟨requested, rfl⟩, remarks⟩ | ⟨-, exhausted, -⟩
  · exact orderly.lands_remarks remarks proper
  · exact orderly.lands_remarks remarks proper
  · exact absurd (orderly.exhausted_iff.mp exhausted) room

theorem lands_leaves {address newSize : Nat} {failure : Failure}
    (room : 0 < newSize → ¬ books.Full)
    (leaves : manager.Leaves process address newSize failure after)
    (proper : books.misuse? request = none) :
    manager.Lands limit books process request (.error failure) (manager, after) := by
  rcases leaves with ⟨⟨requested, rfl⟩, remarks⟩ | ⟨-, positive, exhausted, -⟩
  · exact orderly.lands_remarks remarks proper
  · exact absurd (orderly.exhausted_iff.mp exhausted) (room positive)

theorem lands_holders (proper : books.misuse? request = none)
    (same : books.after request (.ok none) = books) (count : Nat) :
    manager.Lands limit books process request (.ok none) (manager, { process with
      ledgers := process.ledgers.modify manager.id fun _ =>
        { manager.ledgerIn process with holders := count } }) := by
  apply lands_ok proper
  rw [same]
  exact orderly.spared (evolves_holders orderly.sound count).sound
    (manager.ledgerIn_holders process count manager) fun _ _ => rfl

theorem lands_write (pointer : Pointer) (values : List UInt8) (address offset : Nat) :
    manager.Lands limit books process (.write address offset values) (.ok none)
      (manager, { process with heap := process.heap.write pointer values }) := by
  have described := orderly.describes
  refine lands_ok rfl ⟨orderly.sound.write pointer values, orderly.tracked, orderly.config, ?_, ?_,
    orderly.within⟩
  · refine ⟨described.live, described.distinct, ?_, described.liveBlocks, described.liveBytes,
      described.peakBytes, described.totalAllocations⟩
    intro a size live
    obtain ⟨block, found, sized, owner⟩ := described.present a size live
    obtain ⟨other, there, size, -, ownerThere⟩ := Heap.find?_write_of_some pointer values found
    exact ⟨other, there, size.trans sized, ownerThere.trans owner⟩
  · intro a size live block found
    obtain ⟨other, there, -, align, -⟩ := Heap.find?_write_some found
    rw [align]
    exact orderly.powers a size live other there

theorem performed (request : Request) (room : 0 < request.weight → ¬ books.Full) :
    manager.Lands limit books process request
      ((perform request).runFrom (manager, process)).1
      ((perform request).runFrom (manager, process)).2 := by
  apply Action.ends_outcome.mp
  cases request with
  | allocate payload =>
      rw [ends_perform_allocate]
      apply (allocate_effect payload orderly.sound).mono
      · intro address after handed
        exact lands_ok rfl (orderly.handedOut handed)
      · intro failure after refuses
        exact orderly.lands_refuses (room Nat.one_pos) refuses rfl
  | allocateArray element count =>
      rw [ends_perform_allocateArray]
      apply (allocateArray_effect element count orderly.sound).mono
      · intro address after handed
        exact lands_ok rfl (orderly.handedOut handed)
      · intro failure after refuses
        exact orderly.lands_refuses (room Nat.one_pos) refuses rfl
  | reallocate address oldSize newSize =>
      rw [ends_perform_reallocate]
      apply (reallocate_effect address oldSize newSize orderly.sound (orderly.given address)
        orderly.power).mono
      · intro newAddress after moves
        obtain ⟨block, rfl, moves⟩ := moves
        exact lands_ok (orderly.resizeFault_none moves.holds) (orderly.moved moves)
      · intro failure after failed
        rcases failed with ⟨rfl, rejects⟩ | ⟨holds, leaves⟩
        · obtain ⟨fault, rfl, misused⟩ := orderly.resizeFault_of_rejects rejects
          exact orderly.lands_misuse misused
        · exact orderly.lands_leaves (fun positive => room (Request.weight_reallocate_pos positive))
            leaves (orderly.resizeFault_none holds)
  | reallocateArray address element oldCount newCount =>
      have misuse : books.misuse? (.reallocateArray address element oldCount newCount) =
          if Countable element oldCount newCount then
            books.resizeFault? address (element.size * oldCount)
          else none := rfl
      rw [ends_perform_reallocateArray]
      apply (reallocateArray_effect address element oldCount newCount orderly.sound
        (orderly.given address) orderly.power).mono
      · intro newAddress after moves
        obtain ⟨countable, block, sized, moves⟩ := moves
        refine lands_ok ?_ (orderly.moved moves)
        rw [misuse, if_pos countable, ← sized]
        exact orderly.resizeFault_none moves.holds
      · intro failure after failed
        rcases failed with ⟨rfl, rejects, countable⟩ | ⟨huge, rfl, rfl⟩ | ⟨countable, holds, leaves⟩
        · obtain ⟨fault, rfl, misused⟩ := orderly.resizeFault_of_rejects rejects
          apply orderly.lands_misuse
          rw [misuse, if_pos (countable orderly.tracked), misused]
        · exact orderly.lands_remarks (.refl _) (misuse.trans (if_neg huge))
        · apply orderly.lands_leaves
            (fun positive => room (Request.weight_reallocateArray_pos positive)) leaves
          rw [misuse, if_pos countable]
          exact orderly.resizeFault_none holds
  | free address =>
      rw [ends_perform_free]
      apply (free_effect address orderly.sound (orderly.given address)).mono
      · intro _ after taken
        obtain ⟨size, taken⟩ := taken
        exact lands_ok (orderly.freeFault_none taken.holds) (orderly.takenBack taken)
      · intro failure after rejected
        obtain ⟨rfl, rejects⟩ := rejected
        obtain ⟨fault, rfl, misused⟩ := orderly.freeFault_of_rejects rejects
        exact orderly.lands_misuse misused
  | share =>
      rw [ends_perform_share]
      exact orderly.lands_holders rfl rfl _
  | part =>
      rw [ends_perform_part]
      split
      · exact orderly.lands_holders rfl rfl _
      · exact lands_ok rfl orderly
  | write address offset values =>
      rw [ends_perform_write]
      cases process.heap.find? address with
      | none => exact orderly.lands_refused rfl
      | some block =>
          dsimp only
          split
          · exact orderly.lands_write _ values address offset
          · exact orderly.lands_refused rfl

theorem follows (requests : List Request)
    (countably : Countably books (Method.run perform requests (manager, process))) :
    manager.Follows limit books process (Method.run perform requests (manager, process)) := by
  induction requests generalizing books process with
  | nil => trivial
  | cons request rest ih =>
      rw [Method.run_cons] at countably ⊢
      obtain ⟨room, countably⟩ := countably
      obtain ⟨same, accords, there⟩ := orderly.performed request room
      refine ⟨accords, ?_⟩
      have state : ((perform request).runFrom (manager, process)).2 =
          (manager, ((perform request).runFrom (manager, process)).2.2) := Prod.ext same rfl
      dsimp only at countably ⊢
      rw [state] at countably ⊢
      exact ih there countably

end Orderly

theorem orderly_created {config : Config} (sound : process.Sound)
    (tracked : config.strategy = .tracked)
    (created : (create config).runFrom process = (.ok manager, after)) :
    manager.Orderly config.byteLimit {} after := by
  have ledger := ledgerIn_create config process manager
  have soundThere := sound_created sound config
  rw [created] at ledger soundThere
  have id : process.nextManager = manager.id := by
    cases created
    rfl
  rw [if_pos id] at ledger
  have none (a : Nat) : ({ config } : Ledger).live[a]? = none := Std.TreeMap.getElem?_emptyc
  refine ⟨soundThere, ?_, ?_, ?_, ?_, ?_⟩
  · rw [ledger]
    exact decide_eq_true tracked
  · rw [ledger]
  · constructor
    · intro a size
      rw [ledger, none]
      simp
    · exact List.nodup_nil
    · intro a size live
      cases live
    · exact congrArg (fun ledger => ledger.counters.liveBlocks) ledger
    · exact congrArg (fun ledger => ledger.counters.liveBytes) ledger
    · exact congrArg (fun ledger => ledger.counters.peakBytes) ledger
    · exact congrArg (fun ledger => ledger.counters.totalAllocations) ledger
  · intro a size live
    cases live
  · intro bytes _
    exact Nat.zero_le bytes

theorem counted_after_le (books : Books) (request : Request)
    (outcome : Except Failure (Option Nat)) :
    (books.after request outcome).counted ≤ books.counted + request.weight := by
  cases outcome with
  | error failure =>
      rw [after_error]
      exact Nat.le_add_right _ _
  | ok answer =>
      cases request <;> cases answer
      case reallocate.some =>
        rw [Request.weight_reallocate]
        exact Nat.le_refl _
      case reallocateArray.some =>
        rw [Request.weight_reallocateArray]
        exact Nat.le_refl _
      all_goals first | exact Nat.le_refl _ | exact Nat.le_add_right _ _

theorem countably_of_few {requests : List Request}
    (few : books.counted + (requests.map Request.weight).sum < wordLimit)
    (state : Manager × Process) : Countably books (Method.run perform requests state) := by
  induction requests generalizing books state with
  | nil => trivial
  | cons request rest ih =>
      have step := counted_after_le books request ((perform request).runFrom state).1
      rw [List.map_cons, List.sum_cons] at few
      have behind : (books.after request ((perform request).runFrom state).1).counted +
          (rest.map Request.weight).sum < wordLimit := by omega
      rw [Method.run_cons]
      refine ⟨?_, ih behind _⟩
      intro (counts : 0 < request.weight) full
      unfold Books.Full at full
      omega

end Manager

/-- An allocator with room for one small block at a time. -/
def Allocator.single : Allocator where
  place heap layout :=
    if heap.blocks.isEmpty ∧ layout.size ≤ pageSize ∧ layout.align ≤ pageSize then some 0x10000
    else none
  move _ _ _ _ := none

theorem Allocator.single_lawful : single.Lawful where
  place := by
    intro heap layout base _ power placed
    simp only [single] at placed
    split at placed
    · rename_i room
      cases placed
      have divides : layout.align ∣ 0x10000 :=
        (isPowerOfTwo_dvd power (by decide) room.2.2).trans (by decide)
      refine ⟨Nat.mod_eq_zero_of_dvd divides, ?_, ?_⟩
      · exact Nat.lt_of_le_of_lt (Nat.add_le_add_left room.2.1 _) (by decide)
      · intro a block found
        have absent := Std.TreeMap.getElem?_of_isEmpty (a := a) room.1
        rw [Heap.find?, absent] at found
        cases found
    · cases placed
  move := by
    intro _ _ _ _ _ _ _ _ _ _ placed
    cases placed

namespace Manager

structure Idle (manager : Manager) (count : Nat) (process : Process) : Prop where
  orderly : ∃ peak, manager.Orderly none { live := [], peak, counted := count } process
  empty : ∀ a, process.heap.find? a = none
  allocator : process.allocator = .single

namespace Idle

variable {manager : Manager} {process : Process} {count : Nat} (idle : manager.Idle count process)
include idle

theorem sound : process.Sound := by
  obtain ⟨_, orderly⟩ := idle.orderly
  exact orderly.sound

/-- The allocator has room, so that nothing but the count can stand in the way of a block. -/
theorem allocate_room : Ends (manager.allocate ⟨8, 16⟩) process
    (fun address _ => address = 65552) fun failure _ => ∃ fault, failure = .fault fault := by
  obtain ⟨_, orderly⟩ := idle.orderly
  have unlimited : (manager.ledgerIn process).excess? 0 8 = .ok none := by
    rw [Ledger.excess?, orderly.config]
  have nothing : process.heap.blocks.isEmpty = true := by
    rw [Std.TreeMap.isEmpty_iff_forall_not_mem]
    intro a member
    obtain ⟨block, found⟩ := Option.isSome_iff_exists.mp
      (Std.TreeMap.isSome_getElem?_iff_mem.mpr member)
    have none := idle.empty a
    rw [Heap.find?, found] at none
    cases none
  have room : process.allocator.place process.heap ⟨24, 16⟩ = some 0x10000 := by
    rw [idle.allocator]
    exact if_pos ⟨nothing, by decide, by decide⟩
  have placed : Ends (place ⟨8, 16⟩ ⟨24, 16⟩) process (fun address _ => address = 65552)
      fun _ _ => False := by
    simp only [place, System.allocate, Action.ends_bind, Action.ends_get, room,
      Process.ends_updateHeap, Action.ends_pure]
    rw [ends_finishBlock (by rw [Heap.find?_insert]; exact if_pos rfl)]
    rfl
  have power : isPowerOfTwo 16 = true := by decide
  have framed : Layout.framed ⟨8, 16⟩ = .ok ⟨24, 16⟩ := rfl
  simp only [allocate, Action.ends_bind, Action.ends_require, power, if_true, ends_whenTracked,
    orderly.tracked, checkBudget, ends_ledger, Action.ends_liftFault, unlimited, Action.ends_pure,
    framed, Action.ends_liftError]
  apply placed.mono ?_ fun _ _ none => none.elim
  rintro _ after rfl
  split
  · rw [ends_enter]
    split
    · rfl
    · exact ⟨_, rfl⟩
  · rfl

theorem exhausted_iff : (manager.ledgerIn process).Exhausted ↔ wordLimit ≤ count + 1 := by
  obtain ⟨_, orderly⟩ := idle.orderly
  exact orderly.exhausted_iff

theorem next (few : count + 1 < wordLimit) :
    ∃ after, Method.final perform [.allocate ⟨8, 16⟩, .free 65552] (manager, process) =
      (manager, after) ∧ manager.Idle (count + 1) after := by
  obtain ⟨peak, orderly⟩ := idle.orderly
  have handsOut : Ends (perform (.allocate ⟨8, 16⟩)) (manager, process)
      (fun _ after => ∃ middle, after = (manager, middle) ∧
        manager.HandsOut process middle ⟨8, 16⟩ 65552) fun _ _ => False := by
    rw [ends_perform_allocate]
    apply ((allocate_effect ⟨8, 16⟩ idle.sound).and idle.allocate_room).mono
    · rintro _ middle ⟨handed, rfl⟩
      exact ⟨middle, rfl, handed⟩
    · rintro _ after ⟨⟨⟨-, rfl⟩ | ⟨_, rfl⟩, -⟩ | ⟨-, exhausted, -⟩, fault, same⟩
      · cases same
      · cases same
      · exact absurd few (Nat.not_lt.mpr (idle.exhausted_iff.mp exhausted))
  obtain ⟨_, _, ran, middle, rfl, handed⟩ := handsOut.exists_ok
  have there := orderly.handedOut handed
  have takesBack : Ends (perform (.free 65552)) (manager, middle)
      (fun _ after => ∃ last, after = (manager, last) ∧
        ∃ size, manager.TakesBack middle last 65552 size) fun _ _ => False := by
    have holds := there.holds_iff.mpr (List.mem_singleton_self (65552, 8))
    rw [ends_perform_free]
    apply (free_effect 65552 there.sound holds.given).mono (fun _ last taken => ⟨last, rfl, taken⟩)
    intro _ _ rejected
    exact rejected.2.unheld 8 (fun _ claimed => nomatch claimed) holds
  obtain ⟨_, _, ranThere, last, rfl, size, taken⟩ := takesBack.exists_ok
  refine ⟨last, ?_, ⟨_, there.takenBack taken⟩, ?_, ?_⟩
  · rw [Method.final_cons, ran, Method.final_cons, ranThere, Method.final_nil]
  · intro a
    rw [taken.turns.heap_eq, Heap.find?_erase, handed.turns.heap_eq, Heap.find?_handed]
    split
    · rfl
    · exact idle.empty a
  · obtain ⟨_, same⟩ := taken.turns.rest
    obtain ⟨_, rfl⟩ := handed.turns.rest
    rw [same]
    exact idle.allocator

/-- When no further allocation can be counted, a block is recorded that is not handed out. -/
theorem stopped (full : wordLimit ≤ count + 1) :
    Ends (perform (.allocate ⟨8, 16⟩)) (manager, process) (fun _ _ => False)
      fun failure after => failure = .fault (.overflow .add) ∧ ∃ address : Nat,
        (manager.ledgerIn process).live[address]? = none ∧
          (manager.ledgerIn after.2).live[address]? ≠ none := by
  obtain ⟨_, orderly⟩ := idle.orderly
  have nothing (a : Nat) : (manager.ledgerIn process).live[a]? = none := by
    rw [Option.eq_none_iff_forall_ne_some]
    intro size recorded
    cases (orderly.describes.live a size).mp recorded
  rw [ends_perform_allocate]
  apply ((allocate_effect ⟨8, 16⟩ idle.sound).and idle.allocate_room).mono
  · rintro _ after ⟨handed, -⟩
    exact handed.countable (idle.exhausted_iff.mpr full)
  · rintro _ after ⟨⟨⟨-, rfl⟩ | ⟨_, rfl⟩, -⟩ | ⟨rfl, -, -, -, address, size, -, -, turns⟩, _, same⟩
    · cases same
    · cases same
    · refine ⟨rfl, address, nothing address, ?_⟩
      rw [turns.ledgers, if_pos rfl, Ledger.astray, Std.TreeMap.getElem?_insert_self]
      exact Option.some_ne_none size

end Idle

def turnover : Nat → List Request
  | 0 => []
  | count + 1 => turnover count ++ [.allocate ⟨8, 16⟩, .free 65552]

theorem idle_turnover {count : Nat} {manager : Manager} {start : Process}
    (idle : manager.Idle 0 start) (few : count < wordLimit) :
    ∃ after, Method.final perform (turnover count) (manager, start) = (manager, after) ∧
      manager.Idle count after := by
  induction count with
  | zero => exact ⟨start, rfl, idle⟩
  | succ count ih =>
      obtain ⟨after, ran, there⟩ := ih (Nat.lt_of_succ_lt few)
      obtain ⟨last, ranThere, idleThere⟩ := there.next few
      refine ⟨last, ?_, idleThere⟩
      rw [turnover, Method.final_append, ran, ranThere]

/-- In every run of calls to a new tracked manager, through any copies of it and with any arguments,
the ledger has what the calls and their answers say: the live blocks with their sizes, their number,
their bytes, the most bytes that there ever were, and how many allocations. The live bytes keep to
the limit. A call is stopped exactly when its address is not that of a live block or its size is not
that of the block, and a call that fails changes neither the ledger nor a byte of a live block.
Only up to 2⁶⁴ − 1 allocations may a block be asked for, or resized to more than nothing. -/
theorem run_follows_books {config : Config} (sound : process.Sound)
    (tracked : config.strategy = .tracked)
    (created : (create config).runFrom process = (.ok manager, after)) (requests : List Request)
    (countably : Countably {} (Method.run perform requests (manager, after))) :
    manager.Follows config.byteLimit {} after (Method.run perform requests (manager, after)) := by
  exact (orderly_created sound tracked created).follows requests countably

theorem limited_created : ∃ (manager : Manager) (start : Process),
    (create (Config.tracked.withByteLimit 64)).runFrom {} = (.ok manager, start) :=
  ⟨_, _, rfl⟩

theorem run_follows_books_limited : ∃ (manager : Manager) (start : Process),
    (create (Config.tracked.withByteLimit 64)).runFrom {} = (.ok manager, start) ∧
    manager.Follows (some 64) {} start (Method.run perform
      [.allocate ⟨40, 16⟩, .allocateArray ⟨8, 8⟩ 4, .share, .reallocate 65552 32 48,
        .free 65552, .free 65552] (manager, start)) := by
  rcases limited_created with ⟨manager, start, created⟩
  exact ⟨manager, start, created,
    run_follows_books (sound_unused Allocator.ascending_lawful) rfl created _
      (countably_of_few (by decide) _)⟩

/-- Without a bound a run leaves its books. When 2⁶⁴ − 1 allocations were counted, the next block stops
the manager after it was recorded. And an array whose old bytes cannot be counted is out of memory
before its address is looked up. -/
theorem run_leaves_books :
    (∃ (manager : Manager) (start : Process),
      (create .tracked).runFrom { allocator := .single } = (.ok manager, start) ∧
      let full := Method.final perform (turnover maxWord) (manager, start)
      let last := (perform (.allocate ⟨8, 16⟩)).runFrom full
      last.1 = .error (.fault (.overflow .add)) ∧
        ∃ address : Nat, (manager.ledgerIn full.2).live[address]? = none ∧
          (manager.ledgerIn last.2.2).live[address]? ≠ none) ∧
    ∃ (manager : Manager) (start : Process),
      (create .tracked).runFrom {} = (.ok manager, start) ∧
      (Method.run perform
        [.allocate ⟨8, 16⟩, .free 65552, .reallocateArray 65552 ⟨8, 8⟩ (2 ^ 61) 1]
        (manager, start)).map Step.outcome =
          [.ok (some 65552), .ok none, .error (.error (.outOfMemory maxWord))] := by
  constructor
  · have created : ∃ (manager : Manager) (start : Process),
        (create .tracked).runFrom { allocator := .single } = (.ok manager, start) ∧
          (∀ a, start.heap.find? a = none) ∧ start.allocator = .single :=
      ⟨_, _, rfl, Heap.find?_empty, rfl⟩
    obtain ⟨manager, start, created, empty, single⟩ := created
    have orderly := orderly_created (sound_unused Allocator.single_lawful) rfl created
    have idle : manager.Idle 0 start := ⟨⟨0, orderly⟩, empty, single⟩
    obtain ⟨full, ran, there⟩ := idle_turnover idle (by decide : maxWord < wordLimit)
    refine ⟨manager, start, created, ?_⟩
    rw [ran]
    dsimp only
    rcases stops : (perform (.allocate ⟨8, 16⟩)).runFrom (manager, full) with ⟨failure | _, last⟩
    · obtain ⟨rfl, grown⟩ := (there.stopped (by decide)).of_error stops
      exact ⟨rfl, grown⟩
    · exact ((there.stopped (by decide)).of_ok stops).elim
  · exact ⟨_, _, rfl, rfl⟩

end Manager

end SymbolStore
