import SymbolStore.Proofs.Memory.Account
import SymbolStore.Proofs.Twin.Structures

/-!
Processes in which a request is turned down by the system alone: no manager has a limit, and the
system decides by size, as long as there are addresses left.
-/

namespace SymbolStore

open SymbolStore.Action (Ends Lockstep Respects)

/-- The system has room for blocks of these sizes and of no others, as long as all blocks that there
have ever been lie below the bound. It puts large blocks that ask for no special alignment at the start
of a page. -/
structure Allocator.BySize (allocator : Allocator) (grants : Nat → Bool) (bound : Nat) : Prop where
  place {heap : Heap} {whole : Layout} {base : Nat} :
    allocator.place heap whole = some base → grants whole.size = true
  refuse {heap : Heap} {payload whole : Layout} : payload.framed = .ok whole →
    allocator.place heap whole = none → grants whole.size = true → bound < heap.frontier
  move {heap : Heap} {base newBase size : Nat} {layout : Layout} :
    allocator.move heap base layout size = some newBase → grants size = true
  stay {heap : Heap} {base : Nat} {layout payload whole : Layout} : payload.framed = .ok whole →
    layout.align = whole.align → allocator.move heap base layout whole.size = none →
    grants whole.size = true → bound < heap.frontier
  page {heap : Heap} {whole : Layout} {base : Nat} : allocator.place heap whole = some base →
    pageThreshold ≤ whole.size → whole.align ≤ blockAlign → base % pageSize = 0

namespace Allocator

theorem nextBase_le (heap : Heap) {payload whole : Layout} (framed : payload.framed = .ok whole) :
    nextBase heap whole ≤ heap.frontier + maxObjectSize := by
  have align : whole.align ≤ maxObjectSize + 1 := by
    simp only [Layout.framed, Word.add?] at framed
    split at framed
    · split at framed
      · cases framed
        dsimp only
        omega
      · cases framed
    · cases framed
  have near (align : Nat) : alignUp heap.frontier align ≤ heap.frontier + (align - 1) :=
    alignDown_le _ _
  rw [nextBase]
  split
  · have page : pageSize ≤ maxObjectSize := by decide
    exact Nat.le_trans (near pageSize) (by omega)
  · exact Nat.le_trans (near whole.align) (by omega)

/-- Using every address once, the system has room for blocks below a size for a long time. -/
theorem ascending_bySize : ascending.BySize (fun size => decide (size < refusedSize)) refusedSize := by
  have granted {heap : Heap} {whole : Layout} {base : Nat} (found : above heap whole = some base) :
      decide (whole.size < refusedSize) = true := by
    unfold above at found
    split at found
    · cases found
    · exact decide_eq_true (Nat.not_le.mp ‹_›)
  have full {heap : Heap} {payload whole : Layout} (framed : payload.framed = .ok whole)
      (refused : above heap whole = none) (small : decide (whole.size < refusedSize) = true) :
      refusedSize < heap.frontier := by
    have small := of_decide_eq_true small
    have near := nextBase_le heap framed
    have address : refusedSize + maxObjectSize + refusedSize ≤ wordLimit := by decide
    unfold above at refused
    rw [if_neg (Nat.not_le.mpr small)] at refused
    split at refused
    · cases refused
    · omega
  refine ⟨granted, full, granted, ?_, ?_⟩
  · intro heap base layout payload whole framed aligned refused
    obtain ⟨size, align⟩ := layout
    cases aligned
    exact full framed refused
  · intro heap whole base found large plain
    have found : above heap whole = some base := found
    have start : nextBase heap whole = alignUp heap.frontier pageSize := if_pos ⟨large, plain⟩
    unfold above at found
    rw [start] at found
    split at found
    · cases found
    · split at found
      · cases found
        exact alignUp_mod _ _
      · cases found

end Allocator

/-- There has been a block above the bound. -/
def Process.Spent (bound : Nat) (process : Process) : Prop := bound < process.heap.frontier

/-- Why a request for a block is turned down, whatever else there is. -/
def Layout.objection? (grants : Nat → Bool) (payload : Layout) : Option MemoryError :=
  if isPowerOfTwo payload.align then
    match payload.framed with
    | .error cause => some cause
    | .ok whole => if grants whole.size then none else some (.outOfMemory payload.size)
  else some (.invalidAlignment payload.align)

def Layout.resizeObjection? (grants : Nat → Bool) (element : Layout) (align oldCount newCount : Nat) :
    Option MemoryError :=
  match element.arrayBytes oldCount, element.arrayBytes newCount with
  | .ok oldSize, .ok newSize =>
    match framed { size := oldSize, align }, framed { size := newSize, align } with
    | .ok _, .ok whole => if grants whole.size then none else some (.outOfMemory newSize)
    | .ok _, .error cause => some cause
    | .error cause, _ => some cause
  | .ok _, .error cause => some cause
  | .error cause, _ => some cause

/-- Where a payload may start: that of a large block of no special alignment is behind the header at
the start of a page. -/
def Layout.Paged (payload : Layout) (address : Nat) : Prop :=
  Allocator.pageThreshold ≤ payload.size → payload.align ≤ blockAlign →
    address % Allocator.pageSize = blockAlign

/-- No manager has a limit, and each can count more than so many allocations yet. -/
structure Process.Ample (allocator : Allocator) (room : Nat) (process : Process) : Prop where
  sound : process.Sound
  powers : process.heap.Powers
  system : process.allocator = allocator
  unlimited : ∀ manager : Manager, (manager.ledgerIn process).config.byteLimit = none
  countable : ∀ manager : Manager,
    (manager.ledgerIn process).counters.totalAllocations + room + 1 < wordLimit

variable {allocator : Allocator} {grants : Nat → Bool} {bound room more : Nat}
  {process after : Process} {manager : Manager}

theorem Process.Remarks.spent (remarks : process.Remarks after) :
    after.Spent bound ↔ process.Spent bound := by
  obtain ⟨journal, -, rfl⟩ := remarks
  rfl

namespace Process.Ample

theorem less (ample : process.Ample allocator more) (less : room ≤ more) :
    process.Ample allocator room where
  sound := ample.sound
  powers := ample.powers
  system := ample.system
  unlimited := ample.unlimited
  countable manager := by
    have countable := ample.countable manager
    omega

theorem evolved {freed : List Nat} (ample : process.Ample allocator more)
    (evolves : process.Evolves after freed) (powers : after.heap.Powers)
    (system : after.allocator = process.allocator)
    (counts : ∀ manager : Manager, (manager.ledgerIn after).counters.totalAllocations + room ≤
      (manager.ledgerIn process).counters.totalAllocations + more) :
    after.Ample allocator room where
  sound := evolves.sound
  powers := powers
  system := system.trans ample.system
  unlimited manager := by
    rw [evolves.config]
    exact ample.unlimited manager
  countable manager := by
    have counted := counts manager
    have countable := ample.countable manager
    omega

theorem turned {freed : List Nat} {heap : Heap} {ledger : Ledger}
    (ample : process.Ample allocator more) (less : room ≤ more)
    (evolves : process.Evolves after freed) (turns : process.Turns after manager heap ledger)
    (powers : heap.Powers) (counts : ledger.counters.totalAllocations + room ≤
      (manager.ledgerIn process).counters.totalAllocations + more) : after.Ample allocator room := by
  refine ample.evolved evolves ?_ ?_ ?_
  · rw [turns.heap_eq]
    exact powers
  · obtain ⟨ledgers, rfl⟩ := turns.rest
    rfl
  · intro other
    rw [turns.ledgers]
    split
    · rename_i same
      rw [← same]
      exact counts
    · exact Nat.add_le_add_left less _

theorem printed (ample : process.Ample allocator room) (journal : Journal) :
    Ample allocator room { process with journal } :=
  ample.evolved (evolves_journal ample.sound journal) ample.powers rfl fun _ => Nat.le_refl _

theorem remarked (ample : process.Ample allocator room) (remarks : process.Remarks after) :
    after.Ample allocator room := by
  obtain ⟨journal, -, rfl⟩ := remarks
  exact ample.printed journal

theorem written (ample : process.Ample allocator room) (place : Pointer) (values : List UInt8) :
    Ample allocator room { process with heap := process.heap.write place values } where
  sound := ample.sound.write place values
  powers := Heap.powers_write ample.powers place values
  system := ample.system
  unlimited := ample.unlimited
  countable := ample.countable

theorem counted (ample : process.Ample allocator room) :
    Ample allocator room { process with nextRegion := process.nextRegion + 1 } :=
  ample.evolved (evolves_nextRegion ample.sound _) ample.powers rfl fun _ => Nat.le_refl _

theorem not_exhausted (ample : process.Ample allocator room) (manager : Manager) :
    ¬ (manager.ledgerIn process).Exhausted := by
  intro exhausted
  have countable := ample.countable manager
  have full := exhausted.2
  omega

theorem given (ample : process.Ample allocator room) (manager : Manager) (address : Nat) :
    manager.Given process address :=
  Manager.given_of_countable ample.sound (ample.not_exhausted manager) address

end Process.Ample

namespace Manager

theorem acquired_total (ledger : Ledger) (address size : Nat) :
    (ledger.acquired address size).counters.totalAllocations ≤
      ledger.counters.totalAllocations + 1 := by
  unfold Ledger.acquired
  split
  · exact Nat.le_refl _
  · exact Nat.le_succ _

theorem released_total (ledger : Ledger) (address size : Nat) :
    (ledger.released address size).counters.totalAllocations = ledger.counters.totalAllocations := by
  unfold Ledger.released
  split <;> rfl

theorem resized_total (ledger : Ledger) (address size newAddress newSize : Nat) :
    (ledger.resized address size newAddress newSize).counters.totalAllocations ≤
      ledger.counters.totalAllocations + 1 := by
  unfold Ledger.resized
  split
  · show (if 0 < newSize then _ else _) ≤ _
    split
    · exact Nat.le_refl _
    · exact Nat.le_succ _
  · exact Nat.le_succ _

theorem HandsOut.ample {payload : Layout} {address : Nat}
    (handed : manager.HandsOut process after payload address)
    (ample : process.Ample allocator (room + 1)) : after.Ample allocator room := by
  refine ample.turned (Nat.le_succ room) handed.evolves handed.turns ?_ ?_
  · exact Heap.powers_handed ample.powers _ _ handed.words handed.power
  · have counts := acquired_total (manager.ledgerIn process) address payload.size
    omega

theorem TakesBack.ample {address size : Nat} (taken : manager.TakesBack process after address size)
    (ample : process.Ample allocator room) : after.Ample allocator room := by
  refine ample.turned (Nat.le_refl room) taken.evolves taken.turns ?_ ?_
  · exact Heap.powers_erase ample.powers _
  · rw [released_total]

theorem Moves.ample {address newAddress newSize : Nat} {block : Block}
    (moves : manager.Moves process after address block newAddress newSize)
    (ample : process.Ample allocator (room + 1)) : after.Ample allocator room := by
  refine ample.turned (Nat.le_succ room) moves.evolves moves.turns ?_ ?_
  · exact Heap.powers_moved ample.powers _ moves.word moves.found
  · have counts := resized_total (manager.ledgerIn process) address block.size newAddress newSize
    omega

variable (bySize : allocator.BySize grants bound)

theorem checkBudget_passes (ample : process.Ample allocator room) (releasing requested : Nat) :
    (manager.checkBudget releasing requested).runFrom process = (.ok (), process) := by
  simp only [checkBudget, Action.runFrom_bind, runFrom_ledger, Action.runFrom_liftFault,
    Ledger.excess?, ample.unlimited manager, Except.mapError, Action.runFrom_pure]

theorem budget_passes (ample : process.Ample allocator room) (releasing requested : Nat) :
    Ends (manager.whenTracked (manager.checkBudget releasing requested)) process
      (fun _ after => after = process) fun _ _ => False := by
  rw [ends_whenTracked]
  split
  · rw [Ends, checkBudget_passes ample]
  · rfl

include bySize in
theorem place_objects {payload whole : Layout} (framed : payload.framed = .ok whole)
    (system : process.allocator = allocator) :
    Ends (place payload whole) process
      (fun address _ => grants whole.size = true ∧ payload.Paged address)
      fun failure _ => failure = .error (.outOfMemory payload.size) ∧
        (grants whole.size = true → process.Spent bound) := by
  have start : headerOffset whole.align = headerOffset payload.align := by
    rw [Layout.framed_eq framed]
    exact headerOffset_headerOffset _
  simp only [place, System.allocate, Action.ends_bind, Action.ends_get]
  cases found : process.allocator.place process.heap whole with
  | none =>
      rw [system] at found
      simp only [Action.ends_bind, Action.ends_pure, Process.ends_log, Action.ends_fail]
      exact ⟨trivial, bySize.refuse framed found⟩
  | some base =>
      simp only [Action.ends_bind, Process.ends_updateHeap, Action.ends_pure, start]
      rw [ends_finishBlock (by rw [Heap.find?_insert, if_pos rfl])]
      rw [system] at found
      refine ⟨bySize.place found, fun large plain => ?_⟩
      have offset : headerOffset payload.align = blockAlign := Nat.max_eq_right plain
      rw [Layout.framed_eq framed] at found
      have start := bySize.page found (Nat.le_add_right_of_le large) (Nat.le_of_eq offset)
      rw [offset, Nat.add_mod, start]
      rfl

include bySize in
/-- A request for a block fails for the reason that there is, or because addresses are short. -/
theorem allocate_objects (payload : Layout) (ample : process.Ample allocator (room + 1)) :
    Ends (manager.allocate payload) process
      (fun address after => payload.objection? grants = none ∧ payload.Paged address ∧
        manager.HandsOut process after payload address)
      fun failure after => ((payload.objection? grants).map .error = some failure ∨
        after.Spent bound) ∧ process.Remarks after := by
  have objects : Ends (manager.allocate payload) process
      (fun address _ => payload.objection? grants = none ∧ payload.Paged address)
      fun failure _ => (payload.objection? grants).map .error = some failure ∨
        process.Spent bound ∨ ∃ cause, failure = .fault cause := by
    rw [allocate, Action.ends_bind, Action.ends_require, Layout.objection?]
    split
    · refine (budget_passes ample 0 payload.size).bind (fun _ _ => False.elim) ?_
      rintro _ _ rfl
      rw [Action.ends_bind, Action.ends_liftError]
      cases framed : payload.framed with
      | error cause => exact .inl rfl
      | ok whole =>
          dsimp only
          refine (place_objects bySize framed ample.system).bind ?_ ?_
          · rintro _ _ ⟨rfl, spent⟩
            split
            · exact .inr (.inl (spent ‹_›))
            · exact .inl rfl
          · rintro address placed ⟨granted, paged⟩
            simp only [if_pos granted, Action.ends_bind, ends_whenTracked,
              Process.ends_updateHeap, Action.ends_pure]
            split
            · rw [ends_enter]
              split
              · exact ⟨trivial, paged⟩
              · exact .inr (.inr ⟨_, rfl⟩)
            · exact ⟨trivial, paged⟩
    · exact .inl rfl
  refine (objects.and (allocate_effect payload ample.sound)).mono ?_ ?_
  · rintro address after ⟨⟨none, paged⟩, handed⟩
    exact ⟨none, paged, handed⟩
  · rintro failure after ⟨reasons, refused⟩
    rcases refused with ⟨told, remarks⟩ | ⟨-, exhausted, -⟩
    · refine ⟨?_, remarks⟩
      rcases reasons with reason | spent | ⟨cause, rfl⟩
      · exact .inl reason
      · exact .inr (remarks.spent.mpr spent)
      · rcases told with ⟨-, other⟩ | ⟨requested, other⟩ <;> cases other
    · exact absurd exhausted (ample.not_exhausted manager)

theorem checkPromise_tells (address : Nat) (size : Option Nat) :
    Ends (manager.checkPromise address size) process (fun _ after => after = process)
      fun failure _ => ∀ cause, failure ≠ .error cause := by
  simp only [checkPromise, Action.ends_bind, ends_ledger]
  split
  · rfl
  · rw [Action.ends_bind, Action.ends_get]
    split
    · split
      · rfl
      · simp
    · simp

theorem checkResize_tells (address oldSize newSize : Nat) (ample : process.Ample allocator room) :
    Ends (manager.checkResize address oldSize newSize) process (fun _ after => after = process)
      fun failure _ => ∀ cause, failure ≠ .error cause := by
  simp only [checkResize, Action.ends_bind, ends_ledger]
  split
  · simp only [Action.ends_bind, recordedSize, ends_ledger]
    split
    · rw [Action.ends_pure]
      split
      · rw [Ends, checkBudget_passes ample]
      · simp
    · simp
  · exact checkPromise_tells address (some oldSize)

include bySize in
theorem relocate_objects {address newSize : Nat} {block : Block} {newWhole : Layout}
    (framed : Layout.framed { size := newSize, align := block.align } = .ok newWhole)
    (heap : process.heap.Sound) (found : process.heap.find? address = some block)
    (system : process.allocator = allocator) :
    Ends (relocate address block.header.whole { size := newSize, align := block.align } newWhole)
      process (fun _ _ => grants newWhole.size = true)
      fun failure _ => failure = .error (.outOfMemory newSize) ∧
        (grants newWhole.size = true → process.Spent bound) := by
  have aligned : block.header.whole.align = newWhole.align := by
    rw [Layout.framed_eq framed]
    rfl
  have front := (heap.headed address block found).front_eq
  rw [relocate, Action.ends_bind, ends_systemReallocate _ heap found]
  split
  · rename_i refused
    rw [system] at refused
    rw [Action.ends_bind, Process.ends_log, Action.ends_fail]
    exact ⟨rfl, bySize.stay framed aligned refused⟩
  · rename_i newBase moved
    rw [system] at moved
    dsimp only
    rw [ends_finishBlock (by dsimp only; rw [← front, Heap.find?_insert, if_pos rfl])]
    exact bySize.move moved

include bySize in
theorem reallocateArray_tells {address oldCount : Nat} {element : Layout} {block : Block}
    (newCount : Nat) (ample : process.Ample allocator room)
    (found : process.heap.find? address = some block) (size : block.size = element.size * oldCount) :
    Ends (manager.reallocateArray address element oldCount newCount) process
      (fun _ _ => element.resizeObjection? grants block.align oldCount newCount = none)
      fun failure _ =>
        (element.resizeObjection? grants block.align oldCount newCount).map .error = some failure ∨
          process.Spent bound ∨ ∀ cause, failure ≠ .error cause := by
  rw [reallocateArray, Layout.resizeObjection?]
  refine (checkPromise_tells address _).bind (fun _ _ told => .inr (.inr told)) ?_
  rintro _ _ rfl
  rw [Action.ends_bind, Action.ends_liftError]
  cases before : element.arrayBytes oldCount with
  | error cause => exact .inl rfl
  | ok oldSize =>
      dsimp only
      rw [Action.ends_bind, Action.ends_liftError]
      cases behind : element.arrayBytes newCount with
      | error cause => exact .inl rfl
      | ok newSize =>
          dsimp only
          rw [reallocate]
          refine (checkResize_tells address oldSize newSize ample).bind
            (fun _ _ told => .inr (.inr told)) ?_
          rintro _ _ rfl
          have align : block.header.align = block.align := rfl
          rw [Action.ends_bind, ends_readHeader found]
          simp only [Action.ends_bind, Action.ends_liftError, align]
          cases framedBefore : Layout.framed { size := oldSize, align := block.align } with
          | error cause => exact .inl rfl
          | ok whole =>
              dsimp only
              have told : whole = block.header.whole := by
                rw [Layout.framed_eq framedBefore, Layout.eq_of_arrayBytes before, ← size,
                  (ample.sound.heap.headed address block found).size_eq]
                rfl
              cases framed : Layout.framed { size := newSize, align := block.align } with
              | error cause => exact .inl rfl
              | ok newWhole =>
                  rw [told]
                  dsimp only
                  refine (relocate_objects bySize framed ample.sound.heap found ample.system).mono
                    ?_ ?_
                  · intro newAddress moved granted
                    rw [if_pos granted, ends_whenTracked]
                    split
                    · rw [ends_enter]
                      split
                      · rfl
                      · exact .inr (.inr (by simp))
                    · rfl
                  · rintro _ _ ⟨rfl, spent⟩
                    split
                    · exact .inr (.inl (spent ‹_›))
                    · exact .inl rfl

include bySize in
theorem reallocateArray_objects {address oldCount : Nat} {element : Layout} {block : Block}
    (newCount : Nat) (ample : process.Ample allocator (room + 1))
    (found : process.heap.find? address = some block) (size : block.size = element.size * oldCount)
    (holds : manager.Holds process address block.size) :
    Ends (manager.reallocateArray address element oldCount newCount) process
      (fun newAddress after =>
        element.resizeObjection? grants block.align oldCount newCount = none ∧
          manager.Moves process after address block newAddress (element.size * newCount))
      fun failure after =>
        ((element.resizeObjection? grants block.align oldCount newCount).map .error = some failure ∨
          after.Spent bound) ∧ process.Remarks after := by
  have tells : Ends (manager.reallocateArray address element oldCount newCount) process _ _ :=
    reallocateArray_tells bySize newCount ample found size
  refine (tells.and (reallocateArray_effect address element oldCount newCount ample.sound holds.given
    fun block found _ => ample.powers address block found)).mono ?_ ?_
  · rintro newAddress after ⟨none, -, other, -, moves⟩
    have same := moves.found
    rw [found] at same
    cases same
    exact ⟨none, moves⟩
  · rintro failure after ⟨reasons, failed⟩
    have error (cause : MemoryError) (is : failure = .error cause) :
        (element.resizeObjection? grants block.align oldCount newCount).map .error = some failure ∨
          process.Spent bound :=
      reasons.imp_right fun others => others.resolve_right fun never => never cause is
    rcases failed with ⟨-, rejects, -⟩ | ⟨-, is, same⟩ | ⟨-, -, ⟨⟨requested, is⟩, remarks⟩ |
      ⟨-, -, exhausted, -⟩⟩
    · refine absurd holds (rejects.unheld block.size fun s claimed => ?_)
      rw [size]
      exact (Option.mem_some_iff.mp claimed).symm
    · rw [same]
      exact ⟨error _ is, .refl _⟩
    · exact ⟨(error _ is).imp_right remarks.spent.mpr, remarks⟩
    · exact absurd exhausted (ample.not_exhausted manager)

theorem holders_ample (ample : process.Ample allocator room) (count : Nat) :
    Process.Ample allocator room { process with
      ledgers := process.ledgers.modify manager.id fun _ =>
        { manager.ledgerIn process with holders := count } } := by
  refine ample.evolved (evolves_holders ample.sound count) ample.powers rfl fun other => ?_
  obtain ⟨holders, same⟩ := manager.ledgerIn_holders process count other
  rw [same]

theorem erased_ample (ample : process.Ample allocator room) (manager : Manager) (journal : Journal) :
    Process.Ample allocator room { process with
      journal, ledgers := process.ledgers.erase manager.id } where
  sound := sound_erased ample.sound manager journal
  powers := ample.powers
  system := ample.system
  unlimited other := by
    rw [ledgerIn_erase]
    split
    · rfl
    · exact ample.unlimited other
  countable other := by
    rw [ledgerIn_erase]
    split
    · have countable := ample.countable other
      exact Nat.lt_of_le_of_lt (Nat.add_le_add_right (Nat.zero_le _) (room + 1)) countable
    · exact ample.countable other

theorem holds_erased {other : Manager} {address size : Nat}
    (holds : other.Holds process address size) (manager : Manager) (journal : Journal) :
    other.Holds { process with journal, ledgers := process.ledgers.erase manager.id }
      address size where
  present := holds.present
  recorded tracked := by
    rw [ledgerIn_erase] at tracked ⊢
    split
    · rename_i same
      rw [if_pos same] at tracked
      cases tracked
    · rename_i different
      rw [if_neg different] at tracked
      exact holds.recorded tracked

def Rests (process after : Process) : Prop :=
  after.heap = process.heap ∧ ∀ (manager : Manager) address size,
    manager.Holds process address size → manager.Holds after address size

theorem retain_ample (ample : process.Ample allocator room) :
    Ends manager.retain process (fun _ after => after.Ample allocator room ∧ Rests process after ∧
      after.nextRegion = process.nextRegion) fun _ _ => False := by
  rw [retain, Action.ends_bind, ends_ledger, ends_setLedger]
  refine ⟨holders_ample ample _, ⟨rfl, fun other address size => ?_⟩, rfl⟩
  exact (evolves_holders ample.sound _).held other address size List.not_mem_nil

theorem release_ample (ample : process.Ample allocator room) :
    Ends manager.release process (fun _ after => after.Ample allocator room ∧ Rests process after)
      fun _ _ => False := by
  have ended (journal : Journal) : Process.Ample allocator room { process with
      journal, ledgers := process.ledgers.erase manager.id } ∧
        Rests process { process with journal, ledgers := process.ledgers.erase manager.id } :=
    ⟨erased_ample ample manager journal, rfl, fun _ _ _ holds => holds_erased holds manager journal⟩
  rw [release, Action.ends_bind, ends_ledger]
  split
  · rw [ends_setLedger]
    refine ⟨holders_ample ample _, rfl, fun other address size => ?_⟩
    exact (evolves_holders ample.sound _).held other address size List.not_mem_nil
  · dsimp only
    split
    · exact ended _
    · exact ended _

theorem release_spent (spent : process.Spent bound) :
    Ends manager.release process (fun _ => Process.Spent bound) fun _ => Process.Spent bound := by
  rw [release, Action.ends_bind, ends_ledger]
  split
  · rw [ends_setLedger]
    exact spent
  · dsimp only
    split
    · exact spent
    · exact spent

end Manager

/-- A process without limits beside itself: whatever is asked of its managers, it stays one. -/
theorem Process.ample_congruent (allocator : Allocator) :
    Congruent (fun _ => True) (fun _ => False)
      (fun room p q => q = p ∧ p.Ample allocator room) where
  number related := by rw [related.1]
  counted related := by
    rw [related.1]
    exact ⟨rfl, related.2.counted⟩
  logged _ _ other := Action.respects_self fun _ process ample =>
    ample.remarked (remarks_log process other _ _)
  stored place values := Action.respects_self fun _ process ample => by
    apply (store_ends place values).mono
    · rintro _ _ rfl
      exact ample.written place values
    · rintro _ _ ⟨-, rfl, -⟩
      exact ample
  retain _ := Action.respects_self fun _ _ ample =>
    (Manager.retain_ample ample).mono (fun _ _ after => after.1) fun _ _ => False.elim
  release _ := Action.respects_self fun _ _ ample =>
    (Manager.release_ample ample).mono (fun _ _ after => after.1) fun _ _ => False.elim
  allocate payload _ := Action.respects_self fun room process ample => by
    refine (Manager.allocate_effect payload ample.sound).mono ?_ ?_
    · exact fun _ _ handed => handed.ample ample
    · rintro _ after (⟨-, remarks⟩ | ⟨-, exhausted, -⟩)
      · exact (ample.remarked remarks).less (Nat.le_succ room)
      · exact absurd exhausted (ample.not_exhausted _)
  free address _ := Action.respects_self fun _ _ ample => by
    refine (Manager.free_effect address ample.sound (ample.given _ address)).mono ?_ ?_
    · rintro _ _ ⟨_, taken⟩
      exact taken.ample ample
    · rintro _ _ ⟨rfl, -⟩
      exact ample
  heap related := by rw [related.1]
  reallocate address oldSize newSize _ := Action.respects_self fun room process ample => by
    refine (Manager.reallocate_effect address oldSize newSize ample.sound (ample.given _ address)
      fun block found _ => ample.powers address block found).mono ?_ ?_
    · rintro _ _ ⟨_, -, moves⟩
      exact moves.ample ample
    · rintro _ after (⟨rfl, -⟩ | ⟨-, ⟨-, remarks⟩ | ⟨-, -, exhausted, -⟩⟩)
      · exact ample.less (Nat.le_succ room)
      · exact (ample.remarked remarks).less (Nat.le_succ room)
      · exact absurd exhausted (ample.not_exhausted _)
  reallocateArray address element oldCount newCount _ :=
    Action.respects_self fun room process ample => by
      refine (Manager.reallocateArray_effect address element oldCount newCount ample.sound
        (ample.given _ address) fun block found _ => ample.powers address block found).mono ?_ ?_
      · rintro _ _ ⟨-, _, -, moves⟩
        exact moves.ample ample
      · rintro _ after (⟨rfl, -⟩ | ⟨-, -, rfl⟩ | ⟨-, -, ⟨-, remarks⟩ | ⟨-, -, exhausted, -⟩⟩)
        · exact ample.less (Nat.le_succ room)
        · exact ample.less (Nat.le_succ room)
        · exact (ample.remarked remarks).less (Nat.le_succ room)
        · exact absurd exhausted (ample.not_exhausted _)

end SymbolStore
