import SymbolStore.Proofs.Memory.Process
import SymbolStore.Proofs.Outcome

/-!
What the calls of a manager do to the heap, to its ledger and to the journal, and when they turn
their caller away. A call that fails leaves the heap and all ledgers as they were, unless it is the
count of allocations that has run out.
-/

namespace SymbolStore

open SymbolStore.Action (Ends)

def Printed.isWarning : Printed → Bool
  | .message .warn _ _ => true
  | _ => false

namespace Journal

def warnings (journal : Journal) : List Printed := journal.printed.toList.filter Printed.isWarning

/-- What was printed in the meantime was no warning, and the level is the same. -/
structure Quiet (before after : Journal) : Prop where
  level : after.level = before.level
  warnings : after.warnings = before.warnings

theorem Quiet.refl (journal : Journal) : journal.Quiet journal := ⟨rfl, rfl⟩

theorem level_log (journal : Journal) (level : Level) (target : String) (text : Unit → String) :
    (journal.log level target text).level = journal.level := by
  unfold log emit
  cases journal.enabled level <;> rfl

theorem warnings_log (journal : Journal) (target : String) (text : Unit → String) :
    (journal.log .warn target text).warnings =
      journal.warnings ++
        if journal.enabled .warn then [.message .warn target (text ())] else [] := by
  unfold log emit
  cases journal.enabled .warn with
  | true => simp [warnings, print, Printed.isWarning]
  | false => simp

theorem quiet_log (journal : Journal) {level : Level} (other : level ≠ .warn) (target : String)
    (text : Unit → String) : journal.Quiet (journal.log level target text) where
  level := journal.level_log level target text
  warnings := by
    have silent : Printed.isWarning (.message level target (text ())) = false := by
      cases level <;> first | rfl | exact absurd rfl other
    unfold log emit
    cases journal.enabled level with
    | true => simp [warnings, print, silent]
    | false => simp

end Journal

namespace Ledger

variable (ledger : Ledger) (address size newAddress newSize : Nat)

theorem isTracked_iff : ledger.isTracked = true ↔ ledger.config.strategy = .tracked :=
  decide_eq_true_iff

def acquired : Ledger := if ledger.isTracked then ledger.withBlock address size else ledger

/-- The ledger after a block was recorded and could not be counted. -/
def astray : Ledger := { ledger with live := ledger.live.insert address size }

def released : Ledger := if ledger.isTracked then ledger.withoutBlock address size else ledger

def resized : Ledger :=
  if ledger.isTracked then ledger.withMoved address size newAddress newSize else ledger

@[simp] theorem config_acquired : (ledger.acquired address size).config = ledger.config := by
  unfold acquired
  split <;> rfl

@[simp] theorem config_released : (ledger.released address size).config = ledger.config := by
  unfold released
  split <;> rfl

@[simp] theorem config_resized :
    (ledger.resized address size newAddress newSize).config = ledger.config := by
  unfold resized
  split <;> rfl

@[simp] theorem holders_acquired : (ledger.acquired address size).holders = ledger.holders := by
  unfold acquired
  split <;> rfl

@[simp] theorem holders_released : (ledger.released address size).holders = ledger.holders := by
  unfold released
  split <;> rfl

@[simp] theorem holders_resized :
    (ledger.resized address size newAddress newSize).holders = ledger.holders := by
  unfold resized
  split <;> rfl

@[simp] theorem isTracked_acquired :
    (ledger.acquired address size).isTracked = ledger.isTracked := by
  rw [isTracked, config_acquired, isTracked]

@[simp] theorem isTracked_released :
    (ledger.released address size).isTracked = ledger.isTracked := by
  rw [isTracked, config_released, isTracked]

@[simp] theorem isTracked_resized :
    (ledger.resized address size newAddress newSize).isTracked = ledger.isTracked := by
  rw [isTracked, config_resized, isTracked]

/-- A request that the budget lets pass does not exceed the limit, as no more bytes can be live
than there are addresses. -/
theorem within_of_excess {ledger : Ledger} {releasing requested : Nat}
    (held : releasing ≤ ledger.counters.liveBytes)
    (passed : ledger.excess? releasing requested = .ok none)
    (bytes : ledger.counters.liveBytes - releasing + requested < wordLimit) :
    ∀ limit ∈ ledger.config.byteLimit,
      ledger.counters.liveBytes - releasing + requested ≤ limit := by
  intro limit limited
  rw [Option.mem_def] at limited
  by_contra exceeds
  have beyond : limit < Word.addSaturating (ledger.counters.liveBytes - releasing) requested := by
    have last : maxWord + 1 = wordLimit := rfl
    unfold Word.addSaturating
    omega
  simp only [excess?, limited, Word.subtract, if_pos held, bind, Except.bind, pure, Except.pure,
    gt_iff_lt, if_pos beyond] at passed
  cases passed

end Ledger

namespace Process

variable {before after : Process} {manager : Manager} {heap : Heap} {ledger : Ledger}

/-- The later process has this heap, and the manager this ledger. Nothing else is different, and no
manager has begun or ended. -/
structure Turns (before after : Process) (manager : Manager) (heap : Heap) (ledger : Ledger) :
    Prop where
  rest : ∃ ledgers, after = { before with heap, ledgers }
  ledgers : ∀ other : Manager,
    other.ledgerIn after = if manager = other then ledger else other.ledgerIn before
  standing : ∀ id : Nat, (after.ledgers[id]?).isSome = (before.ledgers[id]?).isSome

/-- Something other than a warning was printed. Nothing else is different. -/
def Remarks (before after : Process) : Prop :=
  ∃ journal, before.journal.Quiet journal ∧ after = { before with journal }

theorem Turns.heap_eq (turns : before.Turns after manager heap ledger) : after.heap = heap := by
  obtain ⟨ledgers, rfl⟩ := turns.rest
  rfl

theorem turns_tracked (heap : Heap) (ledger : Ledger)
    (tracked : (manager.ledgerIn before).isTracked = true) :
    before.Turns { before with
      heap, ledgers := before.ledgers.modify manager.id fun _ => ledger } manager heap ledger where
  rest := ⟨_, rfl⟩
  ledgers := ledgerIn_modify heap ledger tracked
  standing id := by
    by_cases same : id = manager.id
    · rw [same, modify_here, Option.isSome_map]
    · rw [modify_elsewhere _ _ same]

theorem turns_raw (heap : Heap) :
    before.Turns { before with heap } manager heap (manager.ledgerIn before) where
  rest := ⟨_, rfl⟩
  ledgers other := by
    split
    · rename_i same
      rw [same]
      rfl
    · rfl
  standing _ := rfl

theorem Turns.listed {id : Nat} (turns : before.Turns after manager heap ledger)
    (there : (before.ledgers[id]?).isSome) :
    after.ledgers[id]? = some (({ id } : Manager).ledgerIn after) := by
  rw [← turns.standing] at there
  obtain ⟨stored, found⟩ := Option.isSome_iff_exists.mp there
  rw [Manager.ledgerIn, Std.TreeMap.getD_eq_getD_getElem?, found, Option.getD_some]

theorem Remarks.refl (process : Process) : process.Remarks process :=
  ⟨process.journal, .refl _, rfl⟩

theorem remarks_log (process : Process) {level : Level} (other : level ≠ .warn) (target : String)
    (text : Unit → String) :
    process.Remarks { process with journal := process.journal.log level target text } :=
  ⟨_, Journal.quiet_log _ other target text, rfl⟩

theorem Remarks.heap_eq (remarks : before.Remarks after) : after.heap = before.heap := by
  obtain ⟨journal, -, rfl⟩ := remarks
  rfl

theorem Remarks.ledgerIn_eq (remarks : before.Remarks after) (manager : Manager) :
    manager.ledgerIn after = manager.ledgerIn before := by
  obtain ⟨journal, -, rfl⟩ := remarks
  rfl

theorem Remarks.evolves (remarks : before.Remarks after) (sound : before.Sound) :
    before.Evolves after [] := by
  obtain ⟨journal, -, rfl⟩ := remarks
  exact evolves_journal sound journal

/-- An error left the object like this and did nothing to the process but print. -/
def Declines {O : Type} (process : Process) (object : O) (failure : Failure)
    (after : O × Process) : Prop :=
  ∀ cause, failure = .error cause → after.1 = object ∧ process.Remarks after.2

section Declines

variable {O P : Type} {process : Process} {object : O} {failure : Failure}

theorem declines_self (failure : Failure) : process.Declines object failure (object, process) :=
  fun _ _ => ⟨rfl, .refl process⟩

theorem declines_fault (fault : Fault) (after : O × Process) :
    process.Declines object (.fault fault) after := by
  intro _ same
  cases same

theorem Declines.exists_eq {after : O × Process} (declines : process.Declines object failure after)
    {cause : MemoryError} (same : failure = .error cause) :
    ∃ later, process.Remarks later ∧ after = (object, later) := by
  obtain ⟨left, remarks⟩ := declines cause same
  exact ⟨after.2, remarks, Prod.ext left rfl⟩

theorem Declines.within {after : O × Process} (declines : process.Declines object failure after)
    (whole : O → P) : process.Declines (whole object) failure (whole after.1, after.2) := by
  intro cause same
  obtain ⟨left, remarks⟩ := declines cause same
  exact ⟨congrArg whole left, remarks⟩

end Declines

end Process

namespace Manager

variable {manager : Manager} {process : Process}

theorem Holds.ledger_raw {address size : Nat} {after : Process}
    (present : ∃ block, after.heap.find? address = some block ∧ block.size = size ∧
      block.owner = some manager.id)
    (raw : (manager.ledgerIn after).isTracked = false) : manager.Holds after address size where
  present := present
  recorded tracked := absurd (raw.symm.trans tracked) Bool.false_ne_true

theorem excess_total {ledger : Ledger} {releasing : Nat} (requested : Nat)
    (bytes : releasing ≤ ledger.counters.liveBytes) :
    ∃ excess, ledger.excess? releasing requested = .ok excess := by
  unfold Ledger.excess?
  cases ledger.config.byteLimit with
  | none => exact ⟨none, rfl⟩
  | some limit =>
      rw [Word.subtract, if_pos bytes]
      exact ⟨_, rfl⟩

theorem checkBudget_ends {releasing : Nat} (requested : Nat)
    (bytes : releasing ≤ (manager.ledgerIn process).counters.liveBytes) :
    Ends (manager.checkBudget releasing requested) process
      (fun _ after => after = process ∧
        (manager.ledgerIn process).excess? releasing requested = .ok none)
      fun failure after => failure = .error (.outOfMemory requested) ∧ process.Remarks after := by
  rcases excess_total requested bytes with ⟨excess, total⟩
  simp only [checkBudget, Action.ends_bind, ends_ledger, Action.ends_liftFault, total]
  cases excess with
  | none => exact ⟨rfl, rfl⟩
  | some pair =>
      simp only [Action.ends_bind, Process.ends_log, Action.ends_fail]
      exact ⟨trivial, Process.remarks_log process (by decide) _ _⟩

theorem ends_readHeader {done : Layout → Process → Prop} {failed : Failure → Process → Prop}
    {address : Nat} {block : Block} (found : process.heap.find? address = some block) :
    Ends (readHeader address) process done failed ↔ done block.header process := by
  rw [readHeader, Action.ends_bind, Action.ends_get]
  simp only [found]
  rfl

theorem readHeader_stays (address : Nat) :
    Ends (readHeader address) process (fun _ after => after = process)
      fun _ after => after = process := by
  rw [readHeader, Action.ends_bind, Action.ends_get]
  split <;> rfl

theorem blockAt_stays (base : Nat) (layout : Layout) :
    Ends (System.blockAt base layout) process (fun _ after => after = process)
      fun _ after => after = process := by
  rw [System.blockAt, Action.ends_bind, Action.ends_get]
  split
  · split <;> rfl
  · rfl

theorem ends_finishBlock {done : Nat → Process → Prop} {failed : Failure → Process → Prop}
    {base : Nat} {payload : Layout} {block : Block}
    (found : process.heap.find? (base + headerOffset payload.align) = some block) :
    Ends (finishBlock base payload) process done failed ↔
      done (base + headerOffset payload.align) { process with
        heap := process.heap.writeHeader (base + headerOffset payload.align) payload } := by
  rw [finishBlock, Action.ends_bind, Action.ends_get]
  simp only [found]
  rfl

theorem place_ends {payload whole : Layout} (sound : process.Sound)
    (power : isPowerOfTwo payload.align = true) (framed : payload.framed = .ok whole) :
    Ends (place payload whole) process
      (fun address after =>
        process.heap.find? address = none ∧ after.heap.Sound ∧
          after = { process with heap := process.heap.placed address payload })
      fun failure after => failure = .error (.outOfMemory payload.size) ∧
        process.Remarks after := by
  rw [Layout.framed_eq framed]
  simp only [place, System.allocate, Action.ends_bind, Action.ends_get]
  cases found : process.allocator.place process.heap payload.whole with
  | none =>
      simp only [Action.ends_bind, Action.ends_pure, Process.ends_log, Action.ends_fail]
      exact ⟨trivial, Process.remarks_log process (by decide) _ _⟩
  | some base =>
      have offset : headerOffset payload.whole.align = headerOffset payload.align :=
        headerOffset_headerOffset _
      have fits := sound.lawful.place _ _ _ sound.heap (isPowerOfTwo_headerOffset power) found
      have heapSound := Heap.sound_placed sound.heap fits (Layout.words_of_framed framed).2
      simp only [Action.ends_bind, Process.ends_updateHeap, Action.ends_pure, offset]
      rw [ends_finishBlock (by rw [Heap.find?_insert, if_pos rfl])]
      exact ⟨fits.fresh, heapSound, rfl⟩

@[simp] theorem ends_whenTracked {done : Unit → Process → Prop} {failed : Failure → Process → Prop}
    (x : Action Process Unit) :
    Ends (manager.whenTracked x) process done failed ↔
      if (manager.ledgerIn process).isTracked then Ends x process done failed
      else done () process := by
  simp only [whenTracked, Action.ends_bind, ends_ledger]
  split <;> rfl

@[simp] theorem ends_enter {done : Unit → Process → Prop} {failed : Failure → Process → Prop}
    (entry : Ledger → Ledger × Option Fault) :
    Ends (manager.enter entry) process done failed ↔
      match entry (manager.ledgerIn process) with
      | (ledger, none) => done () { process with
          ledgers := process.ledgers.modify manager.id fun _ => ledger }
      | (ledger, some cause) => failed (.fault cause) { process with
          ledgers := process.ledgers.modify manager.id fun _ => ledger } := by
  simp only [enter, Action.ends_bind, ends_ledger, ends_setLedger]
  rcases entry (manager.ledgerIn process) with ⟨ledger, _ | cause⟩ <;> rfl

structure HandsOut (manager : Manager) (before after : Process) (payload : Layout)
    (address : Nat) : Prop where
  power : isPowerOfTwo payload.align = true
  words : payload.size < wordLimit ∧ payload.align < wordLimit
  fresh : before.heap.find? address = none
  turns : before.Turns after manager (before.heap.handed address payload manager.id)
    ((manager.ledgerIn before).acquired address payload.size)
  evolves : before.Evolves after []
  countable : ¬ (manager.ledgerIn before).Exhausted
  within : (manager.ledgerIn before).isTracked = true →
    ∀ limit ∈ (manager.ledgerIn before).config.byteLimit,
      (manager.ledgerIn before).counters.liveBytes + payload.size ≤ limit

/-- A request for a new block failed: no block is aligned that way, there is no memory left, or the
system found room for a block that cannot be counted any more. -/
def Refuses (manager : Manager) (before : Process) (align : Nat) (failure : Failure)
    (after : Process) : Prop :=
  (isPowerOfTwo align = false ∧ failure = .error (.invalidAlignment align) ∨
      ∃ requested, failure = .error (.outOfMemory requested)) ∧ before.Remarks after ∨
    failure = .fault (.overflow .add) ∧ (manager.ledgerIn before).Exhausted ∧
      before.Evolves after [] ∧ isPowerOfTwo align = true ∧
        ∃ address size, before.heap.find? address = none ∧ align < wordLimit ∧
          before.Turns after manager (before.heap.placed address { size, align })
            ((manager.ledgerIn before).astray address size)

theorem refuses_memory (requested align : Nat) {after : Process} (remarks : process.Remarks after) :
    manager.Refuses process align (.error (.outOfMemory requested)) after :=
  .inl ⟨.inr ⟨requested, rfl⟩, remarks⟩

theorem Refuses.declines {O : Type} {align : Nat} {failure : Failure} {after : Process}
    (refused : manager.Refuses process align failure after) (object : O) :
    process.Declines object failure (object, after) := by
  intro cause same
  rcases refused with ⟨-, remarks⟩ | ⟨fault, -⟩
  · exact ⟨rfl, remarks⟩
  · rw [fault] at same
    cases same

section Placed

variable {payload : Layout} {address : Nat} (sound : process.Sound)
  (power : isPowerOfTwo payload.align = true)
  (words : payload.size < wordLimit ∧ payload.align < wordLimit)
  (fresh : process.heap.find? address = none)
  (heapSound : (process.heap.placed address payload).Sound)
include sound power words fresh heapSound

theorem handsOut_tracked (tracked : (manager.ledgerIn process).isTracked = true)
    (passed : (manager.ledgerIn process).excess? 0 payload.size = .ok none)
    (room : (manager.ledgerIn process).counters.totalAllocations + 1 < wordLimit) :
    manager.HandsOut process { process with
      heap := process.heap.handed address payload manager.id
      ledgers := process.ledgers.modify manager.id fun _ =>
        (manager.ledgerIn process).withBlock address payload.size } payload address := by
  have agrees := sound.ledgers manager tracked
  have handedSound : (process.heap.handed address payload manager.id).Sound :=
    Heap.sound_give heapSound address manager.id
  have kept (a : Nat) (block : Block) (found : process.heap.find? a = some block) :
      (process.heap.handed address payload manager.id).find? a = some block :=
    Heap.find?_handed_of_some payload manager.id fresh found
  have agreesThere := agrees.acquired fresh
    ⟨_, by rw [Heap.find?_handed, if_pos rfl], Block.size_issued _ _, rfl⟩ kept
  have after : (manager.ledgerIn process).acquired address payload.size =
      (manager.ledgerIn process).withBlock address payload.size := if_pos tracked
  exact
    { power := power
      words := words
      fresh := fresh
      turns := by
        rw [after]
        exact Process.turns_tracked _ _ tracked
      evolves := Process.evolves_tracked sound handedSound (fun a block _ => kept a block)
        (fun _ _ gone => absurd gone List.not_mem_nil) tracked agreesThere rfl
        fun _ _ _ recorded => agrees.live_withBlock fresh recorded
      countable := fun full => absurd room (Nat.not_lt.mpr full.2)
      within := fun _ => Ledger.within_of_excess (Nat.zero_le _) passed
        (agreesThere.liveBytes_lt handedSound) }

theorem handsOut_raw (raw : ¬ (manager.ledgerIn process).isTracked = true) :
    manager.HandsOut process { process with
      heap := process.heap.handed address payload manager.id } payload address := by
  have after : (manager.ledgerIn process).acquired address payload.size =
      manager.ledgerIn process := if_neg raw
  exact
    { power := power
      words := words
      fresh := fresh
      turns := by
        rw [after]
        exact Process.turns_raw _
      evolves := Process.evolves_grown sound (Heap.sound_give heapSound address manager.id)
        fun _ _ found => Heap.find?_handed_of_some payload manager.id fresh found
      countable := fun full => raw full.1
      within := fun tracked => absurd tracked raw }

theorem refuses_astray (tracked : (manager.ledgerIn process).isTracked = true)
    (full : wordLimit ≤ (manager.ledgerIn process).counters.totalAllocations + 1) :
    manager.Refuses process payload.align (.fault (.overflow .add)) { process with
      heap := process.heap.placed address payload
      ledgers := process.ledgers.modify manager.id fun _ =>
        (manager.ledgerIn process).astray address payload.size } := by
  have agrees := sound.ledgers manager tracked
  have kept (a : Nat) (block : Block) (found : process.heap.find? a = some block) :
      (process.heap.placed address payload).find? a = some block :=
    Heap.find?_placed_of_some payload fresh found
  have stray : ((manager.ledgerIn process).astray address payload.size).Agrees manager.id
      (process.heap.placed address payload) :=
    agrees.astray fresh rfl rfl full
      ⟨_, by rw [Heap.find?_placed, if_pos rfl], Block.size_fresh _, Block.owner_fresh _⟩ kept
  refine .inr ⟨rfl, ⟨tracked, full⟩, ?_, power, address, payload.size, fresh, words.2,
    Process.turns_tracked _ _ tracked⟩
  apply Process.evolves_tracked sound heapSound (fun a block _ => kept a block)
    (fun _ _ gone => absurd gone List.not_mem_nil) tracked stray rfl
  intro a size _ recorded
  exact agrees.live_withBlock fresh recorded

theorem handsOut_of_placed
    (passed : (manager.ledgerIn process).isTracked = true →
      (manager.ledgerIn process).excess? 0 payload.size = .ok none) :
    Ends (manager.whenTracked (manager.enter fun ledger => ledger.acquire address payload.size))
      { process with heap := process.heap.placed address payload }
      (fun _ after => manager.HandsOut process { after with
        heap := after.heap.give address manager.id } payload address)
      fun failure after => (manager.ledgerIn process).Exhausted ∧
        manager.Refuses process payload.align failure after := by
  rw [ends_whenTracked]
  split
  · rename_i tracked
    have entered : (manager.ledgerIn { process with
        heap := process.heap.placed address payload }).acquire address payload.size = _ :=
      (sound.ledgers manager tracked).acquire_eq fresh
        ⟨_, by rw [Heap.find?_handed, if_pos rfl], Block.size_issued _ _, rfl⟩
        (fun _ _ found => Heap.find?_handed_of_some payload manager.id fresh found)
        (Heap.sound_give heapSound address manager.id)
    rw [ends_enter, entered]
    by_cases room : (manager.ledgerIn process).counters.totalAllocations + 1 < wordLimit
    · rw [if_pos room]
      exact handsOut_tracked sound power words fresh heapSound tracked (passed tracked) room
    · have full := Nat.le_of_not_lt room
      rw [if_neg room]
      exact ⟨⟨tracked, full⟩,
        refuses_astray sound power words fresh heapSound tracked full⟩
  · rename_i raw
    exact handsOut_raw sound power words fresh heapSound raw

end Placed

theorem allocate_effect (payload : Layout) (sound : process.Sound) :
    Ends (manager.allocate payload) process
      (fun address after => manager.HandsOut process after payload address)
      fun failure after => manager.Refuses process payload.align failure after := by
  rw [allocate, Action.ends_bind, Action.ends_require]
  split
  · rename_i power
    have budget : Ends (manager.whenTracked (manager.checkBudget 0 payload.size)) process
        (fun _ after => after = process ∧ ((manager.ledgerIn process).isTracked = true →
          (manager.ledgerIn process).excess? 0 payload.size = .ok none))
        fun failure after => manager.Refuses process payload.align failure after := by
      rw [ends_whenTracked]
      split
      · exact (checkBudget_ends payload.size (Nat.zero_le _)).mono
          (fun _ _ passed => ⟨passed.1, fun _ => passed.2⟩)
          fun _ _ refused => refused.1 ▸ refuses_memory _ _ refused.2
      · rename_i raw
        exact ⟨rfl, fun tracked => absurd tracked raw⟩
    apply budget.bind (fun _ _ refused => refused)
    intro _ _ passed
    rcases passed with ⟨rfl, passed⟩
    rw [Action.ends_bind, Action.ends_liftError]
    cases framed : payload.framed with
    | error cause =>
        rw [Layout.framed_error framed]
        exact refuses_memory _ _ (.refl _)
    | ok whole =>
        apply (place_ends sound power framed).bind
        · intro failure after refused
          exact refused.1 ▸ refuses_memory _ _ refused.2
        · intro address _ ends
          rcases ends with ⟨fresh, heapSound, rfl⟩
          apply (handsOut_of_placed sound power (Layout.words_of_framed framed) fresh heapSound
            passed).bind (fun _ _ refused => refused.2)
          intro _ after handed
          rw [Action.ends_bind, Process.ends_updateHeap, Action.ends_pure]
          exact handed
  · rename_i odd
    exact .inl ⟨.inl ⟨eq_false_of_ne_true odd, rfl⟩, .refl _⟩

theorem ends_allocateArray {done : Nat → Process → Prop} {failed : Failure → Process → Prop}
    (element : Layout) (count : Nat) :
    Ends (manager.allocateArray element count) process done failed ↔
      if element.size * count < wordLimit then
        Ends (manager.allocate { size := element.size * count, align := element.align }) process
          done failed
      else failed (.error (.outOfMemory maxWord)) process := by
  rw [allocateArray, Action.ends_bind, Action.ends_liftError, Layout.arrayBytes_eq_ite]
  by_cases fits : element.size * count < wordLimit
  · rw [if_pos fits, if_pos fits]
  · rw [if_neg fits, if_neg fits]

theorem allocateArray_effect (element : Layout) (count : Nat) (sound : process.Sound) :
    Ends (manager.allocateArray element count) process
      (fun address after => manager.HandsOut process after
        { size := element.size * count, align := element.align } address)
      fun failure after => manager.Refuses process element.align failure after := by
  rw [ends_allocateArray]
  split
  · exact allocate_effect { size := element.size * count, align := element.align } sound
  · exact refuses_memory _ _ (.refl _)

/-- What a caller is told whose address is not that of a live block, or whose size is not that of
the block. -/
def complaint (manager : Manager) (process : Process) (call : BlockCall) (address : Nat)
    (claimed : Option Nat) : Failure :=
  if (manager.ledgerIn process).isTracked then
    match (manager.ledgerIn process).live[address]? with
    | none => .fault (.unownedBlock call address)
    | some recorded => .fault (.sizeMismatch recorded (claimed.getD recorded))
  else .refused .undefinedUnderRaw

structure Rejects (manager : Manager) (process : Process) (call : BlockCall) (address : Nat)
    (claimed : Option Nat) (failure : Failure) : Prop where
  unheld : ∀ size, (∀ s ∈ claimed, s = size) → ¬ manager.Holds process address size
  told : failure = manager.complaint process call address claimed

structure TakesBack (manager : Manager) (before after : Process) (address size : Nat) : Prop where
  holds : manager.Holds before address size
  turns : before.Turns after manager (before.heap.erase address)
    ((manager.ledgerIn before).released address size)
  evolves : before.Evolves after [address]

structure Moves (manager : Manager) (before after : Process) (address : Nat) (block : Block)
    (newAddress newSize : Nat) : Prop where
  found : before.heap.find? address = some block
  holds : manager.Holds before address block.size
  fresh : (before.heap.erase address).find? newAddress = none
  word : newSize < wordLimit
  turns : before.Turns after manager (before.heap.moved address newAddress block newSize)
    ((manager.ledgerIn before).resized address block.size newAddress newSize)
  evolves : before.Evolves after [address]
  countable : ¬ (0 < newSize ∧ (manager.ledgerIn before).Exhausted)
  within : (manager.ledgerIn before).isTracked = true →
    ∀ limit ∈ (manager.ledgerIn before).config.byteLimit,
      (manager.ledgerIn before).counters.liveBytes - block.size + newSize ≤ limit

/-- Resizing a live block failed: it was turned down, or the system moved the block, and only this
one, and then the move could not be counted any more. -/
def Leaves (manager : Manager) (before : Process) (address newSize : Nat) (failure : Failure)
    (after : Process) : Prop :=
  (∃ requested, failure = .error (.outOfMemory requested)) ∧ before.Remarks after ∨
    failure = .fault (.overflow .add) ∧ 0 < newSize ∧ (manager.ledgerIn before).Exhausted ∧
      ∀ a block, a ≠ address → before.heap.find? a = some block → after.heap.find? a = some block

/-- What a tracked manager has recorded for the address is a block that it handed out. -/
def Given (manager : Manager) (process : Process) (address : Nat) : Prop :=
  (manager.ledgerIn process).isTracked = true → ∀ size : Nat,
    (manager.ledgerIn process).live[address]? = some size → manager.Holds process address size

theorem Holds.owned {address size : Nat} (holds : manager.Holds process address size) (a : Nat)
    (block : Block) (here : a ∈ [address]) (found : process.heap.find? a = some block) :
    block.owner = some manager.id := by
  obtain ⟨held, present, -, owner⟩ := holds.present
  rw [List.mem_singleton.mp here, present] at found
  cases found
  exact owner

theorem Holds.given {address size : Nat} (holds : manager.Holds process address size) :
    manager.Given process address := by
  intro tracked other recorded
  rw [holds.recorded tracked] at recorded
  cases recorded
  exact holds

theorem Holds.lists {address size : Nat} (holds : manager.Holds process address size)
    (tracked : (manager.ledgerIn process).isTracked = true) :
    (manager.ledgerIn process).Lists manager.id process.heap address size := by
  obtain ⟨block, found, -, owner⟩ := holds.present
  exact ⟨holds.recorded tracked, block, found, owner⟩

/-- As long as allocations can be counted, nothing else is recorded. -/
theorem given_of_countable (sound : process.Sound)
    (countable : ¬ (manager.ledgerIn process).Exhausted) (address : Nat) :
    manager.Given process address := by
  intro tracked size recorded
  have agrees := sound.ledgers manager tracked
  have room : (manager.ledgerIn process).counters.totalAllocations + 1 < wordLimit :=
    Nat.lt_of_not_le fun full => countable ⟨tracked, full⟩
  exact ⟨agrees.listed (agrees.lists room recorded), fun _ => recorded⟩

/-- Nor is anything else recorded for a block that has been given to somebody. -/
theorem given_of_owned {address : Nat} (sound : process.Sound)
    (owned : ∀ block ∈ process.heap.find? address, block.owner ≠ none) :
    manager.Given process address := by
  intro tracked size recorded
  obtain ⟨block, found, sized, own | ⟨none, -⟩⟩ :=
    (sound.ledgers manager tracked).placed address size recorded
  · exact ⟨⟨block, found, sized, own⟩, fun _ => recorded⟩
  · exact absurd none (owned block found)

theorem Holds.size_eq {address size other : Nat} (holds : manager.Holds process address size)
    (also : manager.Holds process address other) : size = other := by
  obtain ⟨block, found, rfl, -⟩ := holds.present
  obtain ⟨block', found', rfl, -⟩ := also.present
  rw [found] at found'
  cases found'
  rfl

theorem recordedSize_effect (call : BlockCall) (address : Nat) (claimed : Option Nat)
    (given : manager.Given process address)
    (tracked : (manager.ledgerIn process).isTracked = true) :
    Ends (manager.recordedSize call address) process
      (fun size after => after = process ∧ manager.Holds process address size)
      fun failure after => after = process ∧
        manager.Rejects process call address claimed failure := by
  simp only [recordedSize, Action.ends_bind, ends_ledger]
  cases recorded : (manager.ledgerIn process).live[address]? with
  | some size => exact ⟨rfl, given tracked size recorded⟩
  | none =>
      refine ⟨rfl, ?_, ?_⟩
      · intro size _ holds
        have known := holds.recorded tracked
        rw [recorded] at known
        cases known
      · rw [complaint, if_pos tracked, recorded]

theorem checkPromise_effect (call : BlockCall) (address : Nat) (claimed : Option Nat)
    (raw : (manager.ledgerIn process).isTracked = false) :
    Ends (manager.checkPromise address claimed) process
      (fun _ after => after = process ∧
        ∃ size, manager.Holds process address size ∧ ∀ s ∈ claimed, s = size)
      fun failure after => after = process ∧
        manager.Rejects process call address claimed failure := by
  have told : (.refused .undefinedUnderRaw : Failure) =
      manager.complaint process call address claimed := by
    rw [complaint, raw]
    rfl
  simp only [checkPromise, Action.ends_bind, ends_ledger, raw, Bool.false_eq_true, if_false,
    Action.ends_get]
  cases found : process.heap.find? address with
  | none =>
      refine ⟨rfl, ?_, told⟩
      intro size _ holds
      obtain ⟨block, present, -⟩ := holds.present
      rw [found] at present
      cases present
  | some block =>
      dsimp only
      split
      · rename_i kept
        refine ⟨rfl, block.size, .ledger_raw ⟨block, found, rfl, kept.1⟩ raw, ?_⟩
        intro s member
        rw [Option.mem_def] at member
        simpa [member] using kept.2
      · rename_i broken
        refine ⟨rfl, ?_, told⟩
        intro size right holds
        obtain ⟨block', present, sized, owner⟩ := holds.present
        rw [found] at present
        cases present
        refine broken ⟨owner, ?_⟩
        cases claimed with
        | none => rfl
        | some s => simpa [sized] using right s rfl

theorem base_add {address : Nat} {block : Block} (heap : process.heap.Sound)
    (found : process.heap.find? address = some block) :
    address - headerOffset block.align + headerOffset (headerOffset block.align) = address := by
  have front := (heap.headed address block found).front_eq
  have header := heap.header address block found
  rw [headerOffset_headerOffset, ← front, Nat.sub_add_cancel header]

/-- The system takes a block back with the layout that it gave it with. -/
theorem ends_giveBack (process : Process) {done : Unit → Process → Prop}
    {failed : Failure → Process → Prop} {address : Nat} {block : Block}
    (heap : process.heap.Sound) (found : process.heap.find? address = some block) :
    Ends (giveBack address) process done failed ↔
      done () { process with heap := process.heap.erase address } := by
  have base : address - headerOffset block.header.align +
      headerOffset block.header.whole.align = address := base_add heap found
  have headed : block.layout = block.header.whole := heap.headed address block found
  rw [giveBack, Action.ends_bind, ends_readHeader found, System.deallocate, Action.ends_bind,
    System.blockAt, Action.ends_bind, Action.ends_get, base]
  simp only [found]
  rw [if_pos headed]
  rfl

theorem free_effect (address : Nat) (sound : process.Sound)
    (given : manager.Given process address) :
    Ends (manager.free address) process
      (fun _ after => ∃ size, manager.TakesBack process after address size)
      fun failure after => after = process ∧
        manager.Rejects process .free address none failure := by
  have kept : ∀ a block, a ∉ [address] → process.heap.find? a = some block →
      (process.heap.erase address).find? a = some block := fun a block different found =>
    (Heap.find?_erase_of_ne (fun same => different (List.mem_singleton.mpr same))).trans found
  have heapSound := Heap.sound_erase sound.heap address
  rw [free, strikeOut]
  simp only [Action.ends_bind, ends_ledger]
  cases tracked : (manager.ledgerIn process).isTracked with
  | true =>
      simp only [if_true, Action.ends_bind]
      apply (recordedSize_effect .free address none given tracked).mono ?_ fun _ _ failed => failed
      intro size after ends
      obtain ⟨same, holds⟩ := ends
      rw [same]
      obtain ⟨block, found, -⟩ := holds.present
      obtain ⟨released, agrees⟩ := Ledger.release_agrees (sound.ledgers manager tracked)
        (holds.lists tracked) sound.heap fun a block different => kept a block (by simpa using different)
      have ledger : (manager.ledgerIn process).released address size =
          (manager.ledgerIn process).withoutBlock address size := if_pos tracked
      rw [ends_enter, released]
      dsimp only
      have struck : { process with ledgers := process.ledgers.modify manager.id fun _ =>
          (manager.ledgerIn process).withoutBlock address size }.heap.Sound := sound.heap
      rw [ends_giveBack _ struck found]
      refine ⟨size, holds, ?_, ?_⟩
      · rw [ledger]
        exact Process.turns_tracked _ _ tracked
      · apply Process.evolves_tracked sound heapSound kept holds.owned tracked agrees rfl
        intro a s different recordedThere
        rw [Ledger.live_withoutBlock_of_ne (by simpa using different), recordedThere]
  | false =>
      simp only [Bool.false_eq_true, if_false]
      apply (checkPromise_effect .free address none tracked).mono ?_ fun _ _ failed => failed
      intro _ after ends
      obtain ⟨same, size, holds, -⟩ := ends
      rw [same]
      obtain ⟨block, found, -⟩ := holds.present
      have ledger : (manager.ledgerIn process).released address size =
          manager.ledgerIn process := by
        rw [Ledger.released, tracked]
        rfl
      rw [ends_giveBack process sound.heap found]
      refine ⟨size, holds, ?_, Process.evolves_raw sound heapSound kept holds.owned tracked⟩
      rw [ledger]
      exact Process.turns_raw _

theorem checkResize_effect (address oldSize newSize : Nat) (sound : process.Sound)
    (given : manager.Given process address) :
    Ends (manager.checkResize address oldSize newSize) process
      (fun _ after => after = process ∧ manager.Holds process address oldSize ∧
        ((manager.ledgerIn process).isTracked = true →
          (manager.ledgerIn process).excess? oldSize newSize = .ok none))
      fun failure after =>
        after = process ∧
          manager.Rejects process .reallocate address (some oldSize) failure ∨
        manager.Holds process address oldSize ∧
          manager.Leaves process address newSize failure after := by
  simp only [checkResize, Action.ends_bind, ends_ledger]
  cases tracked : (manager.ledgerIn process).isTracked with
  | true =>
      simp only [if_true, Action.ends_bind]
      apply (recordedSize_effect .reallocate address (some oldSize) given tracked).mono ?_
        fun _ _ failed => .inl failed
      intro recorded after ends
      obtain ⟨same, holds⟩ := ends
      rw [same]
      have known := holds.recorded tracked
      by_cases right : recorded = oldSize
      · subst right
        rw [if_pos rfl]
        apply (checkBudget_ends newSize
          ((sound.ledgers manager tracked).size_le (holds.lists tracked))).mono
        · intro _ _ passed
          exact ⟨passed.1, holds, fun _ => passed.2⟩
        · intro _ _ refused
          exact .inr ⟨holds, .inl ⟨⟨_, refused.1⟩, refused.2⟩⟩
      · rw [if_neg right]
        refine .inl ⟨rfl, ?_, ?_⟩
        · intro size claimed also
          exact right ((holds.size_eq also).trans (claimed oldSize rfl).symm)
        · rw [complaint, if_pos tracked, known]
          rfl
  | false =>
      simp only [Bool.false_eq_true, if_false]
      apply (checkPromise_effect .reallocate address (some oldSize) tracked).mono ?_
        fun _ _ failed => .inl failed
      intro _ _ ends
      rcases ends with ⟨rfl, size, holds, right⟩
      cases right oldSize rfl
      exact ⟨rfl, holds, False.elim⟩

theorem ends_systemReallocate {done : Option Nat → Process → Prop}
    {failed : Failure → Process → Prop} {address : Nat} {block : Block} (size : Nat)
    (heap : process.heap.Sound) (found : process.heap.find? address = some block) :
    Ends (System.reallocate (address - headerOffset block.align) block.header.whole size) process
        done failed ↔
      match process.allocator.move process.heap (address - headerOffset block.align)
        block.header.whole size with
      | none => done none process
      | some newBase => done (some newBase) { process with
          heap := (process.heap.erase address).insert (newBase + block.front)
            (block.stretch size) } := by
  have headed := heap.headed address block found
  have given : block.layout = block.header.whole := headed
  have base : address - headerOffset block.align + headerOffset block.header.whole.align =
      address := base_add heap found
  have offset : headerOffset block.header.whole.align = block.front := by
    rw [headed.front_eq]
    exact headerOffset_headerOffset _
  simp only [System.reallocate, System.blockAt, Action.ends_bind, Action.ends_get, base, found]
  rw [if_pos given]
  simp only [Action.ends_pure]
  cases process.allocator.move process.heap (address - headerOffset block.align)
      block.header.whole size with
  | none => rfl
  | some newBase =>
      simp only [Action.ends_bind, Process.ends_updateHeap, Action.ends_pure, offset]

theorem relocate_effect {address newSize : Nat} {block : Block} {newWhole : Layout}
    (sound : process.Sound) (found : process.heap.find? address = some block)
    (power : isPowerOfTwo block.align = true)
    (framed : Layout.framed { size := newSize, align := block.align } = .ok newWhole) :
    Ends (relocate address block.header.whole { size := newSize, align := block.align } newWhole)
      process
      (fun newAddress after =>
        (process.heap.erase address).find? newAddress = none ∧ after.heap.Sound ∧
          after = { process with heap := process.heap.moved address newAddress block newSize })
      fun failure after => failure = .error (.outOfMemory newSize) ∧ process.Remarks after := by
  have base : address - headerOffset block.align + headerOffset block.header.whole.align =
      address := base_add sound.heap found
  have headed := sound.heap.headed address block found
  have front : headerOffset block.align = block.front := headed.front_eq.symm
  have total : (Layout.whole { size := newSize, align := block.align }).size =
      newSize + block.front := by
    rw [← front]
    rfl
  rw [Layout.framed_eq framed, relocate, Action.ends_bind, ends_systemReallocate _ sound.heap found]
  split
  · rw [Action.ends_bind, Process.ends_log, Action.ends_fail]
    exact ⟨rfl, Process.remarks_log process (by decide) _ _⟩
  · rename_i newBase moved
    have fits := sound.lawful.move _ _ block _ _ _ sound.heap (by rw [base, found]) headed
      (isPowerOfTwo_headerOffset power) moved
    rw [base] at fits
    have room : (process.heap.erase address).Fits
        { size := newSize + block.front, align := block.front } newBase := by
      rw [headed.front_eq]
      exact fits
    have fresh : (process.heap.erase address).find? (newBase + block.front) = none := by
      have placed : (process.heap.erase address).Fits
          (Layout.whole { size := newSize, align := block.align }) newBase := fits
      rw [headed.front_eq]
      exact placed.fresh
    dsimp only
    rw [total, ends_finishBlock (by dsimp only; rw [front, Heap.find?_insert, if_pos rfl])]
    simp only [front]
    exact ⟨fresh, Heap.sound_moved sound.heap headed room, rfl⟩

section Relocated

variable {address newAddress newSize : Nat} {block : Block} (sound : process.Sound)
  (found : process.heap.find? address = some block)
  (holds : manager.Holds process address block.size) (word : newSize < wordLimit)
  (fresh : (process.heap.erase address).find? newAddress = none)
  (heapSound : (process.heap.moved address newAddress block newSize).Sound)
include sound found holds word fresh heapSound

theorem moves_tracked (tracked : (manager.ledgerIn process).isTracked = true)
    (passed : (manager.ledgerIn process).excess? block.size newSize = .ok none)
    (room : ¬ (0 < newSize ∧
      wordLimit ≤ (manager.ledgerIn process).counters.totalAllocations + 1))
    (agrees : ((manager.ledgerIn process).withMoved address block.size newAddress newSize).Agrees
      manager.id (process.heap.moved address newAddress block newSize)) :
    manager.Moves process { process with
      heap := process.heap.moved address newAddress block newSize
      ledgers := process.ledgers.modify manager.id fun _ =>
        (manager.ledgerIn process).withMoved address block.size newAddress newSize }
      address block newAddress newSize := by
  have before := sound.ledgers manager tracked
  have ledger : (manager.ledgerIn process).resized address block.size newAddress newSize =
      (manager.ledgerIn process).withMoved address block.size newAddress newSize := if_pos tracked
  exact
    { found := found
      holds := holds
      fresh := fresh
      word := word
      turns := by
        rw [ledger]
        exact Process.turns_tracked _ _ tracked
      evolves := by
        apply Process.evolves_tracked sound heapSound ?_ holds.owned tracked agrees rfl
        · intro a size different recorded
          exact before.live_withMoved fresh (by simpa using different) recorded
        · intro a other different present
          exact Heap.find?_moved_of_ne fresh (by simpa using different) present
      countable := fun full => room ⟨full.1, full.2.2⟩
      within := fun _ => Ledger.within_of_excess (before.size_le (holds.lists tracked)) passed
        (agrees.liveBytes_lt heapSound) }

theorem moves_raw (raw : ¬ (manager.ledgerIn process).isTracked = true) :
    manager.Moves process { process with
      heap := process.heap.moved address newAddress block newSize }
      address block newAddress newSize := by
  have ledger : (manager.ledgerIn process).resized address block.size newAddress newSize =
      manager.ledgerIn process := if_neg raw
  exact
    { found := found
      holds := holds
      fresh := fresh
      word := word
      turns := by
        rw [ledger]
        exact Process.turns_raw _
      evolves := by
        apply Process.evolves_raw sound heapSound ?_ holds.owned
          (eq_false_of_ne_true raw)
        intro a other different present
        exact Heap.find?_moved_of_ne fresh (by simpa using different) present
      countable := fun full => raw full.2.1
      within := fun tracked => absurd tracked raw }

theorem moves_of_relocated (passed : (manager.ledgerIn process).isTracked = true →
      (manager.ledgerIn process).excess? block.size newSize = .ok none) :
    Ends (manager.whenTracked (manager.enter fun ledger =>
        ledger.move address block.size newAddress newSize))
      { process with heap := process.heap.moved address newAddress block newSize }
      (fun _ after => manager.Moves process after address block newAddress newSize)
      fun failure after => failure = .fault (.overflow .add) ∧ 0 < newSize ∧
        (manager.ledgerIn process).Exhausted ∧ ∀ a other, a ≠ address →
          process.heap.find? a = some other → after.heap.find? a = some other := by
  have kept (a : Nat) (other : Block) (different : a ≠ address)
      (present : process.heap.find? a = some other) :
      (process.heap.moved address newAddress block newSize).find? a = some other :=
    Heap.find?_moved_of_ne fresh different present
  rw [ends_whenTracked]
  split
  · rename_i tracked
    have given : ∃ other, (process.heap.moved address newAddress block newSize).find? newAddress =
        some other ∧ other.size = newSize ∧ other.owner = some manager.id :=
      ⟨block.resize newSize, by rw [Heap.find?_moved, if_pos rfl], Block.size_resize _ _,
        (Block.owner_resize _ _).trans
          (holds.owned address block (List.mem_singleton_self _) found)⟩
    rw [ends_enter]
    rcases Ledger.move_agrees (sound.ledgers manager tracked) (holds.lists tracked) sound.heap
        heapSound fresh given kept with ⟨full, fault⟩ | ⟨room, moved, agrees⟩
    · have faults : ((manager.ledgerIn { process with
          heap := process.heap.moved address newAddress block newSize }).move
            address block.size newAddress newSize).2 = some (.overflow .add) := fault
      generalize (manager.ledgerIn { process with
        heap := process.heap.moved address newAddress block newSize }).move
          address block.size newAddress newSize = entered at faults
      obtain ⟨ledger, _⟩ := entered
      cases faults
      exact ⟨rfl, full.1, ⟨tracked, full.2⟩, kept⟩
    · have moves : (manager.ledgerIn { process with
          heap := process.heap.moved address newAddress block newSize }).move
            address block.size newAddress newSize = ((manager.ledgerIn process).withMoved
              address block.size newAddress newSize, none) := moved
      rw [moves]
      exact moves_tracked sound found holds word fresh heapSound tracked (passed tracked) room
        agrees
  · rename_i raw
    exact moves_raw sound found holds word fresh heapSound raw

end Relocated

theorem reallocate_effect (address oldSize newSize : Nat) (sound : process.Sound)
    (given : manager.Given process address)
    (power : ∀ block, process.heap.find? address = some block →
      manager.Holds process address block.size → isPowerOfTwo block.align = true) :
    Ends (manager.reallocate address oldSize newSize) process
      (fun newAddress after => ∃ block, block.size = oldSize ∧
        manager.Moves process after address block newAddress newSize)
      fun failure after =>
        after = process ∧
          manager.Rejects process .reallocate address (some oldSize) failure ∨
        manager.Holds process address oldSize ∧
          manager.Leaves process address newSize failure after := by
  rw [reallocate]
  apply (checkResize_effect address oldSize newSize sound given).bind (fun _ _ failed => failed)
  intro _ after checked
  obtain ⟨same, holds, passed⟩ := checked
  rw [same]
  obtain ⟨block, found, rfl, owner⟩ := holds.present
  have refused (requested : Nat) : manager.Leaves process address newSize
      (.error (.outOfMemory requested)) process := .inl ⟨⟨requested, rfl⟩, .refl process⟩
  have headed := sound.heap.headed address block found
  rw [Action.ends_bind, ends_readHeader found]
  simp only [Action.ends_bind, Action.ends_liftError]
  cases framedBefore : Layout.framed { size := block.size, align := block.header.align } with
  | error cause =>
      rw [Layout.framed_error framedBefore]
      exact .inr ⟨holds, refused _⟩
  | ok whole =>
      dsimp only
      have before : whole = block.header.whole := by
        rw [Layout.framed_eq framedBefore, headed.size_eq]
      cases framed : Layout.framed { size := newSize, align := block.header.align } with
      | error cause =>
          rw [Layout.framed_error framed]
          exact .inr ⟨holds, refused _⟩
      | ok newWhole =>
          rw [before]
          apply (relocate_effect sound found (power block found holds) framed).mono
          · intro newAddress _ ends
            rcases ends with ⟨fresh, heapSound, rfl⟩
            apply (moves_of_relocated sound found holds (Layout.words_of_framed framed).1 fresh
              heapSound passed).mono
            · intro _ _ moves
              exact ⟨block, rfl, moves⟩
            · intro _ _ uncounted
              exact .inr ⟨holds, .inr uncounted⟩
          · intro failure after ends
            exact .inr ⟨holds, .inl ⟨⟨_, ends.1⟩, ends.2⟩⟩

/-- The bytes of an array can be counted before and after its count changes. -/
def Countable (element : Layout) (oldCount newCount : Nat) : Prop :=
  element.size * oldCount < wordLimit ∧ element.size * newCount < wordLimit

instance (element : Layout) (oldCount newCount : Nat) :
    Decidable (Countable element oldCount newCount) :=
  inferInstanceAs (Decidable (_ ∧ _))

/-- The promise of the caller comes before the bytes are counted. -/
theorem ends_reallocateArray {done : Nat → Process → Prop} {failed : Failure → Process → Prop}
    (address : Nat) (element : Layout) (oldCount newCount : Nat) :
    Ends (manager.reallocateArray address element oldCount newCount) process done failed ↔
      Ends (manager.checkPromise address (some (element.size * oldCount))) process
        (fun _ after =>
          if Countable element oldCount newCount then
            Ends (manager.reallocate address (element.size * oldCount) (element.size * newCount))
              after done failed
          else failed (.error (.outOfMemory maxWord)) after)
        failed := by
  simp only [reallocateArray, Action.ends_bind, Action.ends_liftError, Layout.arrayBytes_eq_ite]
  by_cases before : element.size * oldCount < wordLimit
  · by_cases behind : element.size * newCount < wordLimit
    · have countable : Countable element oldCount newCount := ⟨before, behind⟩
      simp only [if_pos before, if_pos behind, if_pos countable]
    · have huge : ¬ Countable element oldCount newCount := fun fits => behind fits.2
      simp only [if_pos before, if_neg behind, if_neg huge]
  · have huge : ¬ Countable element oldCount newCount := fun fits => before fits.1
    simp only [if_neg before, if_neg huge]

theorem reallocateArray_effect (address : Nat) (element : Layout) (oldCount newCount : Nat)
    (sound : process.Sound) (given : manager.Given process address)
    (power : ∀ block, process.heap.find? address = some block →
      manager.Holds process address block.size → isPowerOfTwo block.align = true) :
    Ends (manager.reallocateArray address element oldCount newCount) process
      (fun newAddress after => Countable element oldCount newCount ∧
        ∃ block, block.size = element.size * oldCount ∧
          manager.Moves process after address block newAddress (element.size * newCount))
      fun failure after =>
        after = process ∧ manager.Rejects process .reallocate address
            (some (element.size * oldCount)) failure ∧
          ((manager.ledgerIn process).isTracked = true → Countable element oldCount newCount) ∨
        ¬ Countable element oldCount newCount ∧ failure = .error (.outOfMemory maxWord) ∧
          after = process ∨
        Countable element oldCount newCount ∧
          manager.Holds process address (element.size * oldCount) ∧
            manager.Leaves process address (element.size * newCount) failure after := by
  have promise : Ends (manager.checkPromise address (some (element.size * oldCount))) process
      (fun _ after => after = process) fun failure after => after = process ∧
        manager.Rejects process .reallocate address (some (element.size * oldCount)) failure ∧
          (manager.ledgerIn process).isTracked = false := by
    cases tracked : (manager.ledgerIn process).isTracked with
    | true =>
        simp only [checkPromise, Action.ends_bind, ends_ledger, tracked]
        exact rfl
    | false =>
        exact (checkPromise_effect .reallocate address _ tracked).mono (fun _ _ kept => kept.1)
          fun _ _ broken => ⟨broken.1, broken.2, rfl⟩
  rw [ends_reallocateArray]
  apply promise.mono
  · rintro _ _ rfl
    split
    · rename_i countable
      apply (reallocate_effect address _ _ sound given power).mono
      · intro _ _ moves
        exact ⟨countable, moves⟩
      · intro _ _ failed
        rcases failed with ⟨unchanged, rejects⟩ | ⟨holds, leaves⟩
        · exact .inl ⟨unchanged, rejects, fun _ => countable⟩
        · exact .inr (.inr ⟨countable, holds, leaves⟩)
    · rename_i huge
      exact .inr (.inl ⟨huge, rfl, rfl⟩)
  · intro failure after rejected
    refine .inl ⟨rejected.1, rejected.2.1, ?_⟩
    intro tracked
    exact absurd (rejected.2.2.symm.trans tracked) Bool.false_ne_true

end Manager

end SymbolStore
