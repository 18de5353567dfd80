import SymbolStore.Proofs.Memory.Run

/-!
Which calls a manager counts. A tracked manager counts each block that it hands out and each resize of
a block to more than nothing, and no call that fails.
-/

namespace SymbolStore

open SymbolStore.Action (Ends)

/-- A calculation that succeeds has first steps that do. -/
theorem exists_of_bind_ok {ε α β : Type} {x : Except ε α} {f : α → Except ε β} {b : β}
    (ran : x >>= f = .ok b) : ∃ a, x = .ok a ∧ f a = .ok b := by
  cases x with
  | error _ => cases ran
  | ok a => exact ⟨a, rfl, ran⟩

namespace Manager

variable {manager : Manager} {process middle after : Process}

/-- Every ledger is an earlier one that has counted no more allocations. Only the one of the manager
has counted so many more, if it is tracked. -/
def Counts (manager : Manager) (more : Nat) (before after : Process) : Prop :=
  ∀ (other : Manager) (ledger : Ledger), after.ledgers[other.id]? = some ledger →
    ∃ earlier, before.ledgers[other.id]? = some earlier ∧ ledger.config = earlier.config ∧
      ledger.counters.totalAllocations = earlier.counters.totalAllocations +
        if other = manager ∧ earlier.isTracked then more else 0

theorem counts_of_ledgers (same : after.ledgers = process.ledgers) :
    manager.Counts 0 process after := by
  intro other ledger present
  rw [same] at present
  exact ⟨ledger, present, rfl, by rw [ite_self, Nat.add_zero]⟩

theorem Counts.of_ledgers {more : Nat} (counts : manager.Counts more middle after)
    (same : middle.ledgers = process.ledgers) : manager.Counts more process after := by
  rw [Counts, same] at counts
  exact counts

theorem Counts.onward {more : Nat} (counts : manager.Counts more process middle)
    (same : after.ledgers = middle.ledgers) : manager.Counts more process after := by
  rw [Counts, same]
  exact counts

theorem modify_cases {other : Manager} {ledger later : Ledger}
    (present : (process.ledgers.modify manager.id fun _ => ledger)[other.id]? = some later) :
    other = manager ∧ later = ledger ∧
        process.ledgers[other.id]? = some (manager.ledgerIn process) ∨
      other ≠ manager ∧ process.ledgers[other.id]? = some later := by
  rw [Std.TreeMap.getElem?_modify] at present
  by_cases same : manager.id = other.id
  · have here : other = manager := (eq_of_id same).symm
    subst here
    rw [if_pos (by simp)] at present
    obtain ⟨earlier, found, rfl⟩ := Option.map_eq_some_iff.mp present
    have own : other.ledgerIn process = earlier := by
      rw [ledgerIn, Std.TreeMap.getD_eq_getD_getElem?, found]
      rfl
    exact .inl ⟨rfl, rfl, own ▸ found⟩
  · rw [if_neg (by simpa using same)] at present
    exact .inr ⟨fun equal => same (congrArg Manager.id equal.symm), present⟩

theorem counts_modify {ledger : Ledger} {more : Nat}
    (config : ledger.config = (manager.ledgerIn process).config)
    (total : ledger.counters.totalAllocations =
      (manager.ledgerIn process).counters.totalAllocations +
        if (manager.ledgerIn process).isTracked then more else 0) :
    manager.Counts more process
      { process with ledgers := process.ledgers.modify manager.id fun _ => ledger } := by
  intro other later present
  rcases modify_cases present with ⟨rfl, rfl, found⟩ | ⟨apart, found⟩
  · exact ⟨_, found, config, by simpa using total⟩
  · exact ⟨later, found, rfl, by rw [if_neg fun both => apart both.1, Nat.add_zero]⟩

/-- An entry that counts so many more allocations, or fails and counts none. -/
def Enters (entry : Ledger → Ledger × Option Fault) (more : Nat) : Prop :=
  ∀ ledger, (entry ledger).1.config = ledger.config ∧
    (entry ledger).1.counters.totalAllocations = ledger.counters.totalAllocations +
      match (entry ledger).2 with
      | none => more
      | some _ => 0

theorem enter_counts {entry : Ledger → Ledger × Option Fault} {more : Nat}
    (enters : Enters entry more) (tracked : (manager.ledgerIn process).isTracked = true) :
    Ends (manager.enter entry) process (fun _ after => manager.Counts more process after)
      fun _ after => manager.Counts 0 process after := by
  obtain ⟨config, total⟩ := enters (manager.ledgerIn process)
  rw [ends_enter]
  rcases entered : entry (manager.ledgerIn process) with ⟨ledger, _ | cause⟩
  · rw [entered] at config total
    exact counts_modify config (by rw [if_pos tracked, total])
  · rw [entered] at config total
    exact counts_modify config (by rw [ite_self, total])

theorem counts_raw (raw : ¬ (manager.ledgerIn process).isTracked = true) (more : Nat) :
    manager.Counts more process process := by
  intro other ledger present
  have apart : ¬ (other = manager ∧ ledger.isTracked = true) := by
    rintro ⟨rfl, tracked⟩
    rw [ledgerIn, Std.TreeMap.getD_eq_getD_getElem?, present] at raw
    exact raw tracked
  exact ⟨ledger, present, rfl, by rw [if_neg apart, Nat.add_zero]⟩

theorem whenTracked_counts {entry : Ledger → Ledger × Option Fault} {more : Nat}
    (enters : Enters entry more) :
    Ends (manager.whenTracked (manager.enter entry)) process
      (fun _ after => manager.Counts more process after)
      fun _ after => manager.Counts 0 process after := by
  rw [ends_whenTracked]
  split
  · rename_i tracked
    exact enter_counts enters tracked
  · rename_i raw
    exact counts_raw raw more

theorem record_counts {counters later : Counters} {released acquired : Nat} {blocks : Int}
    (recorded : counters.record released acquired blocks = .ok later) :
    later.totalAllocations =
      counters.totalAllocations + if 0 < acquired ∨ 0 < blocks then 1 else 0 := by
  obtain ⟨kept, -, recorded⟩ := exists_of_bind_ok recorded
  obtain ⟨bytes, -, recorded⟩ := exists_of_bind_ok recorded
  split at recorded
  · rename_i acquires
    obtain ⟨total, counted, recorded⟩ := exists_of_bind_ok recorded
    cases recorded
    rw [Word.add] at counted
    split at counted
    · rw [if_pos acquires]
      exact (Except.ok.inj counted).symm
    · cases counted
  · rename_i idle
    cases recorded
    rw [if_neg idle]
    rfl

theorem recorded_cases (ledger : Ledger) (released acquired : Nat) (blocks : Int) :
    (∃ counters, ledger.counters.record released acquired blocks = .ok counters ∧
      ledger.recorded released acquired blocks = ({ ledger with counters }, none)) ∨
    ∃ cause, ledger.recorded released acquired blocks = (ledger, some cause) := by
  unfold Ledger.recorded
  cases ledger.counters.record released acquired blocks with
  | ok counters => exact .inl ⟨counters, rfl, rfl⟩
  | error cause => exact .inr ⟨cause, rfl⟩

/-- Whatever an entry does to the live blocks, the counters follow. -/
theorem enters_recorded (live : Ledger → Std.TreeMap Nat Nat) (released acquired : Nat)
    (blocks : Int) :
    Enters (fun ledger => Ledger.recorded { ledger with live := live ledger } released acquired blocks)
      (if 0 < acquired ∨ 0 < blocks then 1 else 0) := by
  intro ledger
  dsimp only
  rcases recorded_cases { ledger with live := live ledger } released acquired blocks with
    ⟨counters, recorded, entered⟩ | ⟨cause, entered⟩
  · rw [entered]
    exact ⟨rfl, record_counts recorded⟩
  · rw [entered]
    exact ⟨rfl, rfl⟩

theorem enters_acquire (address size : Nat) :
    Enters (fun ledger => ledger.acquire address size) 1 := by
  have enters := enters_recorded (fun ledger => ledger.live.insert address size) 0 size 1
  rwa [if_pos (.inr Int.one_pos)] at enters

theorem enters_move (address size newAddress newSize : Nat) :
    Enters (fun ledger => ledger.move address size newAddress newSize)
      (if 0 < newSize then 1 else 0) := by
  have enters := enters_recorded (fun ledger =>
    (ledger.live.erase address).insert newAddress newSize) size newSize 0
  simp only [Int.lt_irrefl, or_false] at enters
  exact enters

theorem enters_release (address size : Nat) :
    Enters (fun ledger => ledger.release address size) 0 :=
  enters_recorded (fun ledger => ledger.live.erase address) size 0 (-1)

section Calls

theorem checkBudget_ledgers (releasing requested : Nat) :
    Ends (manager.checkBudget releasing requested) process
      (fun _ after => after.ledgers = process.ledgers)
      fun _ after => after.ledgers = process.ledgers := by
  rw [checkBudget]
  simp only [Action.ends_bind, ends_ledger, Action.ends_liftFault]
  cases (manager.ledgerIn process).excess? releasing requested with
  | error _ => trivial
  | ok excess => cases excess <;> rfl

theorem checkPromise_ledgers (address : Nat) (size : Option Nat) :
    Ends (manager.checkPromise address size) process
      (fun _ after => after.ledgers = process.ledgers)
      fun _ after => after.ledgers = process.ledgers := by
  simp only [checkPromise, Action.ends_bind, ends_ledger]
  split
  · rfl
  · simp only [Action.ends_bind, Action.ends_get]
    split
    · split <;> rfl
    · rfl

theorem recordedSize_stays (call : BlockCall) (address : Nat) :
    Ends (manager.recordedSize call address) process (fun _ after => after = process)
      fun _ after => after = process := by
  simp only [recordedSize, Action.ends_bind, ends_ledger]
  split <;> rfl

theorem finishBlock_ledgers (base : Nat) (payload : Layout) :
    Ends (finishBlock base payload) process (fun _ after => after.ledgers = process.ledgers)
      fun _ after => after.ledgers = process.ledgers := by
  rw [finishBlock, Action.ends_bind, Action.ends_get]
  split <;> rfl

theorem place_ledgers (payload whole : Layout) :
    Ends (place payload whole) process (fun _ after => after.ledgers = process.ledgers)
      fun _ after => after.ledgers = process.ledgers := by
  simp only [place, System.allocate, Action.ends_bind, Action.ends_get]
  split
  · rfl
  · exact finishBlock_ledgers _ payload

theorem relocate_ledgers (address : Nat) (whole payload newWhole : Layout) :
    Ends (relocate address whole payload newWhole) process
      (fun _ after => after.ledgers = process.ledgers)
      fun _ after => after.ledgers = process.ledgers := by
  rw [relocate, System.reallocate, Action.ends_bind, Action.ends_bind]
  apply (blockAt_stays _ whole).mono ?_ fun _ _ same => congrArg Process.ledgers same
  rintro block _ rfl
  simp only [Action.ends_bind, Action.ends_get]
  split
  · rfl
  · exact finishBlock_ledgers _ payload

theorem giveBack_ledgers (address : Nat) :
    Ends (giveBack address) process (fun _ after => after.ledgers = process.ledgers)
      fun _ after => after.ledgers = process.ledgers := by
  apply (readHeader_stays address).bind fun _ _ same => congrArg Process.ledgers same
  rintro payload _ rfl
  apply (blockAt_stays _ payload.whole).bind fun _ _ same => congrArg Process.ledgers same
  rintro block _ rfl
  rfl

theorem allocate_counts (payload : Layout) :
    Ends (manager.allocate payload) process (fun _ after => manager.Counts 1 process after)
      fun _ after => manager.Counts 0 process after := by
  have budget : Ends (manager.whenTracked (manager.checkBudget 0 payload.size)) process
      (fun _ after => after.ledgers = process.ledgers)
      fun _ after => after.ledgers = process.ledgers := by
    rw [ends_whenTracked]
    split
    · exact checkBudget_ledgers 0 payload.size
    · rfl
  rw [allocate, Action.ends_bind, Action.ends_require]
  split
  · apply budget.bind fun _ _ => counts_of_ledgers
    intro _ checked same
    rw [Action.ends_bind, Action.ends_liftError]
    split
    · rename_i whole _
      apply (place_ledgers payload whole).bind fun _ _ kept => counts_of_ledgers (kept.trans same)
      intro address placed kept
      apply (whenTracked_counts (enters_acquire address payload.size)).bind
      · exact fun _ _ uncounted => uncounted.of_ledgers (kept.trans same)
      · exact fun _ _ counts => counts.of_ledgers (kept.trans same)
    · exact counts_of_ledgers same
  · exact counts_of_ledgers rfl

theorem free_counts (address : Nat) :
    Ends (manager.free address) process (fun _ after => manager.Counts 0 process after)
      fun _ after => manager.Counts 0 process after := by
  have struck : Ends (manager.strikeOut address) process
      (fun _ after => manager.Counts 0 process after)
      fun _ after => manager.Counts 0 process after := by
    rw [strikeOut, Action.ends_bind, ends_ledger]
    split
    · rename_i tracked
      apply (recordedSize_stays .free address).bind
        fun _ _ same => counts_of_ledgers (congrArg Process.ledgers same)
      rintro size _ rfl
      exact enter_counts (enters_release address size) tracked
    · exact (checkPromise_ledgers address none).mono (fun _ _ => counts_of_ledgers)
        fun _ _ => counts_of_ledgers
  apply struck.bind fun _ _ counts => counts
  intro _ middle counts
  exact (giveBack_ledgers address).mono (fun _ _ same => counts.onward same)
    fun _ _ same => counts.onward same

theorem reallocate_counts (address oldSize newSize : Nat) :
    Ends (manager.reallocate address oldSize newSize) process
      (fun _ after => manager.Counts (if 0 < newSize then 1 else 0) process after)
      fun _ after => manager.Counts 0 process after := by
  have checked : Ends (manager.checkResize address oldSize newSize) process
      (fun _ after => after.ledgers = process.ledgers)
      fun _ after => after.ledgers = process.ledgers := by
    rw [checkResize, Action.ends_bind, ends_ledger]
    split
    · apply (recordedSize_stays .reallocate address).bind
        fun _ _ same => congrArg Process.ledgers same
      rintro recorded _ rfl
      split
      · exact checkBudget_ledgers oldSize newSize
      · exact rfl
    · exact checkPromise_ledgers address (some oldSize)
  rw [reallocate]
  apply checked.bind fun _ _ => counts_of_ledgers
  intro _ before same
  apply (readHeader_stays address).bind
    fun _ _ kept => counts_of_ledgers ((congrArg Process.ledgers kept).trans same)
  rintro header _ rfl
  simp only [Action.ends_bind, Action.ends_liftError]
  split
  · split
    · rename_i whole _ _ newWhole _
      apply (relocate_ledgers address whole { size := newSize, align := header.align } newWhole).mono
        ?_ fun _ _ kept => counts_of_ledgers (kept.trans same)
      intro newAddress moved kept
      apply (whenTracked_counts (enters_move address oldSize newAddress newSize)).mono
      · exact fun _ _ counts => counts.of_ledgers (kept.trans same)
      · exact fun _ _ uncounted => uncounted.of_ledgers (kept.trans same)
    · exact counts_of_ledgers same
  · exact counts_of_ledgers same

theorem allocateArray_counts (element : Layout) (count : Nat) :
    Ends (manager.allocateArray element count) process
      (fun _ after => manager.Counts 1 process after)
      fun _ after => manager.Counts 0 process after := by
  rw [ends_allocateArray]
  split
  · exact allocate_counts _
  · exact counts_of_ledgers rfl

theorem reallocateArray_counts (address : Nat) (element : Layout) (oldCount newCount : Nat) :
    Ends (manager.reallocateArray address element oldCount newCount) process
      (fun _ after => manager.Counts (if 0 < element.size * newCount then 1 else 0) process after)
      fun _ after => manager.Counts 0 process after := by
  rw [ends_reallocateArray]
  apply (checkPromise_ledgers address _).mono ?_ fun _ _ => counts_of_ledgers
  intro _ before same
  split
  · apply (reallocate_counts address _ _).mono
    · exact fun _ _ counts => counts.of_ledgers same
    · exact fun _ _ uncounted => uncounted.of_ledgers same
  · exact counts_of_ledgers same

end Calls

namespace Request

theorem obtains_of_empties {request : Request} (empties : request.empties = true) :
    request.obtains = true := by
  cases request with
  | reallocate | reallocateArray => rfl
  | allocate | allocateArray | free | share | part | write => cases empties

end Request

/-- A call that succeeds is counted unless it asks for no memory or empties a block. A call that fails
is not. -/
theorem perform_counts (request : Request) :
    Ends (perform request) (manager, process)
      (fun _ after => manager.Counts request.weight process after.2)
      fun _ after => manager.Counts 0 process after.2 := by
  cases request with
  | allocate payload =>
      rw [ends_perform_allocate]
      exact allocate_counts payload
  | allocateArray element count =>
      rw [ends_perform_allocateArray]
      exact allocateArray_counts element count
  | reallocate address oldSize newSize =>
      rw [ends_perform_reallocate, Request.weight_reallocate]
      exact reallocate_counts address oldSize newSize
  | reallocateArray address element oldCount newCount =>
      rw [ends_perform_reallocateArray, Request.weight_reallocateArray]
      exact reallocateArray_counts address element oldCount newCount
  | free address =>
      rw [ends_perform_free]
      exact free_counts address
  | share =>
      have weight : Request.share.weight = 0 := rfl
      rw [ends_perform_share, weight]
      exact counts_modify rfl (by simp)
  | part =>
      have weight : Request.part.weight = 0 := rfl
      rw [ends_perform_part, weight]
      split
      · exact counts_modify rfl (by simp)
      · exact counts_of_ledgers rfl
  | write address offset values =>
      rw [ends_perform_write]
      cases process.heap.find? address with
      | none => exact counts_of_ledgers rfl
      | some block =>
          dsimp only
          split <;> exact counts_of_ledgers rfl

end Manager

end SymbolStore
