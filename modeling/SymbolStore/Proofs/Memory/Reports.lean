import SymbolStore.Proofs.Journal
import SymbolStore.Proofs.Memory.Run

/-!
What a manager prints when there is no memory for a request. The limit and the system say so with
one error each; a size that no layout has, or that no word counts, is turned down without a word.
-/

namespace SymbolStore

open SymbolStore.Action (Ends)

def Failure.LacksMemory (failure : Failure) : Prop :=
  ∃ requested, failure = .error (.outOfMemory requested)

/-- What a manager has printed by the time a request fails: one error, at any level, for a lack of
memory whose report is due, and else nothing. -/
inductive Journal.Reports (journal : Journal) (due : Prop) : Failure → Journal → Prop
  | reported (requested : Nat) (text : String) (why : due) :
    Reports journal due (.error (.outOfMemory requested))
      (journal.print (.message .error Origin.manager.target text))
  | silent (failure : Failure) (quiet : failure.LacksMemory → ¬ due) :
    Reports journal due failure journal

namespace Journal

variable {journal : Journal} {due : Prop}

theorem reports_error (requested : Nat) (text : Unit → String) (why : due) :
    journal.Reports due (.error (.outOfMemory requested))
      (journal.log .error Origin.manager.target text) := by
  rw [log_error]
  exact .reported requested (text ()) why

theorem reports_other {failure : Failure}
    (other : ∀ requested, failure ≠ .error (.outOfMemory requested)) :
    journal.Reports due failure journal := by
  apply Reports.silent
  intro lacks
  obtain ⟨requested, same⟩ := lacks
  exact absurd same (other requested)

end Journal

namespace Layout

def Framable (payload : Layout) : Prop :=
  payload.size + headerOffset payload.align + (headerOffset payload.align - 1) ≤ maxObjectSize

instance (payload : Layout) : Decidable payload.Framable :=
  inferInstanceAs (Decidable (_ ≤ _))

theorem framed_eq_ite (payload : Layout) :
    payload.framed =
      if payload.Framable then .ok payload.whole
      else .error (.outOfMemory payload.size) := by
  simp only [framed, Word.add?]
  by_cases framable : payload.Framable
  · have word : payload.size + headerOffset payload.align < wordLimit :=
      calc
        payload.size + headerOffset payload.align ≤ maxObjectSize :=
          (Nat.le_add_right _ _).trans framable
        _ < wordLimit := by decide
    rw [if_pos framable, if_pos word]
    exact if_pos framable
  · rw [if_neg framable]
    by_cases word : payload.size + headerOffset payload.align < wordLimit
    · rw [if_pos word]
      exact if_neg framable
    · rw [if_neg word]

end Layout

namespace Ledger

/-- The limit of a tracked manager does not allow for so many bytes once others are released. -/
def Exceeds (ledger : Ledger) (releasing requested : Nat) : Prop :=
  ledger.isTracked = true ∧ ∃ limit ∈ ledger.config.byteLimit,
    limit < Word.addSaturating (ledger.counters.liveBytes - releasing) requested

theorem excess?_spec {ledger : Ledger} (tracked : ledger.isTracked = true)
    (releasing requested : Nat) :
    match ledger.excess? releasing requested with
    | .error _ => True
    | .ok none => ¬ ledger.Exceeds releasing requested
    | .ok (some _) => ledger.Exceeds releasing requested := by
  unfold excess? Exceeds
  cases ledger.config.byteLimit with
  | none => simp
  | some limit =>
      unfold Word.subtract
      by_cases held : releasing ≤ ledger.counters.liveBytes
      · simp only [if_pos held]
        by_cases beyond :
            limit < Word.addSaturating (ledger.counters.liveBytes - releasing) requested
        · simpa [beyond, bind, Except.bind, pure, Except.pure] using tracked
        · simp [beyond, bind, Except.bind, pure, Except.pure]
      · simp [held, bind, Except.bind]

end Ledger

namespace Manager

variable {manager : Manager} {process : Process}

def alignAt (process : Process) (address : Nat) : Nat :=
  ((process.heap.find? address).map Block.align).getD blockAlign

/-- When a lack of memory for a new block is reported: the limit does not allow for it, or it has a
layout. -/
def ReportsNew (manager : Manager) (process : Process) (payload : Layout) : Prop :=
  (manager.ledgerIn process).Exceeds 0 payload.size ∨ payload.Framable

/-- When a lack of memory for a resize is reported: the limit does not allow for it, or the block
has a layout before and after. -/
def ReportsResize (manager : Manager) (process : Process) (address oldSize newSize : Nat) : Prop :=
  (manager.ledgerIn process).Exceeds oldSize newSize ∨
    Layout.Framable { size := oldSize, align := alignAt process address } ∧
      Layout.Framable { size := newSize, align := alignAt process address }

/-- When a lack of memory for a request is reported. The bytes of an array have to be a word. -/
def ReportsOn (manager : Manager) (process : Process) : Request → Prop
  | .allocate payload => manager.ReportsNew process payload
  | .allocateArray element count =>
    element.size * count < wordLimit ∧
      manager.ReportsNew process { size := element.size * count, align := element.align }
  | .reallocate address oldSize newSize => manager.ReportsResize process address oldSize newSize
  | .reallocateArray address element oldCount newCount =>
    Countable element oldCount newCount ∧
      manager.ReportsResize process address (element.size * oldCount) (element.size * newCount)
  -- The others ask for no memory.
  | _ => True

theorem checkBudget_reports {releasing requested : Nat} {due : Prop}
    (tracked : (manager.ledgerIn process).isTracked = true)
    (why : (manager.ledgerIn process).Exceeds releasing requested → due) :
    Ends (manager.checkBudget releasing requested) process
      (fun _ after => after = process ∧
        ¬ (manager.ledgerIn process).Exceeds releasing requested)
      fun failure after => process.journal.Reports due failure after.journal := by
  have spec := Ledger.excess?_spec tracked releasing requested
  simp only [checkBudget, Action.ends_bind, ends_ledger, Action.ends_liftFault]
  cases excess : (manager.ledgerIn process).excess? releasing requested with
  | error fault => exact Journal.reports_other (by simp)
  | ok excess? =>
      rw [excess] at spec
      cases excess? with
      | none => exact ⟨rfl, spec⟩
      | some pair =>
          simp only [Action.ends_bind, Process.ends_log, Action.ends_fail]
          exact Journal.reports_error requested _ (why spec)

theorem readHeader_reports (address : Nat) {due : Prop} :
    Ends (readHeader address) process
      (fun payload after => after = process ∧ payload.align = alignAt process address)
      fun failure after => process.journal.Reports due failure after.journal := by
  rw [readHeader, Action.ends_bind, Action.ends_get, alignAt]
  cases process.heap.find? address with
  | none => exact Journal.reports_other (by simp)
  | some block => exact ⟨rfl, rfl⟩

theorem blockAt_reports (base : Nat) (layout : Layout) {due : Prop} :
    Ends (System.blockAt base layout) process (fun _ after => after = process)
      fun failure after => process.journal.Reports due failure after.journal := by
  rw [System.blockAt, Action.ends_bind, Action.ends_get]
  split
  · split
    · rfl
    · exact Journal.reports_other (by simp)
  · exact Journal.reports_other (by simp)

theorem finishBlock_reports (base : Nat) (payload : Layout) {due : Prop} :
    Ends (finishBlock base payload) process (fun _ after => after.journal = process.journal)
      fun failure after => process.journal.Reports due failure after.journal := by
  rw [finishBlock, Action.ends_bind, Action.ends_get]
  split
  · rfl
  · exact Journal.reports_other (by simp)

theorem place_reports (payload whole : Layout) {due : Prop} (why : due) :
    Ends (place payload whole) process (fun _ after => after.journal = process.journal)
      fun failure after => process.journal.Reports due failure after.journal := by
  simp only [place, System.allocate, Action.ends_bind, Action.ends_get]
  cases process.allocator.place process.heap whole with
  | none =>
      simp only [Action.ends_pure, Action.ends_bind, Process.ends_log, Action.ends_fail]
      exact Journal.reports_error payload.size _ why
  | some base =>
      simp only [Action.ends_bind, Process.ends_updateHeap, Action.ends_pure]
      exact finishBlock_reports base payload

theorem relocate_reports (address : Nat) (whole payload newWhole : Layout) {due : Prop}
    (why : due) :
    Ends (relocate address whole payload newWhole) process
      (fun _ after => after.journal = process.journal)
      fun failure after => process.journal.Reports due failure after.journal := by
  rw [relocate, System.reallocate, Action.ends_bind, Action.ends_bind]
  apply (blockAt_reports _ whole).mono ?_ fun _ _ reports => reports
  rintro block _ rfl
  simp only [Action.ends_bind, Action.ends_get]
  split
  · simp only [Action.ends_pure, Action.ends_bind, Process.ends_log, Action.ends_fail]
    exact Journal.reports_error payload.size _ why
  · simp only [Action.ends_bind, Process.ends_updateHeap, Action.ends_pure]
    exact finishBlock_reports _ payload

theorem enter_reports (entry : Ledger → Ledger × Option Fault) {due : Prop} :
    Ends (manager.enter entry) process (fun _ after => after.journal = process.journal)
      fun failure after => process.journal.Reports due failure after.journal := by
  rw [ends_enter]
  split
  · rfl
  · exact Journal.reports_other (by simp)

theorem whenTracked_reports (entry : Ledger → Ledger × Option Fault) {due : Prop} :
    Ends (manager.whenTracked (manager.enter entry)) process
      (fun _ after => after.journal = process.journal)
      fun failure after => process.journal.Reports due failure after.journal := by
  rw [ends_whenTracked]
  split
  · exact enter_reports entry
  · rfl

theorem giveBack_reports (address : Nat) {due : Prop} :
    Ends (giveBack address) process (fun _ after => after.journal = process.journal)
      fun failure after => process.journal.Reports due failure after.journal := by
  apply (readHeader_reports address).bind (fun _ _ reports => reports)
  rintro payload _ ⟨rfl, -⟩
  apply (blockAt_reports _ payload.whole).bind (fun _ _ reports => reports)
  rintro block _ rfl
  rfl

theorem recordedSize_reports (call : BlockCall) (address : Nat) {due : Prop} :
    Ends (manager.recordedSize call address) process (fun _ after => after = process)
      fun failure after => process.journal.Reports due failure after.journal := by
  simp only [recordedSize, Action.ends_bind, ends_ledger]
  cases (manager.ledgerIn process).live[address]? with
  | some size => rfl
  | none => exact Journal.reports_other (by simp)

theorem checkPromise_reports (address : Nat) (size : Option Nat) {due : Prop} :
    Ends (manager.checkPromise address size) process (fun _ after => after = process)
      fun failure after => process.journal.Reports due failure after.journal := by
  simp only [checkPromise, Action.ends_bind, ends_ledger]
  cases (manager.ledgerIn process).isTracked with
  | true => rfl
  | false =>
      simp only [Bool.false_eq_true, if_false, Action.ends_bind, Action.ends_get]
      cases process.heap.find? address with
      | none => exact Journal.reports_other (by simp)
      | some block =>
          dsimp only
          split
          · rfl
          · exact Journal.reports_other (by simp)

theorem strikeOut_reports (address : Nat) {due : Prop} :
    Ends (manager.strikeOut address) process (fun _ after => after.journal = process.journal)
      fun failure after => process.journal.Reports due failure after.journal := by
  simp only [strikeOut, Action.ends_bind, ends_ledger]
  split
  · apply (recordedSize_reports .free address).bind (fun _ _ reports => reports)
    intro size after same
    rw [same]
    exact enter_reports _
  · apply (checkPromise_reports address none).mono ?_ fun _ _ reports => reports
    intro _ after same
    rw [same]

theorem checkResize_reports {oldSize newSize : Nat} {due : Prop} (address : Nat)
    (why : (manager.ledgerIn process).Exceeds oldSize newSize → due) :
    Ends (manager.checkResize address oldSize newSize) process
      (fun _ after => after = process ∧ ¬ (manager.ledgerIn process).Exceeds oldSize newSize)
      fun failure after => process.journal.Reports due failure after.journal := by
  simp only [checkResize, Action.ends_bind, ends_ledger]
  cases tracked : (manager.ledgerIn process).isTracked with
  | true =>
      simp only [if_true, Action.ends_bind]
      apply (recordedSize_reports .reallocate address).mono ?_ fun _ _ failed => failed
      intro recorded after same
      rw [same]
      by_cases right : recorded = oldSize
      · rw [if_pos right]
        exact checkBudget_reports tracked why
      · rw [if_neg right]
        exact Journal.reports_other (by simp)
  | false =>
      simp only [Bool.false_eq_true, if_false]
      apply (checkPromise_reports address (some oldSize)).mono ?_ fun _ _ failed => failed
      intro _ after same
      refine ⟨same, ?_⟩
      intro exceeds
      exact Bool.false_ne_true (tracked.symm.trans exceeds.1)

theorem allocate_reports (payload : Layout) :
    Ends (manager.allocate payload) process
      (fun _ after => after.journal = process.journal)
      fun failure after =>
        process.journal.Reports (manager.ReportsNew process payload) failure after.journal := by
  have budget : Ends (manager.whenTracked (manager.checkBudget 0 payload.size)) process
      (fun _ after => after = process ∧ ¬ (manager.ledgerIn process).Exceeds 0 payload.size)
      fun failure after =>
        process.journal.Reports (manager.ReportsNew process payload) failure after.journal := by
    rw [ends_whenTracked]
    split
    · rename_i tracked
      exact checkBudget_reports tracked .inl
    · rename_i raw
      exact ⟨rfl, fun exceeds => raw exceeds.1⟩
  rw [allocate, Action.ends_bind, Action.ends_require]
  split
  · apply budget.bind (fun _ _ reports => reports)
    intro _ after checked
    obtain ⟨same, within⟩ := checked
    rw [same, Action.ends_bind, Action.ends_liftError, Layout.framed_eq_ite]
    by_cases framable : payload.Framable
    · rw [if_pos framable]
      apply (place_reports payload _ (.inr framable)).bind (fun _ _ reports => reports)
      intro address between same
      rw [Action.ends_bind, ← same]
      exact (whenTracked_reports _).mono (fun _ _ kept => kept) fun _ _ reports => reports
    · rw [if_neg framable]
      exact .silent _ fun _ reports => reports.elim within framable
  · exact Journal.reports_other (by simp)

theorem reallocate_reports (address oldSize newSize : Nat) :
    Ends (manager.reallocate address oldSize newSize) process
      (fun _ after => after.journal = process.journal)
      fun failure after =>
        process.journal.Reports (manager.ReportsResize process address oldSize newSize) failure
          after.journal := by
  rw [reallocate]
  apply (checkResize_reports address .inl).bind (fun _ _ reports => reports)
  intro _ after checked
  obtain ⟨same, within⟩ := checked
  rw [same]
  apply (readHeader_reports address).bind (fun _ _ reports => reports)
  rintro payload _ ⟨unchanged, align⟩
  rw [unchanged]
  simp only [Action.ends_bind, Action.ends_liftError, align, Layout.framed_eq_ite]
  by_cases before : Layout.Framable { size := oldSize, align := alignAt process address }
  · rw [if_pos before]
    dsimp only
    by_cases behind : Layout.Framable { size := newSize, align := alignAt process address }
    · rw [if_pos behind]
      apply (relocate_reports address _ _ _ (.inr ⟨before, behind⟩)).mono ?_
        fun _ _ reports => reports
      intro newAddress between same
      rw [← same]
      exact whenTracked_reports _
    · rw [if_neg behind]
      exact .silent _ fun _ reports => reports.elim within fun frames => behind frames.2
  · rw [if_neg before]
    exact .silent _ fun _ reports => reports.elim within fun frames => before frames.1

theorem allocateArray_reports (element : Layout) (count : Nat) :
    Ends (manager.allocateArray element count) process
      (fun _ after => after.journal = process.journal)
      fun failure after => process.journal.Reports
        (manager.ReportsOn process (.allocateArray element count)) failure after.journal := by
  rw [ends_allocateArray]
  by_cases fits : element.size * count < wordLimit
  · rw [if_pos fits]
    simp only [ReportsOn, fits, true_and]
    exact allocate_reports _
  · rw [if_neg fits]
    exact .silent _ fun _ reports => fits reports.1

theorem reallocateArray_reports (address : Nat) (element : Layout) (oldCount newCount : Nat) :
    Ends (manager.reallocateArray address element oldCount newCount) process
      (fun _ after => after.journal = process.journal)
      fun failure after => process.journal.Reports
        (manager.ReportsOn process (.reallocateArray address element oldCount newCount)) failure
          after.journal := by
  rw [ends_reallocateArray]
  apply (checkPromise_reports address _).mono ?_ fun _ _ reports => reports
  intro _ after same
  rw [same]
  by_cases countable : Countable element oldCount newCount
  · rw [if_pos countable]
    simp only [ReportsOn, countable, true_and]
    exact reallocate_reports address _ _
  · rw [if_neg countable]
    exact .silent _ fun _ reports => countable reports.1

/-- In every state, under every strategy, limit and level, a request for which there is no memory
prints exactly one error if its bytes are a word and the limit does not allow for them or its block
has a layout, and nothing otherwise. A request that succeeds, or fails for another reason, prints
nothing. -/
theorem perform_reports (manager : Manager) (process : Process) (request : Request) :
    Ends (perform request) (manager, process)
      (fun _ after => after.2.journal = process.journal)
      fun failure after =>
        process.journal.Reports (manager.ReportsOn process request) failure after.2.journal := by
  cases request with
  | allocate payload =>
      simp only [perform, Action.ends_bind, Method.ends_self, Method.ends_liftProcess,
        Action.ends_pure]
      exact allocate_reports payload
  | allocateArray element count =>
      simp only [perform, Action.ends_bind, Method.ends_self, Method.ends_liftProcess,
        Action.ends_pure]
      exact allocateArray_reports element count
  | reallocate address oldSize newSize =>
      simp only [perform, Action.ends_bind, Method.ends_self, Method.ends_liftProcess,
        Action.ends_pure]
      exact reallocate_reports address oldSize newSize
  | reallocateArray address element oldCount newCount =>
      simp only [perform, Action.ends_bind, Method.ends_self, Method.ends_liftProcess,
        Action.ends_pure]
      exact reallocateArray_reports address element oldCount newCount
  | free address =>
      simp only [perform, free, Action.ends_bind, Method.ends_self, Method.ends_liftProcess,
        Action.ends_pure]
      apply (strikeOut_reports address).mono ?_ fun _ _ reports => reports
      intro _ middle same
      rw [← same]
      exact giveBack_reports address
  | share =>
      simp only [perform, retain, Action.ends_bind, Method.ends_self, Method.ends_liftProcess,
        ends_ledger, ends_setLedger, Action.ends_pure]
  | part =>
      simp only [perform, Action.ends_bind, Method.ends_self, Method.ends_liftProcess,
        ends_ledger]
      split
      · rename_i several
        simp only [release, Action.ends_bind, Method.ends_liftProcess, ends_ledger, if_pos several,
          ends_setLedger, Action.ends_pure]
      · rfl
  | write address offset values =>
      rw [ends_perform_write]
      cases process.heap.find? address with
      | none => exact Journal.reports_other (by simp)
      | some block =>
          dsimp only
          split
          · rfl
          · exact Journal.reports_other (by simp)

def unlimited : Manager × Process := ({ id := 0 }, ((create .tracked).runFrom {}).2)

/-- Half of all addresses, and an array of words that takes all of them: neither refusal is
reported. -/
theorem great_requests_unreported :
    (perform (.allocate { size := 2 ^ 63, align := blockAlign })).runFrom unlimited =
        (.error (.error (.outOfMemory (2 ^ 63))), unlimited) ∧
      (perform (.allocateArray Layout.word (2 ^ 61))).runFrom unlimited =
        (.error (.error (.outOfMemory maxWord)), unlimited) := by
  have bytes : Layout.arrayBytes Layout.word (2 ^ 61) = .error (.outOfMemory maxWord) := by decide
  constructor
  · rfl
  · simp only [perform, allocateArray, bytes]
    rfl

end Manager

end SymbolStore
