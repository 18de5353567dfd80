import SymbolStore.Proofs.Twin.Mirrors
import SymbolStore.Proofs.Twin.Structures

/-! What managers do in a process in which they are raw and in its mirror in which they are tracked. -/

namespace SymbolStore

open SymbolStore.Action (Ends Lockstep Respects)

variable {bound room : Nat} {p q p' q' : Process} {manager : Manager}

namespace Manager

variable {process : Process}

theorem runFrom_whenTracked_raw (raw : (manager.ledgerIn process).isTracked = false)
    (x : Action Process Unit) : (manager.whenTracked x).runFrom process = (.ok (), process) := by
  rw [whenTracked, Action.runFrom_bind, runFrom_ledger]
  dsimp only
  rw [raw]
  rfl

theorem runFrom_whenTracked_tracked (tracked : (manager.ledgerIn process).isTracked = true)
    (x : Action Process Unit) : (manager.whenTracked x).runFrom process = x.runFrom process := by
  rw [whenTracked, Action.runFrom_bind, runFrom_ledger]
  dsimp only
  rw [tracked]
  rfl

theorem runFrom_checkBudget (unlimited : (manager.ledgerIn process).config.byteLimit = none)
    (releasing requested : Nat) :
    (manager.checkBudget releasing requested).runFrom process = (.ok (), process) := by
  simp only [checkBudget, Action.runFrom_bind, runFrom_ledger, Action.runFrom_liftFault,
    Ledger.excess?, unlimited, Except.mapError, Action.runFrom_pure]

theorem runFrom_recordedSize {call : BlockCall} {address size : Nat}
    (recorded : (manager.ledgerIn process).live[address]? = some size) :
    (manager.recordedSize call address).runFrom process = (.ok size, process) := by
  simp only [recordedSize, Action.runFrom_bind, runFrom_ledger, recorded, Action.runFrom_pure]

theorem log_mirrors {level : Level} (origin : Origin) (text : Unit → String)
    (other : level ≠ .warn) :
    Respects Failure.isBrokenPromise (Process.Mirrors bound) 0 (Process.log level origin text) :=
  fun room _ _ mirrors =>
    .last (by rfl) (by rfl) ⟨rfl, room, Nat.le_refl _, mirrors.logged other origin.target text⟩

theorem budget_passed (manager : Manager) (mirrors : Process.Mirrors bound room p q)
    (releasing requested : Nat) :
    (manager.whenTracked (manager.checkBudget releasing requested)).runFrom p = (.ok (), p) ∧
      (manager.whenTracked (manager.checkBudget releasing requested)).runFrom q = (.ok (), q) := by
  refine ⟨runFrom_whenTracked_raw (mirrors.isTracked_raw manager) _, ?_⟩
  cases tracked : (manager.ledgerIn q).isTracked with
  | false => exact runFrom_whenTracked_raw tracked _
  | true =>
      rw [runFrom_whenTracked_tracked tracked]
      exact runFrom_checkBudget (mirrors.byteLimit manager) _ _

def SaysFull (p q p' q' : Process) : Prop :=
  ∃ text, p' = { p with journal := p.journal.log .error Origin.manager.target text } ∧
    q' = { q with journal := q.journal.log .error Origin.manager.target text }

theorem SaysFull.mirrors (both : SaysFull p q p' q') (mirrors : Process.Mirrors bound room p q) :
    Process.Mirrors bound room p' q' := by
  obtain ⟨text, rfl, rfl⟩ := both
  exact mirrors.logged (by decide) _ _

theorem place_lockstep {payload whole : Layout} (heap : q.heap = p.heap)
    (allocator : q.allocator = p.allocator) (framed : payload.framed = .ok whole) :
    Lockstep (fun failure _ => failure.isBrokenPromise) (fun _ _ => False) (place payload whole)
      (place payload whole) p q (fun a b _ _ => b = a) fun _ => SaysFull p q := by
  rw [Layout.framed_eq framed, place]
  have offset : headerOffset payload.whole.align = headerOffset payload.align :=
    headerOffset_headerOffset _
  cases found : p.allocator.place p.heap payload.whole with
  | none =>
      have refused (process : Process) (same : process.heap = p.heap)
          (system : process.allocator = p.allocator) :
          (System.allocate payload.whole).runFrom process = (.ok none, process) := by
        apply Ends.runFrom_eq
        simp only [System.allocate, Action.ends_bind, Action.ends_get, same, system, found]
        exact ⟨rfl, rfl⟩
      refine .step (refused p rfl rfl) (refused q heap allocator) ?_
      exact .step (by rfl) (by rfl) (Action.lockstep_fail ⟨_, rfl, rfl⟩)
  | some base =>
      have obtained (process : Process) (same : process.heap = p.heap)
          (system : process.allocator = p.allocator) :
          (System.allocate payload.whole).runFrom process = (.ok (some base), { process with
            heap := process.heap.insert (base + headerOffset payload.align)
              { layout := payload.whole } }) := by
        have room : process.allocator.place process.heap payload.whole = some base := by
          rw [same, system, found]
        apply Ends.runFrom_eq
        simp only [System.allocate, Action.ends_bind, Action.ends_get, room,
          Process.ends_updateHeap, Action.ends_pure, offset]
        exact ⟨trivial, trivial⟩
      have finished (process : Process) : (finishBlock base payload).runFrom { process with
          heap := process.heap.insert (base + headerOffset payload.align)
            { layout := payload.whole } } = (.ok (base + headerOffset payload.align), _) :=
        Ends.runFrom_eq ((ends_finishBlock (by rw [Heap.find?_insert, if_pos rfl])).mpr ⟨rfl, rfl⟩)
      refine .step (obtained p rfl rfl) (obtained q heap allocator) ?_
      exact .last (finished p) (finished q) rfl

theorem relocate_lockstep {address newSize : Nat} {block : Block} {newWhole : Layout}
    (heap : q.heap = p.heap) (allocator : q.allocator = p.allocator) (sound : p.heap.Sound)
    (found : p.heap.find? address = some block) :
    Lockstep (fun failure _ => failure.isBrokenPromise) (fun _ _ => False)
      (relocate address block.header.whole { size := newSize, align := block.align } newWhole)
      (relocate address block.header.whole { size := newSize, align := block.align } newWhole) p q
      (fun a b _ _ => b = a) fun _ => SaysFull p q := by
  have front := (sound.headed address block found).front_eq
  rw [relocate]
  cases moved : p.allocator.move p.heap (address - headerOffset block.align) block.header.whole
      newWhole.size with
  | none =>
      have refused (process : Process) (same : process.heap = p.heap)
          (system : process.allocator = p.allocator) :
          (System.reallocate (address - headerOffset block.align) block.header.whole
            newWhole.size).runFrom process = (.ok none, process) := by
        apply Ends.runFrom_eq
        rw [ends_systemReallocate _ (same ▸ sound) (same ▸ found), same, system, moved]
        exact ⟨rfl, rfl⟩
      refine .step (refused p rfl rfl) (refused q heap allocator) ?_
      exact .step (by rfl) (by rfl) (Action.lockstep_fail ⟨_, rfl, rfl⟩)
  | some newBase =>
      have obtained (process : Process) (same : process.heap = p.heap)
          (system : process.allocator = p.allocator) :
          (System.reallocate (address - headerOffset block.align) block.header.whole
            newWhole.size).runFrom process = (.ok (some newBase), { process with
              heap := (process.heap.erase address).insert (newBase + block.front)
                (block.stretch newWhole.size) }) := by
        apply Ends.runFrom_eq
        rw [ends_systemReallocate _ (same ▸ sound) (same ▸ found), same, system, moved]
        exact ⟨rfl, rfl⟩
      have finished (process : Process) :
          (finishBlock newBase { size := newSize, align := block.align }).runFrom { process with
            heap := (process.heap.erase address).insert (newBase + block.front)
              (block.stretch newWhole.size) } = (.ok (newBase + headerOffset block.align), _) :=
        Ends.runFrom_eq ((ends_finishBlock
          (by dsimp only; rw [← front, Heap.find?_insert, if_pos rfl])).mpr ⟨rfl, rfl⟩)
      refine .step (obtained p rfl rfl) (obtained q heap allocator) ?_
      exact .last (finished p) (finished q) rfl

theorem HandsOut.mirrors {payload : Layout} {address : Nat}
    (here : manager.HandsOut p p' payload address) (there : manager.HandsOut q q' payload address)
    (known : manager.id < bound) (mirrors : Process.Mirrors bound (room + 1) p q) :
    Process.Mirrors bound room p' q' := by
  have turns := here.turns
  have turns' := there.turns
  rw [Ledger.acquired, mirrors.isTracked_raw manager, if_neg Bool.false_ne_true] at turns
  rw [mirrors.heap] at turns'
  refine mirrors.turned (Nat.le_succ room) turns turns' there.evolves.sound (fun both => ?_) ?_
  · rw [Ledger.acquired, if_pos both.isTracked]
    refine ⟨both.strategy, both.counters, both.config, both.holders, ?_, ?_⟩
    · intro a block found own
      rw [Heap.find?_handed] at found
      rw [Ledger.live_withBlock]
      split at found
      · rename_i same
        cases found
        rw [if_pos same, Block.size_issued]
      · rename_i different
        rw [if_neg different]
        exact both.recorded a block found own
    · have countable := both.countable
      show (manager.ledgerIn q).counters.totalAllocations + 1 + room + 1 < wordLimit
      omega
  · intro a block found
    rw [Heap.find?_handed] at found
    split at found
    · cases found
      have power : isPowerOfTwo (Block.issued payload manager.id).align = true := by
        rw [Block.align_issued here.words]
        exact here.power
      exact .inr ⟨rfl, Nat.lt_of_lt_of_le known mirrors.reached, power⟩
    · exact .inl found

theorem TakesBack.mirrors {address size size' : Nat}
    (here : manager.TakesBack p p' address size) (there : manager.TakesBack q q' address size')
    (mirrors : Process.Mirrors bound room p q) : Process.Mirrors bound room p' q' := by
  have turns := here.turns
  have turns' := there.turns
  rw [Ledger.released, mirrors.isTracked_raw manager, if_neg Bool.false_ne_true] at turns
  rw [mirrors.heap] at turns'
  have origin : ∀ a block, (p.heap.erase address).find? a = some block →
      address ≠ a ∧ p.heap.find? a = some block := by
    intro a block found
    rw [Heap.find?_erase] at found
    split at found
    · cases found
    · exact ⟨‹_›, found⟩
  refine mirrors.turned (Nat.le_refl room) turns turns' there.evolves.sound (fun both => ?_)
    fun a block found => .inl (origin a block found).2
  rw [Ledger.released, if_pos both.isTracked]
  refine ⟨both.strategy, both.counters, both.config, both.holders, ?_, both.countable⟩
  intro a block found own
  obtain ⟨different, before⟩ := origin a block found
  rw [Ledger.live_withoutBlock, if_neg different]
  exact both.recorded a block before own

theorem Moves.mirrors {address newAddress newSize : Nat} {block : Block}
    (here : manager.Moves p p' address block newAddress newSize)
    (there : manager.Moves q q' address block newAddress newSize)
    (mirrors : Process.Mirrors bound (room + 1) p q) : Process.Mirrors bound room p' q' := by
  have turns := here.turns
  have turns' := there.turns
  rw [Ledger.resized, mirrors.isTracked_raw manager, if_neg Bool.false_ne_true] at turns
  rw [mirrors.heap] at turns'
  have owned : block.owner = some manager.id := by
    obtain ⟨other, found, -, own⟩ := here.holds.present
    rw [here.found] at found
    cases found
    exact own
  have origin : ∀ a other, (p.heap.moved address newAddress block newSize).find? a = some other →
      newAddress = a ∧ other = block.resize newSize ∨
        newAddress ≠ a ∧ address ≠ a ∧ p.heap.find? a = some other := by
    intro a other found
    rw [Heap.find?_moved] at found
    split at found
    · cases found
      exact .inl ⟨‹_›, rfl⟩
    · split at found
      · cases found
      · exact .inr ⟨‹_›, ‹_›, found⟩
  refine mirrors.turned (Nat.le_succ room) turns turns' there.evolves.sound (fun both => ?_) ?_
  · rw [Ledger.resized, if_pos both.isTracked]
    refine ⟨both.strategy, both.counters, both.config, both.holders, ?_, ?_⟩
    · intro a other found own
      rw [Ledger.live_withMoved]
      rcases origin a other found with ⟨same, rfl⟩ | ⟨unmoved, different, old⟩
      · rw [if_pos same, Block.size_resize]
      · rw [if_neg unmoved, if_neg different]
        exact both.recorded a other old own
    · have countable := both.countable
      show (if 0 < newSize then _ else _) + room + 1 < wordLimit
      split <;> omega
  · intro a other found
    rcases origin a other found with ⟨-, rfl⟩ | ⟨-, -, old⟩
    · refine .inr ⟨(Block.owner_resize _ _).trans owned, ?_, ?_⟩
      · exact mirrors.owners address block _ here.found owned
      · rw [Block.align_resize here.word]
        exact mirrors.aligned address block here.found
    · exact .inl old

theorem store_mirrors (place : Pointer) (values : List UInt8) :
    Respects Failure.isBrokenPromise (Process.Mirrors bound) 0 (Process.store place values) := by
  intro room p q mirrors
  rw [Process.store]
  refine .step (by rfl) (by rfl) ?_
  rw [mirrors.heap]
  split
  · exact .last (by rfl) (by rfl) ⟨rfl, room, Nat.le_refl _, mirrors.written place values⟩
  · exact Action.lockstep_throw ⟨room, Nat.le_refl _, mirrors⟩

theorem allocate_mirrors (payload : Layout) (known : manager.id < bound) :
    Respects Failure.isBrokenPromise (Process.Mirrors bound) 1 (manager.allocate payload) := by
  intro room p q mirrors
  have left : ∃ left, room ≤ left ∧ Process.Mirrors bound left p q :=
    ⟨room + 1, Nat.le_add_right _ _, mirrors⟩
  rw [allocate]
  refine .require left fun power => ?_
  obtain ⟨passed, passed'⟩ := budget_passed manager mirrors 0 payload.size
  refine .step passed passed' ?_
  refine .ofError (fun _ => left) fun whole framed => ?_
  apply ((place_lockstep mirrors.heap mirrors.allocator framed).and
    (place_ends mirrors.sound_raw power framed) (place_ends mirrors.sound power framed)).bind
  · rintro failure s t ⟨both, -⟩
    exact ⟨room + 1, Nat.le_add_right _ _, both.mirrors mirrors⟩
  rintro address _ _ _ ⟨rfl, ⟨fresh, heapSound, rfl⟩, fresh', heapSound', rfl⟩
  have words := Layout.words_of_framed framed
  -- The budget has let the request pass, so that both managers hand out the block that was found.
  have excess (process : Process) (unlimited : (manager.ledgerIn process).config.byteLimit = none) :
      (manager.ledgerIn process).excess? 0 payload.size = .ok none := by
    rw [Ledger.excess?, unlimited]
  have here := (handsOut_of_placed mirrors.sound_raw power words fresh heapSound fun tracked =>
      absurd ((mirrors.isTracked_raw manager).symm.trans tracked) Bool.false_ne_true).mono
    (fun _ _ handed => handed) fun _ _ refused => mirrors.not_exhausted_raw manager refused.1
  have there := (handsOut_of_placed mirrors.sound power words fresh' heapSound' fun _ =>
      excess q (mirrors.byteLimit manager)).mono
    (fun _ _ handed => handed) fun _ _ refused => mirrors.not_exhausted manager refused.1
  apply (Action.lockstep_of_ends here there fun _ _ _ _ => And.intro).bind fun _ _ _ => False.elim
  rintro _ _ s t ⟨handed, handed'⟩
  refine .step (by rfl) (by rfl) (.last (by rfl) (by rfl) ⟨rfl, room, Nat.le_refl _, ?_⟩)
  exact handed.mirrors handed' known mirrors

theorem free_mirrors (address : Nat) :
    Respects Failure.isBrokenPromise (Process.Mirrors bound) 0 (manager.free address) := by
  intro room p q mirrors
  have given : manager.Given p address :=
    given_of_countable mirrors.sound_raw (mirrors.not_exhausted_raw manager) address
  have given' : manager.Given q address :=
    given_of_countable mirrors.sound (mirrors.not_exhausted manager) address
  refine Ends.mono (free_effect address mirrors.sound_raw given) ?_ ?_
  · rintro _ _ ⟨size, taken⟩
    refine (free_effect address mirrors.sound given').mono ?_ ?_
    · rintro _ _ ⟨_, taken'⟩
      exact ⟨rfl, room, Nat.le_refl _, taken.mirrors taken' mirrors⟩
    · rintro _ _ ⟨-, rejects⟩
      exact rejects.unheld size nofun (mirrors.holds taken.holds)
  · rintro failure _ ⟨-, rejects⟩
    left
    show failure = .refused .undefinedUnderRaw
    rw [rejects.told, complaint, mirrors.isTracked_raw manager]
    rfl

/-- A caller either does not keep a promise, or names a live block. -/
theorem promise_cases (manager : Manager) (mirrors : Process.Mirrors bound room p q) (address : Nat)
    (size : Option Nat) :
    (manager.checkPromise address size).runFrom p = (.error (.refused .undefinedUnderRaw), p) ∨
      (manager.checkPromise address size).runFrom p = (.ok (), p) ∧
        ∃ block, q.heap.find? address = some block ∧ block.owner = some manager.id ∧
          (∀ s ∈ size, s = block.size) ∧
          (manager.checkPromise address size).runFrom q = (.ok (), q) := by
  have raw := mirrors.isTracked_raw manager
  have asked (process : Process) (untracked : (manager.ledgerIn process).isTracked = false) :
      (manager.checkPromise address size).runFrom process =
        if (process.heap.find? address).any fun block =>
            block.owner = some manager.id ∧ size.all (· = block.size) then (.ok (), process)
        else (.error (.refused .undefinedUnderRaw), process) := by
    rw [checkPromise, Action.runFrom_bind, runFrom_ledger]
    dsimp only
    rw [untracked, if_neg Bool.false_ne_true, Action.runFrom_bind, Action.runFrom_get]
    dsimp only
    cases process.heap.find? address with
    | none => rfl
    | some block =>
        simp only [Option.any_some, decide_eq_true_eq]
        split <;> rfl
  rw [asked p raw]
  cases found : p.heap.find? address with
  | none => exact .inl rfl
  | some block =>
      simp only [Option.any_some, decide_eq_true_eq]
      by_cases promised : block.owner = some manager.id ∧ size.all (· = block.size) = true
      · refine .inr ⟨if_pos promised, block, mirrors.heap ▸ found, promised.1, ?_, ?_⟩
        · intro s some
          rw [Option.mem_def] at some
          simpa [some] using promised.2
        · cases tracked : (manager.ledgerIn q).isTracked with
          | true =>
              rw [checkPromise, Action.runFrom_bind, runFrom_ledger]
              dsimp only
              rw [tracked]
              rfl
          | false =>
              rw [asked q tracked, mirrors.heap, found]
              simp only [Option.any_some, decide_eq_true_eq]
              exact if_pos promised
      · exact .inl (if_neg promised)

theorem checkResize_mirrors (manager : Manager) (address oldSize newSize : Nat)
    (mirrors : Process.Mirrors bound room p q) :
    (manager.checkResize address oldSize newSize).runFrom p =
        (.error (.refused .undefinedUnderRaw), p) ∨
      (manager.checkResize address oldSize newSize).runFrom p = (.ok (), p) ∧
        (manager.checkResize address oldSize newSize).runFrom q = (.ok (), q) ∧
          ∃ block, q.heap.find? address = some block ∧ block.owner = some manager.id ∧
            oldSize = block.size := by
  have asked (process : Process) (untracked : (manager.ledgerIn process).isTracked = false) :
      (manager.checkResize address oldSize newSize).runFrom process =
        (manager.checkPromise address (some oldSize)).runFrom process := by
    rw [checkResize, Action.runFrom_bind, runFrom_ledger]
    dsimp only
    rw [untracked]
    rfl
  rw [asked p (mirrors.isTracked_raw manager)]
  refine (promise_cases manager mirrors address (some oldSize)).imp_right ?_
  rintro ⟨kept, block, found, own, sized, promised⟩
  have size : oldSize = block.size := sized oldSize rfl
  refine ⟨kept, ?_, block, found, own, size⟩
  cases tracked : (manager.ledgerIn q).isTracked with
  | false => exact (asked q tracked).trans promised
  | true =>
      rcases mirrors.ledgers manager with ⟨-, -, closed⟩ | ⟨-, both⟩
      · rw [closed] at tracked
        cases tracked
      · have recorded := both.recorded address block (mirrors.heap ▸ found) own
        rw [checkResize, Action.runFrom_bind, runFrom_ledger]
        dsimp only
        rw [tracked]
        show ((manager.recordedSize .reallocate address >>= fun recorded => _).runFrom q) = _
        rw [Action.runFrom_bind, runFrom_recordedSize recorded]
        dsimp only
        rw [if_pos size.symm]
        exact runFrom_checkBudget (mirrors.byteLimit manager) _ _

theorem reallocate_mirrors (address oldSize newSize : Nat) :
    Respects Failure.isBrokenPromise (Process.Mirrors bound) 1
      (manager.reallocate address oldSize newSize) := by
  intro room p q mirrors
  have left : ∃ left, room ≤ left ∧ Process.Mirrors bound left p q :=
    ⟨room + 1, Nat.le_add_right _ _, mirrors⟩
  rw [reallocate]
  rcases checkResize_mirrors manager address oldSize newSize mirrors with
    refused | ⟨checked, checked', block, found', own, rfl⟩
  · exact .ofExcused refused rfl
  have found : p.heap.find? address = some block := mirrors.heap ▸ found'
  have header (process : Process) (found : process.heap.find? address = some block) :
      (readHeader address).runFrom process = (.ok block.header, process) :=
    Ends.runFrom_eq ((ends_readHeader found).mpr ⟨rfl, rfl⟩)
  refine .step checked checked' (.step (header p found) (header q found') ?_)
  refine .ofError (fun _ => left) fun before framedBefore =>
    .ofError (fun _ => left) fun newWhole framed => ?_
  have whole : before = block.header.whole := by
    rw [Layout.framed_eq framedBefore, (mirrors.sound.heap.headed address block found').size_eq]
    rfl
  have power := mirrors.aligned address block found
  have word := (Layout.words_of_framed framed).1
  rw [whole]
  apply ((relocate_lockstep mirrors.heap mirrors.allocator mirrors.sound_raw.heap found).and
    (relocate_effect mirrors.sound_raw found power framed)
    (relocate_effect mirrors.sound found' power framed)).bind
  · rintro failure s t ⟨both, -⟩
    exact ⟨room + 1, Nat.le_add_right _ _, both.mirrors mirrors⟩
  rintro newAddress _ _ _ ⟨rfl, ⟨fresh, heapSound, rfl⟩, fresh', heapSound', rfl⟩
  have holds : manager.Holds p address block.size :=
    .ledger_raw ⟨block, found, rfl, own⟩ (mirrors.isTracked_raw manager)
  have excess : (manager.ledgerIn q).excess? block.size newSize = .ok none := by
    rw [Ledger.excess?, mirrors.byteLimit manager]
  have here := (moves_of_relocated mirrors.sound_raw found holds word fresh heapSound fun tracked =>
      absurd ((mirrors.isTracked_raw manager).symm.trans tracked) Bool.false_ne_true).mono
    (fun _ _ moves => moves) fun _ _ failed => mirrors.not_exhausted_raw manager failed.2.2.1
  have there := (moves_of_relocated mirrors.sound found' (mirrors.holds holds) word fresh'
      heapSound' fun _ => excess).mono
    (fun _ _ moves => moves) fun _ _ failed => mirrors.not_exhausted manager failed.2.2.1
  apply (Action.lockstep_of_ends here there fun _ _ _ _ => And.intro).bind fun _ _ _ => False.elim
  rintro _ _ s t ⟨moves, moves'⟩
  exact .last (by rfl) (by rfl) ⟨rfl, room, Nat.le_refl _, moves.mirrors moves' mirrors⟩

theorem reallocateArray_mirrors (address : Nat) (element : Layout) (oldCount newCount : Nat) :
    Respects Failure.isBrokenPromise (Process.Mirrors bound) 1
      (manager.reallocateArray address element oldCount newCount) := by
  intro room p q mirrors
  have left : ∃ left, room ≤ left ∧ Process.Mirrors bound left p q :=
    ⟨room + 1, Nat.le_add_right _ _, mirrors⟩
  rw [reallocateArray]
  rcases promise_cases manager mirrors address (some (element.size * oldCount)) with
    refused | ⟨kept, block, -, -, -, promised⟩
  · exact .ofExcused refused rfl
  · refine .step kept promised ?_
    refine .ofError (fun _ => left) fun before _ => .ofError (fun _ => left) fun after _ => ?_
    exact reallocate_mirrors address before after room p q mirrors

theorem holders_eq (mirrors : Process.Mirrors bound room p q) (manager : Manager) :
    (manager.ledgerIn q).holders = (manager.ledgerIn p).holders := by
  rcases mirrors.ledgers manager with ⟨-, closed, closed'⟩ | ⟨-, both⟩
  · rw [closed, closed']
  · exact both.holders

theorem holders_mirrors (manager : Manager) (mirrors : Process.Mirrors bound room p q) (count : Nat) :
    Process.Mirrors bound room
      { p with ledgers := p.ledgers.modify manager.id fun _ =>
          { manager.ledgerIn p with holders := count } }
      { q with ledgers := q.ledgers.modify manager.id fun _ =>
          { manager.ledgerIn q with holders := count } } where
  __ := mirrors
  sound := (evolves_holders mirrors.sound count).sound
  books := by
    intro id
    by_cases same : id = manager.id
    · subst same
      show (p.ledgers.modify _ _)[_]? = _ ∧ (q.ledgers.modify _ _)[_]? = _ ∨ ∃ raw tracked, _
      rw [Process.modify_here, Process.modify_here]
      rcases mirrors.ledgers manager with ⟨⟨here, there⟩, -⟩ | ⟨⟨here, there⟩, both⟩
      · rw [here, there]
        exact .inl ⟨rfl, rfl⟩
      · rw [here, there]
        exact .inr ⟨_, _, rfl, rfl, both.strategy, both.counters, both.config, rfl, both.recorded,
          both.countable⟩
    · show (p.ledgers.modify _ _)[_]? = _ ∧ (q.ledgers.modify _ _)[_]? = _ ∨ ∃ raw tracked, _
      rw [Process.modify_elsewhere _ _ same, Process.modify_elsewhere _ _ same]
      exact mirrors.books id

theorem retain_mirrors :
    Respects (fun _ => False) (Process.Mirrors bound) 0 manager.retain := by
  intro room p q mirrors
  have holders := holders_eq mirrors manager
  refine .last (by rfl) (by rfl) ⟨rfl, room, Nat.le_refl _, ?_⟩
  have after := holders_mirrors manager mirrors ((manager.ledgerIn p).holders + 1)
  rw [← holders] at after
  exact holders ▸ after

/-- A manager ends. What the tracked one may have to say of blocks that are left is a warning that
the raw one cannot give. -/
theorem ended_mirrors (mirrors : Process.Mirrors bound room p q) :
    Process.Mirrors bound room
      { p with journal := Process.Ended manager p, ledgers := p.ledgers.erase manager.id }
      { q with journal := Process.Ended manager q, ledgers := q.ledgers.erase manager.id } where
  __ := mirrors
  sound := sound_erased mirrors.sound manager _
  level := by
    have level (process : Process) :
        (Process.Ended manager process).level = process.journal.level := by
      rw [Process.Ended]
      split
      · exact Journal.level_log _ _ _ _
      · rfl
    show (Process.Ended manager q).level = (Process.Ended manager p).level
    rw [level, level, mirrors.level]
  printed := by
    have silent : Process.Ended manager p = p.journal := by
      rw [Process.Ended]
      rcases mirrors.ledgers manager with ⟨-, closed, -⟩ | ⟨-, both⟩
      · rw [closed]
        rfl
      · rw [both.counters]
        rfl
    show (Process.Ended manager p).printed.toList = (Process.Ended manager q).printed.toList.filter _
    rw [silent, mirrors.printed, Process.Ended]
    split
    · rw [Journal.printed_log, List.filter_append]
      split
      · rw [List.filter_cons_of_neg, List.filter_nil, List.append_nil]
        rw [Printed.isLeak_dropped]
        exact Bool.false_ne_true
      · rw [List.filter_nil, List.append_nil]
    · rfl
  books := by
    intro id
    show (p.ledgers.erase _)[_]? = _ ∧ (q.ledgers.erase _)[_]? = _ ∨ ∃ raw tracked, _
    rw [Std.TreeMap.getElem?_erase, Std.TreeMap.getElem?_erase]
    split
    · exact .inl ⟨rfl, rfl⟩
    · exact mirrors.books id

theorem release_mirrors :
    Respects (fun _ => False) (Process.Mirrors bound) 0 manager.release := by
  intro room p q mirrors
  have holders := holders_eq mirrors manager
  rw [release]
  refine .step (by rfl) (by rfl) ?_
  show Lockstep _ _ (if 1 < (manager.ledgerIn p).holders then _ else _)
    (if 1 < (manager.ledgerIn q).holders then _ else _) _ _ _ _
  rw [holders]
  split
  · refine .last (by rfl) (by rfl) ⟨rfl, room, Nat.le_refl _, ?_⟩
    have after := holders_mirrors manager mirrors ((manager.ledgerIn p).holders - 1)
    exact holders ▸ after
  · have ended (process : Process) :
        (do
          let counters := (manager.ledgerIn process).counters
          if 0 < counters.liveBlocks then
            Process.log .warn .manager fun _ =>
              s!"memory manager dropped with {counters.liveBlocks} live blocks ({counters.liveBytes} bytes)"
          modify fun process => { process with ledgers := process.ledgers.erase manager.id } :
          Action Process Unit).runFrom process = (.ok (), { process with
            journal := Process.Ended manager process
            ledgers := process.ledgers.erase manager.id }) := by
      rw [Process.Ended]
      dsimp only
      split
      · rfl
      · rfl
    exact .last (ended p) (ended q) ⟨rfl, room, Nat.le_refl _, ended_mirrors mirrors⟩

theorem create_mirrors {excused : Failure → Process → Prop} {config : Config} (raw : config.strategy = .raw)
    (mirrors : Process.Mirrors bound room p q) :
    Lockstep excused (fun _ _ => False) (create config) (create .tracked) p q
      (fun a b p' q' => b = a ∧ ∃ reach, bound ≤ reach ∧ a.id < reach ∧
        Process.Mirrors reach room p' q')
      fun _ _ _ => False := by
  have next := mirrors.nextManager
  refine .last (by rfl) (by rfl) ⟨?_, p.nextManager + 1, ?_, Nat.lt_succ_self _, ?_⟩
  · rw [next]
  · exact Nat.le_succ_of_le mirrors.reached
  refine { mirrors with
    sound := sound_created mirrors.sound .tracked
    nextManager := congrArg (· + 1) next
    reached := Nat.le_refl _
    owners := fun a block owner found owned =>
      Nat.lt_succ_of_lt (mirrors.owners a block owner found owned)
    books := ?_ }
  intro id
  show (p.ledgers.insert _ _)[_]? = _ ∧ (q.ledgers.insert _ _)[_]? = _ ∨ ∃ raw tracked, _
  rw [next, Std.TreeMap.getElem?_insert, Std.TreeMap.getElem?_insert]
  split
  · rename_i same
    rw [Nat.compare_eq_eq] at same
    refine .inr ⟨_, _, rfl, rfl, raw, rfl, rfl, rfl, ?_, ?_⟩
    · intro a block found own
      have older := mirrors.owners a block id found own
      omega
    · have small := mirrors.small
      rw [← Nat.zero_add room] at small
      exact small
  · exact mirrors.books id

end Manager

namespace Process.Mirrors

/-- Raw and tracked managers do the same for callers who keep their promises. -/
theorem congruent (bound : Nat) :
    Congruent (fun manager => manager.id < bound) Failure.isBrokenPromise (Mirrors bound) where
  number mirrors := mirrors.nextRegion
  counted mirrors := { mirrors with
    sound := ⟨mirrors.sound.lawful, mirrors.sound.heap, mirrors.sound.ledgers⟩
    nextRegion := congrArg (· + 1) mirrors.nextRegion }
  logged origin text other := Manager.log_mirrors origin text other
  stored := Manager.store_mirrors
  retain _ := Manager.retain_mirrors
  release _ := Manager.release_mirrors
  allocate payload known := Manager.allocate_mirrors payload known
  free address _ := Manager.free_mirrors address
  heap mirrors := mirrors.heap
  reallocate address oldSize newSize _ := Manager.reallocate_mirrors address oldSize newSize
  reallocateArray address element oldCount newCount _ :=
    Manager.reallocateArray_mirrors address element oldCount newCount

end Process.Mirrors

end SymbolStore
