import SymbolStore.Proofs.Memory.Account

/-!
A process whose managers are raw beside one whose managers are tracked and have no limit.
-/

namespace SymbolStore

/-- Whether this is the warning of a manager that blocks are left at its end. -/
def Printed.isLeak : Printed → Bool
  | .message .warn target text =>
    target = Origin.manager.target ∧
      "memory manager dropped with ".toList.isPrefixOf text.toList
  | _ => false

theorem Printed.isLeak_dropped (blocks bytes : Nat) :
    isLeak (.message .warn Origin.manager.target
      s!"memory manager dropped with {blocks} live blocks ({bytes} bytes)") = true := by
  rw [isLeak, decide_eq_true_iff]
  refine ⟨rfl, List.isPrefixOf_iff_prefix.mpr ?_⟩
  simp only [String.toList_append, List.append_assoc]
  exact List.prefix_append _ _

theorem Journal.printed_log (journal : Journal) (level : Level) (target : String)
    (text : Unit → String) : (journal.log level target text).printed.toList =
      journal.printed.toList ++
        if journal.enabled level then [.message level target (text ())] else [] := by
  unfold log emit
  cases journal.enabled level with
  | true => simp [print]
  | false => simp

/-- The ledger of a raw manager beside that of a tracked one, which knows all blocks of its owner and
can count more than so many allocations yet. -/
structure Ledger.Mirrors (raw tracked : Ledger) (owner : Nat) (heap : Heap) (room : Nat) : Prop where
  strategy : raw.config.strategy = .raw
  counters : raw.counters = {}
  config : tracked.config = .tracked
  holders : tracked.holders = raw.holders
  recorded : ∀ a block, heap.find? a = some block → block.owner = some owner →
    tracked.live[a]? = some block.size
  countable : tracked.counters.totalAllocations + room + 1 < wordLimit

def Process.BooksMirror (here there : Std.TreeMap Nat Ledger) (heap : Heap) (room : Nat) : Prop :=
  ∀ id : Nat, here[id]? = none ∧ there[id]? = none ∨
    ∃ raw tracked, here[id]? = some raw ∧ there[id]? = some tracked ∧
      raw.Mirrors tracked id heap room

/-- The same process with raw and with tracked managers. -/
structure Process.Mirrors (bound room : Nat) (p q : Process) : Prop where
  sound : q.Sound
  heap : q.heap = p.heap
  allocator : q.allocator = p.allocator
  nextManager : q.nextManager = p.nextManager
  nextRegion : q.nextRegion = p.nextRegion
  raw : p.config.strategy = .raw
  tracked : q.config = .tracked
  level : q.journal.level = p.journal.level
  printed : p.journal.printed.toList =
    q.journal.printed.toList.filter fun line => !line.isLeak
  reached : bound ≤ p.nextManager
  small : room + 1 < wordLimit
  owners : ∀ a block owner, p.heap.find? a = some block → block.owner = some owner →
    owner < p.nextManager
  aligned : ∀ a block, p.heap.find? a = some block → isPowerOfTwo block.align = true
  books : Process.BooksMirror p.ledgers q.ledgers p.heap room

/-- The failures of a caller who does not keep the promises that a raw manager relies on. -/
def Failure.isBrokenPromise (failure : Failure) : Prop := failure = .refused .undefinedUnderRaw

variable {bound room more : Nat} {p q : Process} {manager : Manager}

theorem Ledger.Mirrors.isTracked {raw tracked : Ledger} {owner room : Nat} {heap : Heap}
    (both : raw.Mirrors tracked owner heap room) : tracked.isTracked = true := by
  rw [Ledger.isTracked, both.config]
  rfl

theorem Ledger.Mirrors.mono {raw tracked : Ledger} {owner : Nat} {heap after : Heap}
    (mirrors : raw.Mirrors tracked owner heap more) (less : room ≤ more)
    (kept : ∀ a block, after.find? a = some block → block.owner = some owner →
      ∃ old, heap.find? a = some old ∧ old.size = block.size ∧ old.owner = some owner) :
    raw.Mirrors tracked owner after room where
  strategy := mirrors.strategy
  counters := mirrors.counters
  config := mirrors.config
  holders := mirrors.holders
  recorded a block found own := by
    obtain ⟨old, before, sized, owned⟩ := kept a block found own
    rw [← sized]
    exact mirrors.recorded a old before owned
  countable := by
    have countable := mirrors.countable
    omega

namespace Process.Mirrors

theorem logged (mirrors : Process.Mirrors bound room p q) {level : Level} (other : level ≠ .warn)
    (target : String) (text : Unit → String) :
    Process.Mirrors bound room { p with journal := p.journal.log level target text }
      { q with journal := q.journal.log level target text } where
  __ := mirrors
  sound := ⟨mirrors.sound.lawful, mirrors.sound.heap, mirrors.sound.ledgers⟩
  level := by
    show (q.journal.log _ _ _).level = (p.journal.log _ _ _).level
    rw [Journal.level_log, Journal.level_log, mirrors.level]
  printed := by
    have enabled : q.journal.enabled level = p.journal.enabled level := by
      rw [Journal.enabled, Journal.enabled, mirrors.level]
    have kept : Printed.isLeak (.message level target (text ())) = false := by
      cases level <;> first | rfl | exact absurd rfl other
    show (p.journal.log _ _ _).printed.toList = (q.journal.log _ _ _).printed.toList.filter _
    rw [Journal.printed_log, Journal.printed_log, List.filter_append, ← mirrors.printed, enabled]
    split
    · simp [kept]
    · rfl

theorem ledgers (mirrors : Process.Mirrors bound room p q) (manager : Manager) :
    (p.ledgers[manager.id]? = none ∧ q.ledgers[manager.id]? = none) ∧
        manager.ledgerIn p = .closed ∧ manager.ledgerIn q = .closed ∨
      (p.ledgers[manager.id]? = some (manager.ledgerIn p) ∧
        q.ledgers[manager.id]? = some (manager.ledgerIn q)) ∧
        (manager.ledgerIn p).Mirrors (manager.ledgerIn q) manager.id p.heap room := by
  have stored (process : Process) :
      manager.ledgerIn process = (process.ledgers[manager.id]?).getD .closed :=
    Std.TreeMap.getD_eq_getD_getElem?
  rcases mirrors.books manager.id with ⟨here, there⟩ | ⟨raw, tracked, here, there, both⟩
  · refine .inl ⟨⟨here, there⟩, ?_, ?_⟩
    · rw [stored, here, Option.getD_none]
    · rw [stored, there, Option.getD_none]
  · have first : manager.ledgerIn p = raw := by rw [stored, here, Option.getD_some]
    have second : manager.ledgerIn q = tracked := by rw [stored, there, Option.getD_some]
    rw [first, second]
    exact .inr ⟨⟨here, there⟩, both⟩

theorem turned {p' q' : Process} {heap : Heap} {ledger : Ledger}
    (mirrors : Process.Mirrors bound more p q) (less : room ≤ more)
    (here : p.Turns p' manager heap (manager.ledgerIn p)) (there : q.Turns q' manager heap ledger)
    (sound : q'.Sound)
    (entered : (manager.ledgerIn p).Mirrors (manager.ledgerIn q) manager.id p.heap more →
      (manager.ledgerIn p).Mirrors ledger manager.id heap room)
    (kept : ∀ a block, heap.find? a = some block → p.heap.find? a = some block ∨
      block.owner = some manager.id ∧ manager.id < p.nextManager ∧ isPowerOfTwo block.align = true) :
    Process.Mirrors bound room p' q' := by
  have books : Process.BooksMirror p'.ledgers q'.ledgers heap room := by
    intro id
    rcases mirrors.ledgers { id } with ⟨⟨absent, absent'⟩, -⟩ | ⟨⟨found, found'⟩, both⟩
    · have gone := here.standing id
      have gone' := there.standing id
      rw [absent, Option.isSome_none, Option.isSome_eq_false_iff, Option.isNone_iff_eq_none] at gone
      rw [absent', Option.isSome_none, Option.isSome_eq_false_iff, Option.isNone_iff_eq_none] at gone'
      exact .inl ⟨gone, gone'⟩
    · refine .inr ⟨_, _, here.listed (by rw [found]; rfl), there.listed (by rw [found']; rfl), ?_⟩
      rw [here.ledgers, there.ledgers]
      split
      · rename_i same
        cases same
        exact entered both
      · rename_i different
        refine both.mono less fun a block found own => ?_
        rcases kept a block found with old | ⟨foreign, -⟩
        · exact ⟨block, old, rfl, own⟩
        · exact absurd (Manager.eq_of_id (Option.some.inj (foreign.symm.trans own))) different
  obtain ⟨first, rfl⟩ := here.rest
  obtain ⟨second, rfl⟩ := there.rest
  exact {
    sound
    heap := rfl
    allocator := mirrors.allocator
    nextManager := mirrors.nextManager
    nextRegion := mirrors.nextRegion
    raw := mirrors.raw
    tracked := mirrors.tracked
    level := mirrors.level
    printed := mirrors.printed
    reached := mirrors.reached
    small := by
      have small := mirrors.small
      omega
    owners := by
      intro a block owner found owned
      rcases kept a block found with old | ⟨own, known, -⟩
      · exact mirrors.owners a block owner old owned
      · cases own.symm.trans owned
        exact known
    aligned := by
      intro a block found
      rcases kept a block found with old | ⟨-, -, aligned⟩
      · exact mirrors.aligned a block old
      · exact aligned
    books }

theorem written (mirrors : Process.Mirrors bound room p q) (place : Pointer) (values : List UInt8) :
    Process.Mirrors bound room { p with heap := p.heap.write place values }
      { q with heap := q.heap.write place values } where
  sound := mirrors.sound.write place values
  heap := congrArg (Heap.write · place values) mirrors.heap
  allocator := mirrors.allocator
  nextManager := mirrors.nextManager
  nextRegion := mirrors.nextRegion
  raw := mirrors.raw
  tracked := mirrors.tracked
  level := mirrors.level
  printed := mirrors.printed
  reached := mirrors.reached
  small := mirrors.small
  owners a block owner found owned := by
    obtain ⟨old, before, -, -, same⟩ := Heap.find?_write_some found
    exact mirrors.owners a old owner before (same.symm.trans owned)
  aligned a block found := by
    obtain ⟨old, before, -, align, -⟩ := Heap.find?_write_some found
    rw [align]
    exact mirrors.aligned a old before
  books := by
    intro id
    refine (mirrors.books id).imp_right ?_
    rintro ⟨raw, tracked, here, there, mirrors⟩
    refine ⟨raw, tracked, here, there, mirrors.mono (Nat.le_refl _) fun a block found own => ?_⟩
    obtain ⟨old, before, size, -, owner⟩ := Heap.find?_write_some found
    exact ⟨old, before, size.symm, owner.symm.trans own⟩

theorem isTracked_raw (mirrors : Process.Mirrors bound room p q) (manager : Manager) :
    (manager.ledgerIn p).isTracked = false := by
  rcases mirrors.ledgers manager with ⟨-, closed, -⟩ | ⟨-, both⟩
  · rw [closed]
    rfl
  · rw [Ledger.isTracked, both.strategy]
    rfl

theorem byteLimit (mirrors : Process.Mirrors bound room p q) (manager : Manager) :
    (manager.ledgerIn q).config.byteLimit = none := by
  rcases mirrors.ledgers manager with ⟨-, -, closed⟩ | ⟨-, both⟩
  · rw [closed]
    rfl
  · rw [both.config]
    rfl

/-- The raw process is sound as well, as its managers keep no books. -/
theorem sound_raw (mirrors : Process.Mirrors bound room p q) : p.Sound where
  lawful := mirrors.allocator ▸ mirrors.sound.lawful
  heap := mirrors.heap ▸ mirrors.sound.heap
  ledgers manager tracked := by
    rw [mirrors.isTracked_raw manager] at tracked
    cases tracked

theorem not_exhausted (mirrors : Process.Mirrors bound room p q) (manager : Manager) :
    ¬ (manager.ledgerIn q).Exhausted := by
  rintro ⟨tracked, full⟩
  rcases mirrors.ledgers manager with ⟨-, -, closed⟩ | ⟨-, both⟩
  · rw [closed] at tracked
    cases tracked
  · have countable := both.countable
    omega

theorem not_exhausted_raw (mirrors : Process.Mirrors bound room p q) (manager : Manager) :
    ¬ (manager.ledgerIn p).Exhausted := by
  rintro ⟨tracked, -⟩
  rw [mirrors.isTracked_raw manager] at tracked
  cases tracked

/-- A block of a raw manager is one of the tracked manager, which has recorded it. -/
theorem holds {address size : Nat} (mirrors : Process.Mirrors bound room p q)
    (holds : manager.Holds p address size) : manager.Holds q address size where
  present := mirrors.heap ▸ holds.present
  recorded tracked := by
    obtain ⟨block, found, rfl, own⟩ := holds.present
    rcases mirrors.ledgers manager with ⟨-, -, closed⟩ | ⟨-, both⟩
    · rw [closed] at tracked
      cases tracked
    · exact both.recorded address block found own

end Process.Mirrors

end SymbolStore
