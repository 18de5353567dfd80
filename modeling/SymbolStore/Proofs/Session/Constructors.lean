import SymbolStore.Proofs.Bucket.Storage
import SymbolStore.Proofs.Session.Steps

/-!
Tables that are made for a requested capacity. Up to 2⁶³ the capacity is the least power of two that
is enough, or there is no memory, and then nothing is left behind. Beyond that there is no such power
of two among the words, and the calculation of it faults.
-/

namespace SymbolStore

open SymbolStore.Action (Ends)

structure Process.Restores (before after : Process) : Prop where
  heap : after.heap = before.heap
  ledgers : ∀ manager : Manager, 0 < (manager.ledgerIn before).holders →
    manager.ledgerIn after = manager.ledgerIn before

def Process.shared (process : Process) (manager : Manager) : Process :=
  { process with ledgers := process.ledgers.modify manager.id fun _ =>
      { manager.ledgerIn process with holders := (manager.ledgerIn process).holders + 1 } }

/-- The capacity is the least power of two that is enough for what is requested and for the smallest
table. -/
structure LeastCapacity (requested capacity : Nat) : Prop where
  power : isPowerOfTwo capacity = true
  enough : max minBuckets requested ≤ capacity
  least : ∀ other, isPowerOfTwo other = true → max minBuckets requested ≤ other → capacity ≤ other

/-- How a table may fail to be made. -/
inductive Unmade (requested : Nat) (complaint : String) (full : Prop) (before after : Process) :
    Failure → Prop
  | empty (none : requested = 0) (restores : before.Restores after) :
      Unmade requested complaint full before after (.error (.invalidArgument complaint))
  | memory (positive : 0 < requested) (bounded : requested ≤ 2 ^ 63) (bytes : Nat)
      (restores : before.Restores after) :
      Unmade requested complaint full before after (.error (.outOfMemory bytes))
  | huge (beyond : 2 ^ 63 < requested) (restores : before.Restores after) :
      Unmade requested complaint full before after (.fault (.overflow .add))
  /-- The system found room for the buckets, and no further allocation can be counted. -/
  | uncounted (positive : 0 < requested) (bounded : requested ≤ 2 ^ 63) (uncountable : full) :
      Unmade requested complaint full before after (.fault (.overflow .add))

theorem Unmade.cleaned {requested : Nat} {complaint : String} {full still : Prop}
    {before middle first : Process} {failure : Failure} {cleanup : Action Process Unit}
    (unmade : Unmade requested complaint full before middle failure) (counts : full → still)
    (restored : before.Restores middle →
      Ends cleanup middle (fun _ last => first.Restores last) fun _ _ => False) :
    Ends cleanup middle (fun _ last => Unmade requested complaint still first last failure)
      fun _ last => Unmade requested complaint still first last failure := by
  cases unmade with
  | empty none restores =>
      exact (restored restores).mono (fun _ _ whole => .empty none whole) fun _ _ none => none.elim
  | memory positive bounded bytes restores =>
      exact (restored restores).mono (fun _ _ whole => .memory positive bounded bytes whole)
        fun _ _ none => none.elim
  | huge beyond restores =>
      exact (restored restores).mono (fun _ _ whole => .huge beyond whole) fun _ _ none => none.elim
  | uncounted positive bounded uncountable =>
      exact (Action.ends_trivial _ _).mono
        (fun _ _ _ => .uncounted positive bounded (counts uncountable))
        fun _ _ _ => .uncounted positive bounded (counts uncountable)

namespace Process

variable {first second third : Process} {manager : Manager}

theorem Restores.refl (process : Process) : process.Restores process := ⟨rfl, fun _ _ => rfl⟩

theorem Restores.trans (here : first.Restores second) (there : second.Restores third) :
    first.Restores third where
  heap := there.heap.trans here.heap
  ledgers manager held := by
    have same := here.ledgers manager held
    exact (there.ledgers manager (same ▸ held)).trans same

theorem Remarks.restores (remarks : first.Remarks second) : first.Restores second where
  heap := remarks.heap_eq
  ledgers manager _ := remarks.ledgerIn_eq manager

theorem ledgerIn_shared (process : Process) {manager : Manager}
    (held : 0 < (manager.ledgerIn process).holders) (other : Manager) :
    other.ledgerIn (process.shared manager) =
      if manager = other then
        { manager.ledgerIn process with holders := (manager.ledgerIn process).holders + 1 }
      else other.ledgerIn process := by
  apply ledgerIn_set process.heap
  intro closed
  rw [closed] at held
  cases held

end Process

/-- A capacity beyond the greatest power of two among the words is a fault, and no other. -/
theorem bucketCount_cases (requested : Nat) :
    (requested ≤ 2 ^ 63 ∧ ∃ capacity, bucketCount requested = .ok capacity ∧
      LeastCapacity requested capacity) ∨
    2 ^ 63 < requested ∧ bucketCount requested = .error (.overflow .add) := by
  have power := isPowerOfTwo_nextPowerOfTwo (max requested minBuckets)
  have enough := le_nextPowerOfTwo (max requested minBuckets)
  have floor : minBuckets ≤ 2 ^ 63 := by decide
  by_cases bounded : requested ≤ 2 ^ 63
  · have small := nextPowerOfTwo_le (isPowerOfTwo_pow 63) (max_le bounded floor)
    refine .inl ⟨bounded, _, if_pos (Nat.lt_of_le_of_lt small (by decide)), power, ?_, ?_⟩
    · rw [max_comm]
      exact enough
    · intro other isPower large
      rw [max_comm] at large
      exact nextPowerOfTwo_le isPower large
  · refine .inr ⟨by omega, if_neg ?_⟩
    intro small
    obtain ⟨k, same⟩ := isPowerOfTwo_iff.mp power
    rw [same, wordLimit_eq] at small
    have exponent := (Nat.pow_lt_pow_iff_right (by decide)).mp small
    have most : 2 ^ k ≤ 2 ^ 63 := Nat.pow_le_pow_right (by decide) (by omega)
    have above := Nat.le_max_left requested minBuckets
    omega

variable {process after : Process} {manager : Manager}

namespace Manager

theorem release_restores (held : 0 < (manager.ledgerIn process).holders)
    (restores : (process.shared manager).Restores after) :
    Ends manager.release after (fun _ last => process.Restores last) fun _ _ => False := by
  have shared := Process.ledgerIn_shared process held
  have ledger := shared manager
  rw [if_pos rfl] at ledger
  rw [← restores.ledgers manager (ledger ▸ Nat.succ_pos _)] at ledger
  have several : 1 < (manager.ledgerIn after).holders := by
    rw [ledger]
    exact Nat.succ_lt_succ held
  have known : manager.ledgerIn after ≠ .closed := by
    intro closed
    rw [closed] at several
    cases several
  simp only [release, Action.ends_bind, ends_ledger, if_pos several, ends_setLedger]
  refine ⟨restores.heap, ?_⟩
  intro other live
  have there := Process.ledgerIn_set after.heap
    { manager.ledgerIn after with holders := (manager.ledgerIn after).holders - 1 } known other
  refine there.trans ?_
  split
  · rename_i same
    rw [ledger, ← same]
    rfl
  · rename_i different
    have beside := shared other
    rw [if_neg different] at beside
    rw [restores.ledgers other (beside ▸ live), beside]

theorem release_ended {config : Config}
    (unissued : (ledgerIn ⟨process.nextManager⟩ process).holders = 0)
    (restores : ((create config).runFrom process).2.Restores after) :
    Ends (release ⟨process.nextManager⟩) after (fun _ last => process.Restores last)
      fun _ _ => False := by
  have created := ledgerIn_create config process
  have ledger := created ⟨process.nextManager⟩
  rw [if_pos rfl] at ledger
  rw [← restores.ledgers _ (ledger ▸ Nat.one_pos)] at ledger
  have erased (journal : Journal) : process.Restores { after with
      journal, ledgers := after.ledgers.erase process.nextManager } := by
    refine ⟨restores.heap, ?_⟩
    intro other live
    refine (ledgerIn_erase ⟨process.nextManager⟩ after journal other).trans ?_
    split
    · rename_i same
      rw [← same, unissued] at live
      cases live
    · rename_i different
      have beside := created other
      rw [if_neg fun id => different (eq_of_id id)] at beside
      rw [restores.ledgers other (beside ▸ live), beside]
  simp only [release, Action.ends_bind, ends_ledger, ledger, Nat.lt_irrefl, if_false]
  exact erased _

end Manager

theorem BucketArray.create_effect {α : Type} (capacity : Nat) (sound : process.Sound) :
    Ends (create manager capacity : Action Process (BucketArray α)) process
      (fun table _ => table.capacity = capacity)
      fun failure after =>
        (∃ bytes, failure = .error (.outOfMemory bytes)) ∧ process.Restores after ∨
          failure = .fault (.overflow .add) ∧ (manager.ledgerIn process).Exhausted := by
  rw [create]
  refine (Manager.allocateArray_effect bucketLayout capacity sound).bind ?_ ?_
  · intro failure after refused
    rcases refused with ⟨⟨odd, -⟩ | memory, remarks⟩ | ⟨overflow, exhausted, -⟩
    · cases odd
    · exact .inl ⟨memory, remarks.restores⟩
    · exact .inr ⟨overflow, exhausted⟩
  · intro block after _
    exact Array.size_replicate

theorem Dictionary.create_made {K V : Type} (requested : Nat) (rule : KeyRule K) (node : Layout)
    (sound : process.Sound) :
    Ends (create manager requested rule node : Action Process (Dictionary K V)) process
      (fun dictionary _ => 0 < requested ∧ requested ≤ 2 ^ 63 ∧
        LeastCapacity requested dictionary.capacity)
      fun failure after => Unmade requested "assoc array capacity must be non-zero"
        (manager.ledgerIn process).Exhausted process after failure := by
  rw [create, Action.ends_bind, Action.ends_require]
  split
  · rename_i some
    have positive : 0 < requested := Nat.pos_of_ne_zero (of_decide_eq_true some)
    rw [Action.ends_bind, Action.ends_liftFault]
    rcases bucketCount_cases requested with ⟨bounded, capacity, counted, least⟩ | ⟨beyond, fault⟩
    · rw [counted]
      refine (BucketArray.create_effect capacity sound).bind ?_ ?_
      · rintro _ _ (⟨⟨bytes, rfl⟩, restores⟩ | ⟨rfl, exhausted⟩)
        · exact .memory positive bounded bytes restores
        · exact .uncounted positive bounded exhausted
      · intro table _ whole
        simp only [Manager.retain, Action.ends_bind, Manager.ends_ledger, Manager.ends_setLedger,
          Action.ends_pure]
        refine ⟨positive, bounded, ?_⟩
        show LeastCapacity requested table.capacity
        rw [whole]
        exact least
    · rw [fault]
      exact .huge beyond (.refl process)
  · rename_i none
    exact .empty (by simpa using none) (.refl process)

theorem Interner.create_made (requested : Nat) (value : Layout) (hasher : List UInt8 → UInt64)
    (sound : process.Sound) (held : 0 < (manager.ledgerIn process).holders) :
    Ends (create manager requested value hasher) process
      (fun interner _ => 0 < requested ∧ requested ≤ 2 ^ 63 ∧
        LeastCapacity requested interner.capacity)
      fun failure after => Unmade requested "string table capacity must be non-zero"
        (manager.ledgerIn process).Exhausted process after failure := by
  rw [create, Action.ends_bind, Action.ends_require]
  split
  · rename_i some
    have positive : 0 < requested := Nat.pos_of_ne_zero (of_decide_eq_true some)
    have shared := Process.ledgerIn_shared process held manager
    rw [if_pos rfl] at shared
    let there : Process := { process.shared manager with nextRegion := process.nextRegion + 1 }
    have soundThere : there.Sound :=
      (Process.evolves_nextRegion (Manager.evolves_holders sound _).sound _).sound
    have same : (process.shared manager).Restores there := ⟨rfl, fun _ _ => rfl⟩
    have region : Ends (Region.create manager Region.defaultChunkSize) process
        (fun region after => region.chunks = [] ∧ region.manager = manager ∧ after = there)
        fun _ _ => False := ⟨rfl, rfl, rfl⟩
    refine region.bind (fun _ _ none => none.elim) ?_
    rintro region _ ⟨none, owner, rfl⟩
    -- The region holds nothing but the manager.
    have discarded {last : Process} (restores : there.Restores last) :
        Ends region.discard last (fun _ final => process.Restores final) fun _ _ => False := by
      rw [Region.discard, none, owner]
      exact Manager.release_restores held (same.trans restores)
    have counts (full : (manager.ledgerIn there).Exhausted) :
        (manager.ledgerIn process).Exhausted := by
      have ledger : manager.ledgerIn there = _ := shared
      rw [ledger] at full
      exact full
    rw [Action.ends_bind, Action.ends_onFailure, Action.ends_bind, Action.ends_liftFault]
    rcases bucketCount_cases requested with ⟨bounded, capacity, counted, least⟩ | ⟨beyond, fault⟩
    · rw [counted]
      refine (BucketArray.create_effect capacity soundThere).mono ?_ ?_
      · intro table _ whole
        simp only [Manager.retain, Action.ends_bind, Manager.ends_ledger, Manager.ends_setLedger,
          Action.ends_pure]
        refine ⟨positive, bounded, ?_⟩
        show LeastCapacity requested table.capacity
        rw [whole]
        exact least
      · rintro _ _ (⟨⟨bytes, rfl⟩, restores⟩ | ⟨rfl, exhausted⟩)
        · exact Unmade.cleaned (.memory positive bounded bytes restores) counts discarded
        · exact Unmade.cleaned (.uncounted positive bounded exhausted) counts discarded
    · rw [fault]
      exact Unmade.cleaned (.huge beyond (.refl there)) counts discarded
  · rename_i none
    exact .empty (by simpa using none) (.refl process)

namespace Session

variable {K V α : Type} {session : Session K V} {source : Option String}

/-- The manager that is to be used is there, and a new one would be none of those that are. -/
structure Ready (session : Session K V) (source : Option String) : Prop where
  sound : session.process.Sound
  named : ∀ name ∈ source, ∃ manager, session.managers[name]? = some manager ∧
    0 < (manager.ledgerIn session.process).holders
  unissued : (Manager.ledgerIn ⟨session.process.nextManager⟩ session.process).holders = 0

/-- The manager that is to be used can count no further allocation. -/
def Full (session : Session K V) (source : Option String) : Prop :=
  ∃ name ∈ source, ∃ manager, session.managers[name]? = some manager ∧
    (manager.ledgerIn session.process).Exhausted

theorem Settled.ready {direct : Multiset Extent} (settled : session.Settled direct)
    (known : ∀ name ∈ source, ∃ manager, session.managers[name]? = some manager) :
    session.Ready source := by
  obtain ⟨own, -, whole⟩ := settled.houses
  refine ⟨settled.houses.sound, ?_, ?_⟩
  · intro name member
    obtain ⟨manager, found⟩ := known name member
    have held := manager_mem_holders (find?_manager found)
    refine ⟨manager, found, ?_⟩
    rw [whole.holders manager]
    exact Multiset.count_pos.mpr held
  · rw [whole.holders ⟨session.process.nextManager⟩, Multiset.count_eq_zero]
    intro member
    exact Nat.lt_irrefl _ (whole.known _ member)

theorem making_ends {build : Manager → Action Process α} {requested : Nat} {complaint : String}
    {made : α → Prop} {full : Prop} {first : Process}
    (makes : Ends (build manager) process (fun table _ => made table) fun failure after =>
      Unmade requested complaint (manager.ledgerIn process).Exhausted process after failure)
    (counts : (manager.ledgerIn process).Exhausted → full)
    (released : ∀ after, process.Restores after →
      Ends manager.release after (fun _ last => first.Restores last) fun _ _ => False) :
    Ends
      (do
        let built ← (build manager).onFailure manager.release
        manager.release
        return built)
      process (fun table _ => made table)
      fun failure after => Unmade requested complaint full first after failure := by
  rw [Action.ends_bind, Action.ends_onFailure]
  refine makes.mono ?_ ?_
  · intro table after there
    exact (manager.release_heap after).bind (fun _ _ none => none.elim)
      fun _ _ _ => there
  · intro failure after unmade
    exact unmade.cleaned counts fun restores => released after restores

/-- Tables are made with a manager that is named, or with a new one. -/
theorem building_made {build : Manager → Action Process α} {requested : Nat} {complaint : String}
    {made : α → Prop} (ready : session.Ready source)
    (makes : ∀ (manager : Manager) (process : Process), process.Sound →
      0 < (manager.ledgerIn process).holders →
      Ends (build manager) process (fun table _ => made table) fun failure after =>
        Unmade requested complaint (manager.ledgerIn process).Exhausted process after failure) :
    Ends (building source build) session (fun table _ => made table) fun failure after =>
      Unmade requested complaint (session.Full source) session.process after.process failure := by
  cases source with
  | none =>
      have ledger := Manager.ledgerIn_create session.process.config session.process
        ⟨session.process.nextManager⟩
      rw [if_pos rfl] at ledger
      have held : 0 < (Manager.ledgerIn ⟨session.process.nextManager⟩
          ((Manager.create session.process.config).runFrom session.process).2).holders := by
        rw [ledger]
        exact Nat.one_pos
      have counts (full : (Manager.ledgerIn ⟨session.process.nextManager⟩
          ((Manager.create session.process.config).runFrom session.process).2).Exhausted) :
          session.Full none := by
        rw [ledger] at full
        have beyond : wordLimit ≤ 1 := full.2
        exact absurd beyond (by decide)
      have ends := making_ends
        (makes _ _ (Manager.sound_created ready.sound session.process.config) held) counts
        fun _ restores => Manager.release_ended ready.unissued restores
      simp only [building, Action.ends_bind, ends_current, ends_liftProcess, Manager.create,
        Action.ends_get, Action.ends_set, Action.ends_pure] at ends ⊢
      exact ends
  | some name =>
      obtain ⟨manager, found, held⟩ := ready.named name rfl
      have shared := Process.ledgerIn_shared session.process held manager
      rw [if_pos rfl] at shared
      have soundThere : (session.process.shared manager).Sound :=
        (Manager.evolves_holders ready.sound _).sound
      have heldThere : 0 < (manager.ledgerIn (session.process.shared manager)).holders := by
        rw [shared]
        exact Nat.succ_pos _
      have counts (full : (manager.ledgerIn (session.process.shared manager)).Exhausted) :
          session.Full (some name) := by
        rw [shared] at full
        exact ⟨name, rfl, manager, found, full⟩
      have ends := making_ends (makes manager _ soundThere heldThere) counts
        fun _ restores => Manager.release_restores held restores
      simp only [building, Session.manager, Action.ends_bind, ends_current, ends_named, found,
        ends_liftProcess, Manager.retain, Manager.ends_ledger, Manager.ends_setLedger,
        Action.ends_pure] at ends ⊢
      exact ends

/-- A table that is made, on a manager of any kind and in
any state, has as its capacity the least power of two that is at least four and at least what was
requested. Nothing is made, and nothing left behind, if nothing was requested, or if there is no
memory. That is all as long as the requested capacity is at most 2⁶³, except that the manager may
have no number left to count the allocation with. Beyond 2⁶³ the request is always a fault. -/
theorem requested_capacity (ready : session.Ready source) (requested : Nat) :
    (∀ (value : Layout) (hasher : List UInt8 → UInt64),
      Ends (building source fun manager => Interner.create manager requested value hasher) session
        (fun interner _ => 0 < requested ∧ requested ≤ 2 ^ 63 ∧
          LeastCapacity requested interner.capacity)
        fun failure after => Unmade requested "string table capacity must be non-zero"
          (session.Full source) session.process after.process failure) ∧
    ∀ (rule : KeyRule K) (node : Layout),
      Ends
        (building source fun manager =>
          (Dictionary.create manager requested rule node : Action Process (Dictionary K V)))
        session
        (fun dictionary _ => 0 < requested ∧ requested ≤ 2 ^ 63 ∧
          LeastCapacity requested dictionary.capacity)
        fun failure after => Unmade requested "assoc array capacity must be non-zero"
          (session.Full source) session.process after.process failure := by
  constructor
  · intro value hasher
    exact building_made ready fun manager process sound held =>
      Interner.create_made requested value hasher sound held
  · intro rule node
    exact building_made ready fun manager process sound _ =>
      Dictionary.create_made requested rule node sound

def limited : Session Nat Nat :=
  { process := ((Manager.create (Config.tracked.withByteLimit 100)).runFrom {}).2
    managers := Std.TreeMap.empty.insert "m" ⟨0⟩ }

theorem limited_ready : limited.Ready (some "m") where
  sound := Manager.sound_create Allocator.ascending_lawful _
  named := by
    rintro _ ⟨⟩
    exact ⟨⟨0⟩, by decide +kernel, by decide +kernel⟩
  unissued := by decide +kernel

/-- Five buckets are eight, and too many under the limit. Four are not. -/
theorem requested_capacity_limited : limited.Ready (some "m") ∧
    (∃ after, (building (some "m") fun manager =>
        Interner.create manager 5 ⟨8, 8⟩ fun _ => 0).runFrom limited =
          (.error (.error (.outOfMemory 128)), after) ∧
      limited.process.Restores after.process) ∧
    ∃ interner after, (building (some "m") fun manager =>
        Interner.create manager 4 ⟨8, 8⟩ fun _ => 0).runFrom limited = (.ok interner, after) ∧
      LeastCapacity 4 interner.capacity := by
  refine ⟨limited_ready, ?_, ?_⟩
  · have ends := (requested_capacity limited_ready 5).1 ⟨8, 8⟩ fun _ => 0
    have refused : ((building (some "m") fun manager =>
        Interner.create manager 5 ⟨8, 8⟩ fun _ => 0).runFrom limited).1.map Interner.capacity =
          .error (.error (.outOfMemory 128)) := by decide +kernel
    rcases ran : (building (some "m") fun manager =>
        Interner.create manager 5 ⟨8, 8⟩ fun _ => 0).runFrom limited with ⟨failure | interner, after⟩
    · rw [ran] at refused
      cases refused
      cases ends.of_error ran with
      | memory _ _ _ restores => exact ⟨after, rfl, restores⟩
    · rw [ran] at refused
      cases refused
  · have ends := (requested_capacity limited_ready 4).1 ⟨8, 8⟩ fun _ => 0
    have made : ((building (some "m") fun manager =>
        Interner.create manager 4 ⟨8, 8⟩ fun _ => 0).runFrom limited).1.map Interner.capacity =
          .ok 4 := by decide +kernel
    rcases ran : (building (some "m") fun manager =>
        Interner.create manager 4 ⟨8, 8⟩ fun _ => 0).runFrom limited with ⟨failure | interner, after⟩
    · rw [ran] at made
      cases made
    · exact ⟨interner, after, rfl, (ends.of_ok ran).2.2⟩

/-- One more than 2⁶³ is answered by a fault, and by none of the errors that are promised. -/
theorem great_capacity_faults :
    ((building (some "m") fun manager =>
      Interner.create manager (2 ^ 63 + 1) ⟨8, 8⟩ fun _ => 0).runFrom limited).1.map
        Interner.capacity = .error (.fault (.overflow .add)) ∧
    ((building (some "m") fun manager =>
      (Dictionary.create manager (2 ^ 63 + 1) ⟨fun _ => 0, (· == ·)⟩ ⟨32, 8⟩ :
        Action Process (Dictionary Nat Nat))).runFrom limited).1.map
          Dictionary.capacity = .error (.fault (.overflow .add)) := by
  constructor <;> decide +kernel

end Session

end SymbolStore
