import SymbolStore.Proofs.Session.History
import SymbolStore.Proofs.Twin.Managers
import SymbolStore.Proofs.Twin.Requests

/-!
Sessions whose managers are all raw beside the same sessions with tracked managers that have no limit.
For clients who keep their promises nothing differs but what the managers count.
-/

namespace SymbolStore

open SymbolStore.Action (Ends Lockstep Respects)

variable {K V : Type}

/-- The same configuration, but with the strategy that keeps no books. A limit is ignored. -/
def Config.asRaw (config : Config) : Config := { config with strategy := .raw }

/-- The request with another configuration, if it is one for a manager. -/
def Command.configured (configure : Config → Config) : Command K V → Command K V
  | .createManager name config => .createManager name (configure config)
  | other => other

theorem Structure.Known.mono {known more : Manager → Prop} {object : Structure K V}
    (knows : object.Known known) (weaker : ∀ manager, known manager → more manager) :
    object.Known more := by
  cases object with
  | interner inner => exact ⟨weaker _ knows.1, weaker _ knows.2⟩
  | holder | array | region | dictionary => exact weaker _ knows

namespace Session

/-- One session in two processes, with raw and with tracked managers. -/
def Mirrors (room : Nat) (raw tracked : Session K V) : Prop :=
  ∃ bound, Abreast (fun manager => manager.id < bound) (Process.Mirrors bound) room raw tracked

variable {room : Nat} {raw tracked : Session K V} {α : Type} {name : String}

theorem Mirrors.renew (mirrors : raw.Mirrors room tracked) (more : Nat)
    (small : more + 1 < wordLimit)
    (countable : ∀ (id : Nat) ledger, tracked.process.ledgers[id]? = some ledger →
      ledger.counters.totalAllocations + more + 1 < wordLimit) : Mirrors more raw tracked := by
  obtain ⟨bound, same, knows, related⟩ := mirrors
  refine ⟨bound, same, knows, { related with small, books := ?_ }⟩
  intro id
  refine (related.books id).imp_right ?_
  rintro ⟨here, there, first, second, both⟩
  exact ⟨here, there, first, second, { both with countable := countable id there second }⟩

theorem Mirrors.ofRespects (room : Nat) {x : Action (Session K V) α} {c bound : Nat}
    (respects : Respects Failure.isBrokenPromise
      (Abreast (fun manager => manager.id < bound) (Process.Mirrors bound)) c x)
    (abreast : Abreast (fun manager => manager.id < bound) (Process.Mirrors bound) (room + c)
      raw tracked) :
    Lockstep (fun failure _ => failure.isBrokenPromise) (fun _ _ => False) x x raw tracked
      (fun a b s t => b = a ∧ ∃ left, Mirrors left s t) fun _ s t => ∃ left, Mirrors left s t := by
  refine (respects room raw tracked abreast).mono ?_ ?_
  · rintro a b s t ⟨same, left, -, after⟩
    exact ⟨same, left, bound, after⟩
  · rintro _ s t ⟨left, -, after⟩
    exact ⟨left, bound, after⟩

theorem Mirrors.create (room c : Nat) {config : Config} (strategy : config.strategy = .raw)
    {f : Manager → Action (Session K V) α} (mirrors : raw.Mirrors (room + c) tracked)
    (next : ∀ bound (manager : Manager), manager.id < bound →
      Respects Failure.isBrokenPromise
        (Abreast (fun manager => manager.id < bound) (Process.Mirrors bound)) c (f manager)) :
    Lockstep (fun failure _ => failure.isBrokenPromise) (fun _ _ => False)
      (liftM (Manager.create config) >>= f) (liftM (Manager.create .tracked) >>= f) raw tracked
      (fun a b s t => b = a ∧ ∃ left, Mirrors left s t) fun _ s t => ∃ left, Mirrors left s t := by
  obtain ⟨bound, same, knows, related⟩ := mirrors
  have created : Lockstep (fun failure _ => failure.isBrokenPromise) (fun _ _ => False)
      (ofProcess (Manager.create config)) (ofProcess (Manager.create .tracked)) raw tracked
      (fun a b s t => b = a ∧ ∃ reach, a.id < reach ∧
        Abreast (fun manager => manager.id < reach) (Process.Mirrors reach) (room + c) s t)
      fun _ _ _ => False := by
    apply Action.lockstep_within
    refine (Manager.create_mirrors strategy related).mono ?_ fun _ _ _ => False.elim
    rintro a _ p q ⟨rfl, reach, more, is, after⟩
    refine ⟨rfl, reach, is, ?_, ?_, after⟩
    · rw [same]
    · refine Known.congr (fun place object found => ?_) (find?_process raw p)
      exact (knows place object found).mono fun _ below => Nat.lt_of_lt_of_le below more
  apply created.bind fun _ _ _ => False.elim
  rintro _ _ s t ⟨rfl, reach, is, abreast⟩
  exact ofRespects room (next reach _ is) abreast

theorem Mirrors.builds {build : Manager → Action Process α}
    {naming : α → Action (Session K V) Unit} {make : α → Structure K V}
    (mirrors : raw.Mirrors 127 tracked)
    (builds : ∀ bound (manager : Manager), manager.id < bound →
      Respects Failure.isBrokenPromise (Process.Mirrors bound) 1 (build manager))
    (facts : ∀ (manager : Manager) process (known : Manager → Prop), known manager →
      Ends (build manager) process (fun a _ => (make a).Known known) fun _ _ => True)
    (names : ∀ a, naming a = occupy name (make a)) :
    Lockstep (fun failure _ => failure.isBrokenPromise) (fun _ _ => False)
      (do
        naming (← building none build)
        return (.done : Answer K V))
      (do
        naming (← building none build)
        return (.done : Answer K V)) raw tracked
      (fun a b s t => b = a ∧ ∃ left, Mirrors left s t) fun _ s t => ∃ left, Mirrors left s t := by
  have config : tracked.process.config = .tracked := by
    obtain ⟨bound, -, -, related⟩ := mirrors
    exact related.tracked
  have strategy : raw.process.config.strategy = .raw := by
    obtain ⟨bound, -, -, related⟩ := mirrors
    exact related.raw
  rw [building_own]
  refine .step (by rfl) (by rfl) ?_
  rw [config]
  refine Mirrors.create 126 1 strategy mirrors fun bound manager is => ?_
  exact respects_making (Process.Mirrors.congruent bound) is (builds bound manager is)
    (fun process => facts manager process _ is) names

/-- A request does the same with raw and with tracked managers. -/
theorem Mirrors.perform (mirrors : raw.Mirrors 127 tracked) (command : Command K V) :
    Lockstep (fun failure _ => failure.isBrokenPromise) (fun _ _ => False)
      (perform (command.configured Config.asRaw))
      (perform (command.configured fun _ => .tracked)) raw tracked
      (fun a b s t => b = a ∧ ∃ left, Mirrors left s t) fun _ s t => ∃ left, Mirrors left s t := by
  have older (same : command.configured Config.asRaw = command)
      (same' : command.configured (fun _ => .tracked) = command)
      (makes : command.makesManager = false) :
      Lockstep (fun failure _ => failure.isBrokenPromise) (fun _ _ => False)
        (Session.perform (command.configured Config.asRaw))
        (Session.perform (command.configured fun _ => .tracked)) raw tracked
        (fun a b s t => b = a ∧ ∃ left, Mirrors left s t)
        fun _ s t => ∃ left, Mirrors left s t := by
    obtain ⟨bound, abreast⟩ := mirrors
    rw [same, same']
    exact ofRespects 0
      (perform_respects (Process.Mirrors.congruent bound) command makes) abreast
  cases command with
  | createManager name config =>
      show Lockstep _ _ (Session.perform (.createManager name config.asRaw))
        (Session.perform (.createManager name .tracked)) _ _ _ _
      rw [Session.perform, Session.perform]
      refine Mirrors.create 127 0 rfl mirrors fun bound manager is => ?_
      rw [nameManager_eq]
      have holds : (Structure.holder manager : Structure K V).Known
          fun manager => manager.id < bound := is
      exact (respects_occupy (Process.Mirrors.congruent bound) holds).answers (by decide)
  | createRegion name source chunkSize =>
      cases source with
      | some => exact older rfl rfl rfl
      | none =>
          refine mirrors.builds (fun bound manager is => ?_) (fun _ _ _ => Region.create_known chunkSize)
            (nameRegion_eq name)
          exact (Region.create_respects (Process.Mirrors.congruent bound).toParallel chunkSize
            is).mono (by decide)
  | createInterner name source capacity value hasher =>
      cases source with
      | some => exact older rfl rfl rfl
      | none =>
          refine mirrors.builds (fun bound manager is => ?_)
            (fun _ _ _ => Interner.create_known capacity value hasher) (nameInterner_eq name)
          exact Interner.create_respects (Process.Mirrors.congruent bound).toParallel capacity value
            hasher is
  | createDictionary name source capacity rule node =>
      cases source with
      | some => exact older rfl rfl rfl
      | none =>
          refine mirrors.builds (fun bound manager is => ?_)
            (fun _ _ _ => Dictionary.create_known capacity rule node) (nameDictionary_eq name)
          exact Dictionary.create_respects (Process.Mirrors.congruent bound).toParallel capacity rule node
            is
  | _ => exact older rfl rfl rfl

/-- Every manager can count the allocations of one more request, which makes at most 128. -/
def Countable (session : Session K V) : Prop :=
  ∀ (id : Nat) ledger, session.process.ledgers[id]? = some ledger →
    ledger.counters.totalAllocations + 128 < wordLimit

/-- What is the same with raw managers and with tracked ones: the objects of the session, the managers
that have not ended, all blocks with their contents, and what was printed but for the warnings that
blocks are left. Raw managers count nothing. -/
structure Agrees (raw tracked : Session K V) : Prop where
  objects : tracked = { raw with process := tracked.process }
  heap : tracked.process.heap = raw.process.heap
  managers : ∀ id : Nat,
    (tracked.process.ledgers[id]?).isSome = (raw.process.ledgers[id]?).isSome
  holders : ∀ manager : Manager,
    (manager.ledgerIn tracked.process).holders = (manager.ledgerIn raw.process).holders
  printed : raw.process.journal.printed.toList =
    tracked.process.journal.printed.toList.filter fun line => !line.isLeak
  uncounted : ∀ (id : Nat) ledger, raw.process.ledgers[id]? = some ledger → ledger.counters = {}

theorem Mirrors.agrees (mirrors : raw.Mirrors room tracked) : raw.Agrees tracked := by
  obtain ⟨bound, same, -, related⟩ := mirrors
  refine ⟨same, related.heap, fun id => ?_, Manager.holders_eq related, related.printed, ?_⟩
  · rcases related.books id with ⟨here, there⟩ | ⟨_, _, here, there, -⟩
    · rw [here, there]
    · rw [here, there]
      rfl
  · intro id ledger found
    rcases related.books id with ⟨here, -⟩ | ⟨_, _, here, -, both⟩
    · rw [here] at found
      cases found
    · rw [here] at found
      cases found
      exact both.counters

theorem mirrors_start (level : Level) (config : Config) {allocator : Allocator}
    (lawful : allocator.Lawful) :
    Mirrors 0 (start { level } config.asRaw allocator : Session K V)
      (start { level } .tracked allocator) := by
  have nothing (a : Nat) (block : Block) : Heap.find? {} a ≠ some block := by
    rw [Heap.find?_empty]
    exact nofun
  refine ⟨0, rfl, ?_, ?_⟩
  · intro place object found
    cases place <;> simp [start, find?] at found
  · exact {
      sound := Manager.sound_unused lawful
      heap := rfl
      allocator := rfl
      nextManager := rfl
      nextRegion := rfl
      raw := rfl
      tracked := rfl
      level := rfl
      printed := rfl
      reached := Nat.zero_le _
      small := by decide
      owners := fun a block _ found => absurd found (nothing a block)
      aligned := fun a block found => absurd found (nothing a block)
      books := fun id => .inl ⟨Std.TreeMap.getElem?_emptyc, Std.TreeMap.getElem?_emptyc⟩ }

theorem Mirrors.performAll (mirrors : raw.Mirrors room tracked) {commands : List (Command K V)}
    (legal : .error (.refused .undefinedUnderRaw) ∉
      (raw.performAll (commands.map (.configured Config.asRaw))).1)
    (countable : ∀ earlier, earlier <+: commands →
      (tracked.performAll (earlier.map (.configured fun _ => .tracked))).2.Countable) :
    (tracked.performAll (commands.map (.configured fun _ => .tracked))).1 =
        (raw.performAll (commands.map (.configured Config.asRaw))).1 ∧
      ∃ left, Mirrors left (raw.performAll (commands.map (.configured Config.asRaw))).2
        (tracked.performAll (commands.map (.configured fun _ => .tracked))).2 := by
  induction commands generalizing raw tracked room with
  | nil => exact ⟨rfl, room, mirrors⟩
  | cons command commands ih =>
      have ready := mirrors.renew 127 (by decide) (countable [] List.nil_prefix)
      have kept : ∀ failure, ((Session.perform (command.configured Config.asRaw)).runFrom raw).1 =
          .error failure → ¬ failure.isBrokenPromise := by
        intro failure outcome broken
        apply legal
        rw [Failure.isBrokenPromise] at broken
        subst broken
        exact List.mem_cons.mpr (.inl outcome.symm)
      obtain ⟨same, left, after⟩ := (ready.perform command).outcomes kept
      obtain ⟨answers, last⟩ := ih after (fun member => legal (List.mem_cons_of_mem _ member))
        fun earlier early => countable (command :: earlier) (List.cons_prefix_cons.mpr ⟨rfl, early⟩)
      exact ⟨congrArg₂ List.cons same answers, last⟩

/-- With raw managers the requests are answered as with tracked ones, with the same errors, whatever
limit the raw managers have, as long as nobody gives back or resizes anything but live blocks with
their true sizes. The sessions agree after every request, and when they are closed. -/
theorem run_raw_tracked {allocator : Allocator} (lawful : allocator.Lawful) (level : Level)
    (config : Config) {commands : List (Command K V)} {raw tracked : Session K V}
    {answers answers' : List (Except Failure (Answer K V))}
    (first : (start { level } config.asRaw allocator).performAll
      (commands.map (.configured Config.asRaw)) = (answers, raw))
    (second : (start { level } .tracked allocator).performAll
      (commands.map (.configured fun _ => .tracked)) = (answers', tracked))
    (legal : .error (.refused .undefinedUnderRaw) ∉ answers)
    (countable : ∀ earlier, earlier <+: commands →
      ((start { level } .tracked allocator).performAll
        (earlier.map (.configured fun _ => .tracked))).2.Countable) :
    answers' = answers ∧ raw.Agrees tracked ∧
      ((close.runFrom raw).1 ≠ .error (.refused .undefinedUnderRaw) →
        (close.runFrom tracked).1 = (close.runFrom raw).1 ∧
          (close.runFrom raw).2.Agrees (close.runFrom tracked).2) := by
  have start := mirrors_start (K := K) (V := V) level config lawful
  have legalRun : .error (.refused .undefinedUnderRaw) ∉
      (performAll (Session.start { level } config.asRaw allocator)
        (commands.map (.configured Config.asRaw))).1 := by
    rw [first]
    exact legal
  have all := start.performAll legalRun countable
  rw [first, second] at all
  obtain ⟨same, left, mirrors⟩ := all
  refine ⟨same, mirrors.agrees, fun promised => ?_⟩
  obtain ⟨bound, abreast⟩ := mirrors
  have closes := Mirrors.ofRespects left
    (close_respects (Process.Mirrors.congruent bound)) abreast
  obtain ⟨outcome, last, after⟩ := closes.outcomes fun failure ended broken => by
    rw [Failure.isBrokenPromise] at broken
    subst broken
    exact promised ended
  exact ⟨outcome, after.agrees⟩

/-- A run under a limit of eight bytes, in which a block is resized, another one is left, and
structures come and go. -/
def limitedRun : List (Command Nat Nat) :=
  [.createManager "m" (Config.tracked.withByteLimit 8), .allocate "m" "b" ⟨24, 8⟩,
    .reallocate "m" "b" 24 40, .allocate "m" "c" ⟨16, 3⟩, .allocate "m" "c" ⟨16, 16⟩,
    .free "m" "b", .createRegion "r" none 64, .storeBytes "r" [1, 2, 3] none,
    .createDictionary "d" (some "m") 4 ⟨fun n => UInt64.ofNat n, fun a b => a == b⟩ ⟨32, 8⟩,
    .setKey "d" 7 9, .getKey "d" 7, .getKey "d" 8]

theorem countable_of_all {session : Session K V}
    (all : session.process.ledgers.toList.all (fun entry =>
      entry.2.counters.totalAllocations + 128 < wordLimit) = true) : session.Countable := by
  intro id ledger found
  have listed := Std.TreeMap.mem_toList_iff_getElem?_eq_some.mpr found
  exact of_decide_eq_true (List.all_eq_true.mp all _ listed)

def limitedRaw : List (Except Failure (Answer Nat Nat)) × Session Nat Nat :=
  (start {} (Config.raw.withByteLimit 8).asRaw .ascending).performAll
    (limitedRun.map (.configured Config.asRaw))

def limitedTracked : List (Except Failure (Answer Nat Nat)) × Session Nat Nat :=
  (start {} .tracked .ascending).performAll (limitedRun.map (.configured fun _ => .tracked))

theorem limitedRun_agrees :
    limitedTracked.1 = limitedRaw.1 ∧ limitedRaw.2.Agrees limitedTracked.2 ∧
      (close.runFrom limitedRaw.2).2.Agrees (close.runFrom limitedTracked.2).2 := by
  have legal : .error (.refused .undefinedUnderRaw) ∉ limitedRaw.1 := by
    intro member
    have kept : limitedRaw.1.all (fun
        | .error failure => failure ≠ .refused .undefinedUnderRaw
        | .ok _ => true) = true := by decide +kernel
    cases List.all_eq_true.mp kept _ member
  have closes : (close.runFrom limitedRaw.2).1 ≠ .error (.refused .undefinedUnderRaw) := by
    intro broken
    have kept : (close.runFrom limitedRaw.2).1.toBool = true := by decide +kernel
    rw [broken] at kept
    cases kept
  have countable : ∀ n ≤ limitedRun.length, ((start {} .tracked .ascending).performAll
      ((limitedRun.take n).map (.configured fun _ => .tracked))).2.process.ledgers.toList.all
        (fun entry => entry.2.counters.totalAllocations + 128 < wordLimit) = true := by
    decide +kernel
  have first : (start {} (Config.raw.withByteLimit 8).asRaw .ascending).performAll
      (limitedRun.map (.configured Config.asRaw)) = (limitedRaw.1, limitedRaw.2) :=
    Prod.mk.eta.symm
  have second : (start {} .tracked .ascending).performAll
      (limitedRun.map (.configured fun _ => .tracked)) =
        (limitedTracked.1, limitedTracked.2) := Prod.mk.eta.symm
  obtain ⟨same, agrees, afterwards⟩ := run_raw_tracked Allocator.ascending_lawful .warn
    (Config.raw.withByteLimit 8) first second legal fun earlier early => by
      rw [List.prefix_iff_eq_take.mp early]
      exact countable_of_all (countable _ early.length_le)
  exact ⟨same, agrees, (afterwards closes).2⟩

end Session

end SymbolStore
