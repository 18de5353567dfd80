import SymbolStore.Proofs.Interner.Run

/-!
The states that an interner comes to. It is valid in each; an insertion finds an empty bucket at its
first attempt; and the buckets become more only where a string is put in that would be too many.
-/

namespace SymbolStore

open SymbolStore.Action (Ends)

namespace Interner

variable {α : Type} {interner : Interner} {process : Process} {content : List UInt8} {hash : UInt64}

/-- What an insertion of bytes that are not there does first: it grows if they would be too many. -/
def prepare : Method Interner Unit := do
  let interner ← Method.self
  if overloaded (← Word.add interner.count 1) interner.capacity then grow

theorem insert_of_absent (value : List UInt8)
    (absent : interner.find process.heap content = .ok none) :
    (insert content value).runFrom (interner, process) =
      (do
        prepare
        return (← insertNew content (interner.hasher content) value, true)).runFrom
          (interner, process) := by
  rw [find] at absent
  simp only [insert, prepare, Action.runFrom_bind, Method.runFrom_self, Method.runFrom_heap,
    Action.runFrom_liftFault, absent, Except.mapError]
  cases Word.add interner.count 1 with
  | error _ => rfl
  | ok count =>
      dsimp only
      split
      · rw [Action.runFrom_bind]
        rcases grow.runFrom (interner, process) with ⟨_ | _, _⟩
        · rfl
        · exact Action.runFrom_bind _ _ _
      · exact Action.runFrom_bind _ _ _

theorem insert_of_present {entry : Pointer} (value : List UInt8)
    (present : interner.find process.heap content = .ok (some entry)) :
    (insert content value).runFrom (interner, process) =
      (.ok (interner.symbol entry, false), (interner, process)) := by
  rw [find] at present
  simp only [insert, Action.runFrom_bind, Method.runFrom_self, Method.runFrom_heap,
    Action.runFrom_liftFault, present, Except.mapError, Action.runFrom_pure]

theorem vacancy_of_empty {state : Interner × Process} {index : Nat}
    (found : firstEmpty state.1.table.buckets hash = .ok (some index)) (fuel : Nat) :
    (vacancy hash (fuel + 1)).runFrom state = (.ok index, state) := by
  simp only [vacancy, Action.runFrom_bind, Method.runFrom_self, Action.runFrom_liftFault, found,
    Except.mapError, Action.runFrom_pure]

section Buckets

theorem ofRegion_ends_table (x : Method Region α) (state : Interner × Process) :
    Ends (ofRegion x) state (fun _ after => after.1.table = state.1.table)
      fun _ after => after.1.table = state.1.table := by
  rw [ofRegion, Method.ends_ofPart]
  exact (Action.ends_trivial _ _).mono (fun _ _ _ => rfl) fun _ _ _ => rfl

theorem storeEntry_ends_table (value : List UInt8) (state : Interner × Process) :
    Ends (storeEntry content hash value) state (fun _ after => after.1.table = state.1.table)
      fun _ after => after.1.table = state.1.table := by
  rw [storeEntry, Action.ends_bind, Method.ends_self]
  dsimp only
  split
  · rfl
  · apply (ofRegion_ends_table _ state).bind (fun _ _ same => same)
    intro place after same
    rw [Action.ends_bind, Method.ends_self]
    apply (Method.liftProcess_ends _ after).bind
      (fun _ _ left => (congrArg Interner.table left).trans same)
    exact fun _ _ left => (congrArg Interner.table left).trans same

theorem insertNew_ends_capacity (value : List UInt8) (valid : interner.Valid process.heap) :
    Ends (insertNew content hash value) (interner, process)
      (fun _ after => after.1.capacity = interner.capacity)
      fun _ after => after.1.capacity = interner.capacity := by
  apply (vacancy_ends valid hash maxGrowths).bind (fun _ _ none => none.elim)
  rintro index _ ⟨rfl, -⟩
  apply (storeEntry_ends_table value (interner, process)).bind
    fun _ _ same => congrArg BucketArray.capacity same
  intro entry after same
  have kept : after.1.capacity = interner.capacity := congrArg BucketArray.capacity same
  simp only [Action.ends_bind, Method.ends_self, Action.ends_liftFault]
  cases Word.add after.1.count 1 with
  | error _ => exact kept
  | ok count => exact (after.1.capacity_withEntry index entry).trans kept

theorem setValue_ends_capacity (symbol : Symbol) (value : List UInt8) :
    Ends (setValue symbol value) (interner, process)
      (fun _ after => after.1.capacity = interner.capacity)
      fun failure after => failure = .refused .outsideBlock ∧
        after.1.capacity = interner.capacity := by
  rw [setValue, Action.ends_bind, Method.ends_self]
  cases interner.resolve? symbol with
  | none => rfl
  | some entry =>
      simp only [Action.ends_bind, Method.ends_liftProcess]
      exact (Process.store_ends _ _).mono (fun _ _ _ => rfl) fun _ _ refused => ⟨refused.1, trivial⟩

theorem clear_ends_capacity :
    Ends clear (interner, process) (fun _ after => after.1.capacity = interner.capacity)
      fun _ after => after.1.capacity = interner.capacity := by
  apply (ofRegion_ends_table Region.reset (interner, process)).bind
    fun _ _ same => congrArg BucketArray.capacity same
  intro _ after same
  have kept : after.1.capacity = interner.capacity := congrArg BucketArray.capacity same
  exact capacity_emptied.trans kept

end Buckets

/-- A string more would be too many for the buckets. -/
def Crowded (interner : Interner) : Prop := 3 * interner.capacity < 4 * (interner.count + 1)

instance (interner : Interner) : Decidable interner.Crowded := inferInstanceAs (Decidable (_ < _))

/-- A crowded interner grows. One with room for another string has nothing to prepare. -/
theorem runFrom_prepare (sound : interner.SoundIn process) :
    prepare.runFrom (interner, process) =
      if interner.Crowded then grow.runFrom (interner, process)
      else (.ok (), (interner, process)) := by
  have small := sound.capacity_lt
  have load := sound.valid.load
  have least := sound.valid.least
  unfold minBuckets at least
  have next : interner.count + 1 < wordLimit := by omega
  simp only [prepare, Action.runFrom_bind, Method.runFrom_self, Action.runFrom_liftFault, Word.add,
    if_pos next, Except.mapError, overloaded_iff small]
  by_cases crowded : interner.Crowded
  · rw [if_pos (show 3 * _ < _ from crowded), if_pos crowded]
  · rw [if_neg (show ¬ 3 * _ < _ from crowded), if_neg crowded]
    rfl

theorem ends_prepare {done : Unit → Interner × Process → Prop}
    {failed : Failure → Interner × Process → Prop} (sound : interner.SoundIn process) :
    Ends prepare (interner, process) done failed ↔
      if interner.Crowded then Ends grow (interner, process) done failed
      else done () (interner, process) := by
  rw [Ends, runFrom_prepare sound]
  by_cases crowded : interner.Crowded
  · rw [if_pos crowded, if_pos crowded, Ends]
  · rw [if_neg crowded, if_neg crowded]

theorem prepare_ends (sound : interner.SoundIn process) :
    Ends prepare (interner, process)
      (fun _ after => after.1.capacity = (if interner.Crowded then 2 else 1) * interner.capacity ∧
        interner.Continues interner.region.generation (interner.toList process.heap) after)
      fun _ after => interner.Crowded ∧ after.1 = interner := by
  rw [ends_prepare sound]
  by_cases crowded : interner.Crowded
  · rw [if_pos crowded, if_pos crowded]
    exact (grow_ends sound).mono (fun _ _ grown => grown) fun _ _ failed => ⟨crowded, failed.1⟩
  · rw [if_neg crowded, if_neg crowded, Nat.one_mul]
    exact ⟨rfl, sound.continues⟩

/-- An insertion doubles the buckets if it brings one string too many. -/
theorem insert_ends_capacity (content value : List UInt8) (sound : interner.SoundIn process) :
    Ends (insert content value) (interner, process)
      (fun _ after => after.1.capacity =
        (if holding (interner.toList process.heap) content = none ∧ interner.Crowded then 2 else 1) *
          interner.capacity)
      fun _ after => after.1.capacity = interner.capacity ∨
        (holding (interner.toList process.heap) content = none ∧ interner.Crowded) ∧
          after.1.capacity = 2 * interner.capacity := by
  rcases find_cases sound.valid content with ⟨entry, member, found, same⟩ | ⟨missed, lacks⟩
  · rw [Ends, insert_of_present value found, holding_of_content sound.valid member same]
    simp only [reduceCtorEq, false_and, if_false, Nat.one_mul]
  · rw [Ends, insert_of_absent value missed, ← Ends, holding_of_lacks lacks]
    simp only [true_and]
    apply (prepare_ends sound).bind fun _ _ failed => .inl (congrArg capacity failed.2)
    intro _ ready prepared
    obtain ⟨sized, continues⟩ := prepared
    apply (insertNew_ends_capacity value continues.sound.valid).bind
    · intro _ after same
      rw [same, sized]
      split
      · exact .inr ⟨‹_›, rfl⟩
      · exact .inl (Nat.one_mul _)
    · intro _ _ same
      exact same.trans sized

theorem ask_ends {β : Type} (ask : Interner → Heap → Except Fault β) (f : β → Answer)
    (state : Interner × Process) :
    Ends (do return f (← ask (← Method.self) (← Method.heap)) : Method Interner Answer) state
      (fun _ after => after = state) fun _ after => after = state := by
  simp only [Action.ends_bind, Method.ends_self, Method.ends_heap, Action.ends_liftFault]
  cases ask state.1 state.2.heap with
  | error _ => trivial
  | ok _ => rfl

instance (request : Request) (records : List Record) : Decidable (request.Adds records) :=
  match request with
  | .insert .. | .intern .. => inferInstanceAs (Decidable (_ = none))
  | .lookup _ | .get _ | .contains _ | .valueOf _ | .bytesOf _ | .setValue .. | .clear =>
    inferInstanceAs (Decidable False)

theorem perform_ends_capacity (request : Request) (sound : interner.SoundIn process) :
    Ends (perform request) (interner, process)
      (fun _ after => after.1.capacity =
        (if request.Adds (interner.toList process.heap) ∧ interner.Crowded then 2 else 1) *
          interner.capacity)
      fun _ after => after.1.capacity = interner.capacity ∨
        (request.Adds (interner.toList process.heap) ∧ interner.Crowded) ∧
          after.1.capacity = 2 * interner.capacity := by
  have unasked (idle : ¬ request.Adds (interner.toList process.heap))
      (ends : Ends (perform request) (interner, process)
        (fun _ after => after.1.capacity = interner.capacity)
        fun _ after => after.1.capacity = interner.capacity) :
      Ends (perform request) (interner, process)
        (fun _ after => after.1.capacity =
          (if request.Adds (interner.toList process.heap) ∧ interner.Crowded then 2 else 1) *
            interner.capacity)
        fun _ after => after.1.capacity = interner.capacity ∨
          (request.Adds (interner.toList process.heap) ∧ interner.Crowded) ∧
            after.1.capacity = 2 * interner.capacity := by
    rw [if_neg fun grows => idle grows.1, Nat.one_mul]
    exact ends.mono (fun _ _ same => same) fun _ _ same => .inl same
  have asked {β : Type} (ask : Interner → Heap → Except Fault β) (f : β → Answer) :
      Ends (do return f (← ask (← Method.self) (← Method.heap)) : Method Interner Answer)
        (interner, process) (fun _ after => after.1.capacity = interner.capacity)
        fun _ after => after.1.capacity = interner.capacity :=
    (ask_ends ask f _).mono (fun _ _ same => same ▸ rfl) fun _ _ same => same ▸ rfl
  cases request with
  | insert content value =>
      rw [perform, Action.ends_map]
      exact insert_ends_capacity content value sound
  | intern text default =>
      rw [perform, Action.ends_map, intern, Action.ends_bind]
      exact insert_ends_capacity text.toUTF8.toList default sound
  | lookup content => exact unasked id (asked (fun interner heap => interner.lookup heap content) _)
  | get content => exact unasked id (asked (fun interner heap => interner.get heap content) _)
  | contains content =>
      exact unasked id (asked (fun interner heap => interner.contains heap content) _)
  | valueOf symbol => exact unasked id rfl
  | bytesOf symbol => exact unasked id rfl
  | setValue symbol value =>
      refine unasked id ?_
      rw [perform, Action.ends_map]
      exact (setValue_ends_capacity symbol value).mono (fun _ _ same => same) fun _ _ => And.right
  | clear =>
      refine unasked id ?_
      rw [perform, Action.ends_bind]
      exact clear_ends_capacity

/-- Only a manager that cannot count another allocation stops a request with a fault. -/
theorem perform_ends_fault (request : Request) (sound : interner.SoundIn process)
    (room : interner.region.generation + request.isClear.toNat < wordLimit) :
    Ends (perform request) (interner, process) (fun _ _ => True) fun failure after =>
      ∀ fault, failure = .fault fault →
        fault = .overflow .add ∧ (interner.manager.ledgerIn after.2).Exhausted := by
  have known (knows : ∀ symbol ∈ request.symbol?, interner.Knows symbol) :
      Ends (perform request) (interner, process) (fun _ _ => True) fun failure after =>
        ∀ fault, failure = .fault fault →
          fault = .overflow .add ∧ (interner.manager.ledgerIn after.2).Exhausted := by
    apply (perform_ends request sound knows).mono fun _ _ _ => trivial
    intro failure after failed fault same
    subst same
    rcases failed with ⟨clears, last⟩ | ⟨-, denies, -⟩
    · rw [clears, Bool.toNat_true] at room
      exact absurd room (Nat.not_lt.mpr last)
    · rcases denies with ⟨_, short⟩ | ⟨overflow, exhausted⟩
      · cases short
      · cases overflow
        exact ⟨rfl, exhausted⟩
  cases request with
  | valueOf symbol | bytesOf symbol => trivial
  | setValue symbol value =>
      rw [perform, Action.ends_map]
      apply (setValue_ends_capacity symbol value).mono fun _ _ _ => trivial
      rintro _ _ ⟨rfl, -⟩ _ ⟨⟩
  | insert | intern | lookup | get | contains | clear => exact known (by simp [Request.symbol?])

variable {known : List Symbol}

theorem Remembers.performed (remembers : interner.Remembers process.heap known) (request : Request)
    (sound : interner.SoundIn process)
    (honest : ∀ symbol ∈ request.symbol?, symbol.interner = interner.region.id → symbol ∈ known)
    (room : interner.region.generation + request.isClear.toNat < wordLimit) :
    ∃ generation records, generation ≤ interner.region.generation + request.isClear.toNat ∧
      interner.Continues generation records ((perform request).runFrom (interner, process)).2 ∧
      ((perform request).runFrom (interner, process)).2.1.Remembers
        ((perform request).runFrom (interner, process)).2.2.heap
        (known ++ given
          { request
            outcome := ((perform request).runFrom (interner, process)).1
            after := ((perform request).runFrom (interner, process)).2 }) := by
  have ends := perform_ends request sound fun symbol presented =>
    remembers.knows (honest symbol presented)
  rcases ran : (perform request).runFrom (interner, process) with ⟨failure | answer, after⟩
  · rcases ends.of_error ran with ⟨clears, last⟩ | ⟨-, -, continues⟩
    · rw [clears, Bool.toNat_true] at room
      exact absurd room (Nat.not_lt.mpr last)
    · refine ⟨_, _, Nat.le_add_right _ _, continues, ?_⟩
      rw [given, List.append_nil]
      exact remembers.kept continues
  · obtain ⟨fresh, rfl, continues⟩ := ends.of_ok ran
    exact ⟨_, _, Nat.le_refl _, continues, remembers.answered continues⟩

theorem final_continues (requests : List Request) (sound : interner.SoundIn process)
    (remembers : interner.Remembers process.heap known)
    (few : interner.region.generation + requests.countP Request.isClear < wordLimit)
    (honest : Honest interner.region.id known (Method.run perform requests (interner, process))) :
    ∃ generation records,
      generation ≤ interner.region.generation + requests.countP Request.isClear ∧
      interner.Continues generation records
        (Method.final perform requests (interner, process)) := by
  induction requests generalizing interner process known with
  | nil => exact ⟨_, _, Nat.le_refl _, sound.continues⟩
  | cons request rest ih =>
      rw [Method.run_cons] at honest
      have counted : (request :: rest).countP Request.isClear =
          rest.countP Request.isClear + request.isClear.toNat := by
        rw [List.countP_cons]
        cases request.isClear <;> rfl
      rw [counted] at few ⊢
      obtain ⟨generation, records, bound, continues, remembered⟩ :=
        remembers.performed request sound honest.1 (by omega)
      have reached := continues.generation
      have later := honest.2
      rw [← continues.id] at later
      obtain ⟨last, final, total, whole⟩ := ih continues.sound remembered (by omega) later
      exact ⟨last, final, by omega, continues.trans whole (.refl _)⟩

/-- What one request does to an interner that is in order. -/
structure Regular (interner : Interner) (process : Process) (request : Request)
    (outcome : Except Failure Answer) (after : Interner × Process) : Prop where
  /-- The buckets are twice as many if it adds a string that would be one too many, or else as many
  as before. -/
  answered : ∀ answer, outcome = .ok answer → after.1.capacity =
    (if request.Adds (interner.toList process.heap) ∧ interner.Crowded then 2 else 1) *
      interner.capacity
  failed : ∀ failure, outcome = .error failure → after.1.capacity = interner.capacity ∨
    (request.Adds (interner.toList process.heap) ∧ interner.Crowded) ∧
      after.1.capacity = 2 * interner.capacity
  /-- Only a manager that cannot count another allocation stops it. -/
  stopped : ∀ fault, outcome = .error (.fault fault) →
    fault = .overflow .add ∧ (interner.manager.ledgerIn after.2).Exhausted

theorem SoundIn.regular (sound : interner.SoundIn process) {request : Request}
    {outcome : Except Failure Answer} {after : Interner × Process}
    (room : interner.region.generation + request.isClear.toNat < wordLimit)
    (ran : (perform request).runFrom (interner, process) = (outcome, after)) :
    interner.Regular process request outcome after := by
  have capacity := perform_ends_capacity request sound
  have fault := perform_ends_fault request sound room
  constructor
  · rintro answer rfl
    exact capacity.of_ok ran
  · rintro failure rfl
    exact capacity.of_error ran
  · rintro cause rfl
    exact fault.of_error ran cause rfl

/-- An interner that is prepared for an insertion has an empty bucket on the way of every hash, which
the first attempt to find one comes to. -/
theorem SoundIn.vacancy_prepared {ready : Interner × Process} (sound : interner.SoundIn process)
    (prepared : prepare.runFrom (interner, process) = (.ok (), ready)) (hash : UInt64) :
    ∃ index, firstEmpty ready.1.table.buckets hash = .ok (some index) ∧
      ∀ fuel, (vacancy hash (fuel + 1)).runFrom ready = (.ok index, ready) := by
  have valid := ((prepare_ends sound).of_ok prepared).2.sound.valid
  obtain ⟨index, found, -, -⟩ := firstEmpty_some hash valid.size (Bucket.exists_empty valid.room)
  exact ⟨index, found, vacancy_of_empty found⟩

/-- In every state that a new interner comes to, its representation is valid; an insertion that has
prepared for its string finds an empty bucket at the first attempt, however many it may make; and
requests double the buckets only to add a string, and none stops for want of one. -/
theorem reachable_valid {manager : Manager} {requested : Nat} {value : Layout}
    {hasher : List UInt8 → UInt64} {start : Process} (memory : process.Sound)
    (align : isPowerOfTwo value.align = true)
    (created : (create manager requested value hasher).runFrom process = (.ok interner, start))
    (requests : List Request) (few : requests.countP Request.isClear < wordLimit)
    (honest : Honest interner.region.id [] (Method.run perform requests (interner, start))) :
    let state := Method.final perform requests (interner, start)
    (state.1.Valid state.2.heap ∧ state.1.hasher = hasher ∧ state.1.manager = manager ∧
      ∀ entry ∈ state.1.entries,
        Entry.length state.2.heap entry = (state.1.content state.2.heap entry).length) ∧
    (∀ ready, prepare.runFrom state = (.ok (), ready) → ∀ hash, ∃ index,
      firstEmpty ready.1.table.buckets hash = .ok (some index) ∧
        ∀ fuel, (vacancy hash (fuel + 1)).runFrom ready = (.ok index, ready)) ∧
    ∀ request outcome after, (perform request).runFrom state = (outcome, after) →
      requests.countP Request.isClear + request.isClear.toNat < wordLimit →
      state.1.Regular state.2 request outcome after := by
  obtain ⟨sound, rfl, rfl, rfl, -, first⟩ :=
    (create_ends requested hasher memory align).of_ok created
  have remembers : interner.Remembers start.heap [] := fun _ member => by cases member
  obtain ⟨generation, records, bound, continues⟩ :=
    final_continues requests sound remembers (by omega) honest
  have reached := continues.generation
  refine ⟨⟨continues.sound.valid, continues.hasher, continues.manager, ?_⟩, ?_, ?_⟩
  · exact fun entry _ => (Entry.length_bytes _ _ entry).symm
  · exact fun ready prepared => continues.sound.vacancy_prepared prepared
  · exact fun request outcome after ran more => continues.sound.regular (by omega) ran

theorem reachable_valid_bytes : ∃ (interner : Interner) (start : Process),
    (create ⟨0⟩ 4 ⟨1, 1⟩ fun _ => 0).runFrom ((Manager.create .tracked).runFrom {}).2 =
      (.ok interner, start) ∧
    (Method.final perform [.insert [1] [2], .setValue ⟨1, 0, ⟨69648, 0⟩⟩ [3], .insert [4] [5],
      .clear, .insert [6] []] (interner, start)).1.Valid
      (Method.final perform [.insert [1] [2], .setValue ⟨1, 0, ⟨69648, 0⟩⟩ [3], .insert [4] [5],
        .clear, .insert [6] []] (interner, start)).2.heap := by
  obtain ⟨interner, start, created, issued⟩ := strings_created
  refine ⟨interner, start, created, (reachable_valid
    (Manager.sound_create Allocator.ascending_lawful _) rfl created _ (by decide) ?_).1.1⟩
  simp [Honest, given, Request.symbol?, issued, Answer.symbols]

end Interner

end SymbolStore
