import SymbolStore.Proofs.Interner.Final
import SymbolStore.Proofs.Twin.Framed
import SymbolStore.Proofs.Twin.Structures

/-!
Two interners that differ in their hash functions. Their buckets have nothing in common, but what
either takes from its manager and from its region depends on the number of its strings and on their
lengths only. So the blocks of both are at the same addresses, and both answer alike.
-/

namespace SymbolStore

open SymbolStore.Action (Ends Lockstep Respects)

namespace Interner

/-- Two interners that look the same from outside, in processes with the same blocks. Which entries
are in which buckets, and what is written in the blocks, is left open. -/
structure SameShape (s t : Interner × Process) : Prop where
  manager : t.1.manager = s.1.manager
  value : t.1.value = s.1.value
  capacity : t.1.capacity = s.1.capacity
  count : t.1.count = s.1.count
  block : t.1.table.block = s.1.table.block
  region : t.1.region = s.1.region
  framed : s.2.Framed t.2

variable {x y : Interner} {p q process : Process} {s t : Interner × Process} {content : List UInt8}

theorem SameShape.within {p' q' : Process} (shape : SameShape (x, p) (y, q))
    (framed : p'.Framed q') : SameShape (x, p') (y, q') :=
  ⟨shape.manager, shape.value, shape.capacity, shape.count, shape.block, shape.region, framed⟩

theorem SameShape.withTables {p' q' : Process} {here there : BucketArray Pointer}
    (shape : SameShape (x, p) (y, q)) (framed : p'.Framed q') (block : there.block = here.block)
    (capacity : there.capacity = here.capacity) :
    SameShape (x.withTable here, p') (y.withTable there, q') :=
  ⟨shape.manager, shape.value, capacity, shape.count, block, shape.region, framed⟩

theorem SameShape.inRegion {α : Type} {step : Method Region α} {cost : Nat}
    (shape : SameShape (x, p) (y, q))
    (respects : Respects (fun _ => False) (Region.Abreast (fun _ => True) Process.Framing) cost
      step) :
    Lockstep (fun _ _ => False) (fun _ _ => False) (ofRegion step) (ofRegion step) (x, p) (y, q)
      (fun a b s t => b = a ∧ SameShape s t) fun _ => SameShape := by
  rw [ofRegion, Method.ofPart]
  apply Action.lockstep_within
  have region : y.region = x.region := shape.region
  refine (respects 0 (x.region, p) (y.region, q) ⟨region, trivial, shape.framed⟩).mono ?_ ?_
  · rintro a b s t ⟨same, _, -, equal, -, framed⟩
    exact ⟨same, shape.manager, shape.value, shape.capacity, shape.count, shape.block, equal,
      framed⟩
  · rintro _ s t ⟨_, -, equal, -, framed⟩
    exact ⟨shape.manager, shape.value, shape.capacity, shape.count, shape.block, equal, framed⟩

theorem rehashed_lockstep {manager : Manager} {here there : BucketArray Pointer} {table : Rehash}
    {hashOf hashOf' : Pointer → UInt64} {capacity : Nat} (size : TableSize capacity)
    (fits : (Bucket.entries here.buckets).length ≤ capacity)
    (fits' : (Bucket.entries there.buckets).length ≤ capacity) (framed : p.Framed q) :
    Lockstep (fun _ _ => False) (fun _ _ => False) (here.rehashed manager table hashOf capacity)
      (there.rehashed manager table hashOf' capacity) p q
      (fun a b p q => b.block = a.block ∧ a.capacity = capacity ∧ b.capacity = capacity ∧
        p.Framed q)
      fun _ => Process.Framed := by
  obtain ⟨buckets, rehashed, sized, -⟩ := rehash_placed table hashOf here.buckets size fits
  obtain ⟨buckets', rehashed', sized', -⟩ := rehash_placed table hashOf' there.buckets size fits'
  rw [BucketArray.rehashed, BucketArray.rehashed]
  apply (framed.lockstep
    (manager.allocateArray_respects Process.framing_parallel _ capacity trivial)).bind fun _ _ _ left => left
  rintro block _ p q ⟨rfl, framed⟩
  rw [rehashed, rehashed']
  exact ⟨rfl, sized, sized', framed⟩

theorem grow_lockstep (here : x.SoundIn p) (there : y.SoundIn q)
    (shape : SameShape (x, p) (y, q)) :
    Lockstep (fun _ _ => False) (fun _ _ => False) grow grow (x, p) (y, q) (fun _ _ => SameShape)
      fun _ => SameShape := by
  have small := here.capacity_lt
  have least := here.valid.least
  have capacity : y.capacity = x.capacity := shape.capacity
  have count : y.count = x.count := shape.count
  have manager : y.manager = x.manager := shape.manager
  obtain ⟨grown, size⟩ := grownCapacity_eq here.valid.size least small
  have fits : (Bucket.entries x.table.buckets).length ≤ 2 * x.capacity := by
    have load := here.valid.load
    have length : x.count = (Bucket.entries x.table.buckets).length := here.valid.count
    omega
  have fits' : (Bucket.entries y.table.buckets).length ≤ 2 * x.capacity := by
    have load := there.valid.load
    have length : y.count = (Bucket.entries y.table.buckets).length := there.valid.count
    omega
  have above : x.capacity + 1 < wordLimit := by
    unfold minBuckets at least
    omega
  have next : Word.add x.capacity 1 = .ok (x.capacity + 1) := by rw [Word.add, if_pos above]
  have next' : Word.add y.capacity 1 = .ok (x.capacity + 1) := by rw [capacity, next]
  rw [grow]
  refine .step (by rfl) (by rfl) (.step (by rfl) (by rfl) ?_)
  dsimp only
  rw [next, next', capacity, manager]
  refine .step (by rfl) (by rfl) ?_
  rw [grown, count]
  refine Method.lockstep_process (rehashed_lockstep size fits fits' shape.framed)
    (fun _ _ _ framed => shape.within framed) ?_
  rintro fresh other p q ⟨block, sized, sized', framed⟩
  have same := sized'.trans sized.symm
  refine Method.lockstep_process (framed.lockstep (Manager.log_framing _ _ _))
    (fun _ _ _ framed => shape.within framed) ?_
  rintro _ _ p q ⟨-, framed⟩
  refine .step (by rfl) (by rfl) ?_
  rw [shape.block]
  have freed := framed.lockstep
    (x.manager.free_respects Process.framing_elementary x.table.block)
  refine Method.lockstep_lift (freed.mono ?_ ?_)
  · exact fun _ _ _ _ freed => shape.withTables freed.2 block same
  · exact fun _ _ _ framed => shape.withTables framed block same

theorem prepare_lockstep (here : x.SoundIn p) (there : y.SoundIn q)
    (shape : SameShape (x, p) (y, q)) :
    Lockstep (fun _ _ => False) (fun _ _ => False) prepare prepare (x, p) (y, q) (fun _ _ => SameShape)
      fun _ => SameShape := by
  have capacity : y.capacity = x.capacity := shape.capacity
  have count : y.count = x.count := shape.count
  rw [prepare]
  refine .step (by rfl) (by rfl) ?_
  dsimp only
  rw [count, capacity]
  refine .ofFault (fun _ => shape) fun used _ => ?_
  split
  · exact grow_lockstep here there shape
  · exact shape

theorem store_lockstep {layout : Layout} {entry : Pointer} {hash hash' : UInt64}
    {value : List UInt8} (framed : p.Framed q) :
    Lockstep (fun _ _ => False) (fun _ _ => False) (Entry.store layout entry content hash value)
      (Entry.store layout entry content hash' value) p q (fun _ _ => Process.Framed)
      fun _ => Process.Framed := by
  have hashes : (Word.toBytes hash').length = (Word.toBytes hash).length :=
    (Word.length_toBytes hash').trans (Word.length_toBytes hash).symm
  rw [Entry.store, Entry.store]
  apply (framed.store_lockstep entry hashes).bind fun _ _ _ => id
  intro _ _ p q framed
  apply (framed.store_lockstep _ rfl).bind fun _ _ _ => id
  intro _ _ p q framed
  apply (framed.store_lockstep _ rfl).bind fun _ _ _ => id
  exact fun _ _ p q framed => framed.store_lockstep _ rfl

/-- The same bytes go to the same place, each with the hash that it has here or there. -/
theorem storeEntry_lockstep {hash hash' : UInt64} (value : List UInt8)
    (shape : SameShape (x, p) (y, q)) :
    Lockstep (fun _ _ => False) (fun _ _ => False) (storeEntry content hash value)
      (storeEntry content hash' value) (x, p) (y, q) (fun a b s t => b = a ∧ SameShape s t) fun _ => SameShape := by
  have layout : y.value = x.value := shape.value
  rw [storeEntry]
  refine .step (by rfl) (by rfl) ?_
  dsimp only
  rw [layout]
  cases Word.add? (Entry.header x.value).size content.length with
  | none => exact Action.lockstep_fail shape
  | some size =>
      apply (shape.inRegion (Region.allocate_respects Process.framing_parallel _)).bind
        fun _ _ _ left => left
      rintro place _ ⟨x, p⟩ ⟨y, q⟩ ⟨rfl, after⟩
      have region : y.region = x.region := after.region
      refine .step (by rfl) (by rfl) ?_
      dsimp only
      rw [region]
      refine Method.lockstep_process (store_lockstep after.framed)
        (fun _ _ _ framed => after.within framed) ?_
      exact fun _ _ p q framed => ⟨rfl, after.within framed⟩

theorem insertNew_lockstep {hash hash' : UInt64} (value : List UInt8) (here : x.SoundIn p)
    (there : y.SoundIn q) (shape : SameShape (x, p) (y, q)) :
    Lockstep (fun _ _ => False) (fun _ _ => False) (insertNew content hash value)
      (insertNew content hash' value) (x, p) (y, q) (fun a b s t => b = a ∧ SameShape s t) fun _ => SameShape := by
  obtain ⟨index, found, -, -⟩ :=
    firstEmpty_some hash here.valid.size (Bucket.exists_empty here.valid.room)
  obtain ⟨index', found', -, -⟩ :=
    firstEmpty_some hash' there.valid.size (Bucket.exists_empty there.valid.room)
  rw [insertNew, insertNew]
  refine .step (vacancy_of_empty found _) (vacancy_of_empty found' _) ?_
  apply (storeEntry_lockstep value shape).bind fun _ _ _ left => left
  rintro entry _ ⟨x, p⟩ ⟨y, q⟩ ⟨rfl, shape⟩
  have count : y.count = x.count := shape.count
  refine .step (by rfl) (by rfl) ?_
  dsimp only
  rw [count]
  refine .ofFault (fun _ => shape) fun more _ => ?_
  refine .step (by rfl) (by rfl) (.step (by rfl) (by rfl) ?_)
  refine ⟨?_, ?_⟩
  · have region : y.region = x.region := shape.region
    show y.symbol _ = x.symbol _
    rw [symbol, symbol, region]
  · refine ⟨shape.manager, shape.value, ?_, rfl, shape.block, shape.region, shape.framed⟩
    show (y.table.put index' _).capacity = (x.table.put index _).capacity
    simp only [BucketArray.put, BucketArray.capacity, Array.size_setIfInBounds]
    exact shape.capacity

/-- Strings that either holds are in the other too, with the same symbols. -/
theorem insert_lockstep (content value : List UInt8) (here : x.SoundIn p) (there : y.SoundIn q)
    (shape : SameShape (x, p) (y, q)) (records : (y.toList q.heap).Perm (x.toList p.heap)) :
    Lockstep (fun _ _ => False) (fun _ _ => False) (insert content value) (insert content value)
      (x, p) (y, q) (fun a b s t => b = a ∧ SameShape s t) fun _ => SameShape := by
  have held := there.valid.distinct_toList.holding_perm records content
  rcases find_cases here.valid content with ⟨entry, member, found, same⟩ | ⟨missed, lacks⟩
  · rw [holding_of_content here.valid member same] at held
    rcases find_cases there.valid content with ⟨entry', member', found', same'⟩ | ⟨-, lacks'⟩
    · rw [holding_of_content there.valid member' same'] at held
      have symbols := congrArg Prod.fst (Option.some.inj held)
      refine .last (insert_of_present value found) (insert_of_present value found') ⟨?_, shape⟩
      exact congrArg (·, false) symbols
    · rw [holding_of_lacks lacks'] at held
      cases held
  · rw [holding_of_lacks lacks] at held
    rcases find_cases there.valid content with ⟨entry', member', -, same'⟩ | ⟨missed', -⟩
    · rw [holding_of_content there.valid member' same'] at held
      cases held
    · rw [Action.lockstep_congr (insert_of_absent value missed) (insert_of_absent value missed')]
      apply ((prepare_lockstep here there shape).and (prepare_ends here) (prepare_ends there)).bind
        fun _ _ _ ends => ends.1
      rintro _ _ ⟨x, p⟩ ⟨y, q⟩ ⟨shape, ⟨-, ready⟩, -, ready'⟩
      apply (insertNew_lockstep value ready.sound ready'.sound shape).bind fun _ _ _ left => left
      rintro symbol _ s t ⟨rfl, shape⟩
      exact ⟨rfl, shape⟩

theorem setValue_lockstep (symbol : Symbol) (value : List UInt8)
    (shape : SameShape (x, p) (y, q)) :
    Lockstep (fun _ _ => False) (fun _ _ => False) (setValue symbol value) (setValue symbol value)
      (x, p) (y, q) (fun a b s t => b = a ∧ SameShape s t) fun _ => SameShape := by
  have region : y.region = x.region := shape.region
  have layout : y.value = x.value := shape.value
  have resolved : y.resolve? symbol = x.resolve? symbol := by rw [resolve?, resolve?, region]
  rw [setValue]
  refine .step (by rfl) (by rfl) ?_
  dsimp only
  rw [resolved, layout]
  cases x.resolve? symbol with
  | none => exact ⟨rfl, shape⟩
  | some entry =>
      refine Method.lockstep_process (shape.framed.store_lockstep _ rfl)
        (fun _ _ _ framed => shape.within framed) ?_
      exact fun _ _ p q framed => ⟨rfl, shape.within framed⟩

theorem clear_lockstep (shape : SameShape (x, p) (y, q)) :
    Lockstep (fun _ _ => False) (fun _ _ => False) clear clear (x, p) (y, q) (fun _ _ => SameShape)
      fun _ => SameShape := by
  rw [clear]
  apply (shape.inRegion (Region.reset_respects Process.framing_parallel)).bind fun _ _ _ left => left
  rintro _ _ ⟨x, p⟩ ⟨y, q⟩ ⟨-, shape⟩
  have capacity : y.emptied.capacity = x.emptied.capacity :=
    capacity_emptied.trans (shape.capacity.trans capacity_emptied.symm)
  have emptied {p q : Process} (framed : p.Framed q) : SameShape (x.emptied, p) (y.emptied, q) :=
    ⟨shape.manager, shape.value, capacity, rfl, shape.block, shape.region, framed⟩
  refine .step (by rfl) (by rfl) (.step (by rfl) (by rfl) ?_)
  show Lockstep _ _ _ (Method.ofProcess (Process.log .trace .interner fun _ =>
    s!"string table cleared ({y.emptied.capacity} buckets kept)")) _ _ _ _
  rw [capacity]
  refine Method.lockstep_lift ((shape.framed.lockstep (Manager.log_framing _ _ _)).mono ?_ ?_)
  · exact fun _ _ _ _ logged => emptied logged.2
  · exact fun _ _ _ framed => emptied framed

/-- Two interners in order that look the same from outside and hold the same. -/
structure Twins (s t : Interner × Process) : Prop where
  here : s.1.SoundIn s.2
  there : t.1.SoundIn t.2
  shape : SameShape s t
  records : (t.1.toList t.2.heap).Perm (s.1.toList s.2.heap)

def Request.asks : Request → Bool
  | lookup _ | get _ | contains _ | valueOf _ | bytesOf _ => true
  | insert .. | intern .. | setValue .. | clear => false

theorem Request.asks_ends {request : Request} (asks : request.asks = true)
    (state : Interner × Process) :
    Ends (perform request) state (fun _ after => after = state) fun _ after => after = state := by
  cases request with
  | lookup content => exact ask_ends (fun interner heap => interner.lookup heap content) _ state
  | get content => exact ask_ends (fun interner heap => interner.get heap content) _ state
  | contains content => exact ask_ends (fun interner heap => interner.contains heap content) _ state
  | valueOf | bytesOf => rfl
  | insert | intern | setValue | clear => cases asks

theorem Twins.asks_lockstep {request : Request} (twins : Twins (x, p) (y, q))
    (asks : request.asks = true) (knows : ∀ symbol ∈ request.symbol?, x.Knows symbol)
    (knows' : ∀ symbol ∈ request.symbol?, y.Knows symbol) :
    Lockstep (fun _ _ => False) (fun _ _ => False) (perform request) (perform request) (x, p) (y, q)
      (fun a b s t => b = a ∧ SameShape s t) fun _ => SameShape := by
  obtain ⟨here, there, shape, records⟩ := twins
  have layout : y.value = x.value := shape.value
  have idle (records : List Record) : request.isClear = false ∧ ¬ request.Adds records := by
    cases request <;> first | exact ⟨rfl, id⟩ | cases asks
  have answers {x : Interner} {p : Process} (sound : x.SoundIn p)
      (knows : ∀ symbol ∈ request.symbol?, x.Knows symbol) :
      Ends (perform request) (x, p)
        (fun a after => after = (x, p) ∧
          ∃ fresh, a = (request.onMap x.value fresh (x.toList p.heap)).1)
        fun _ _ => False := by
    apply ((Request.asks_ends asks (x, p)).and (perform_ends request sound knows)).mono
    · rintro a after ⟨same, fresh, answer, -⟩
      exact ⟨same, fresh, answer⟩
    · rintro _ _ ⟨-, ⟨clears, -⟩ | ⟨adds, -⟩⟩
      · exact absurd clears (Bool.eq_false_iff.mp (idle []).1)
      · exact (idle _).2 adds
  apply Action.lockstep_of_ends (answers here knows) (answers there knows')
  rintro _ _ _ _ ⟨rfl, fresh, rfl⟩ ⟨rfl, fresh', rfl⟩
  refine ⟨?_, shape⟩
  rw [layout, (onMap_perm there.valid.distinct_toList records request x.value fresh').1]
  cases request <;> first | rfl | cases asks

/-- In one request both do the same, so far as it can be seen from outside. -/
theorem Twins.perform_lockstep (request : Request) (twins : Twins (x, p) (y, q))
    (knows : ∀ symbol ∈ request.symbol?, x.Knows symbol)
    (knows' : ∀ symbol ∈ request.symbol?, y.Knows symbol) :
    Lockstep (fun _ _ => False) (fun _ _ => False) (perform request) (perform request) (x, p) (y, q)
      (fun a b s t => b = a ∧ SameShape s t) fun _ => SameShape := by
  have asked (asks : request.asks = true) := twins.asks_lockstep asks knows knows'
  obtain ⟨here, there, shape, records⟩ := twins
  cases request with
  | insert content value =>
      apply Action.lockstep_map
      apply (insert_lockstep content value here there shape records).mono ?_ fun _ _ _ => id
      rintro a _ s t ⟨rfl, shape⟩
      exact ⟨rfl, shape⟩
  | intern text default =>
      apply Action.lockstep_map
      rw [intern]
      apply (insert_lockstep _ default here there shape records).bind fun _ _ _ => id
      rintro a _ s t ⟨rfl, shape⟩
      exact ⟨rfl, shape⟩
  | setValue symbol value =>
      apply Action.lockstep_map
      apply (setValue_lockstep symbol value shape).mono ?_ fun _ _ _ => id
      rintro a _ s t ⟨rfl, shape⟩
      exact ⟨rfl, shape⟩
  | clear =>
      apply (clear_lockstep shape).bind fun _ _ _ => id
      exact fun _ _ s t shape => ⟨rfl, shape⟩
  | lookup | get | contains | valueOf | bytesOf =>
      exact asked rfl

/-- Answers show what is new, so maps that answer alike hold the same afterwards. -/
theorem Request.onMap_fresh {layout : Layout} {fresh other : Symbol} {request : Request}
    {records : List Record}
    (same : (request.onMap layout other records).1 = (request.onMap layout fresh records).1) :
    (request.onMap layout other records).2 = (request.onMap layout fresh records).2 := by
  cases request with
  | insert content value =>
      simp only [onMap, put] at same ⊢
      split at same
      · rfl
      · cases same
        rfl
  | intern text default =>
      simp only [onMap, put] at same ⊢
      split at same
      · rfl
      · cases same
        rfl
  | lookup | get | contains | valueOf | bytesOf | setValue | clear => rfl

theorem Twins.performed (twins : Twins (x, p) (y, q)) (request : Request)
    (knows : ∀ symbol ∈ request.symbol?, x.Knows symbol)
    (knows' : ∀ symbol ∈ request.symbol?, y.Knows symbol)
    (room : x.region.generation + request.isClear.toNat < wordLimit) :
    ((perform request).runFrom (y, q)).1 = ((perform request).runFrom (x, p)).1 ∧
      Twins ((perform request).runFrom (x, p)).2 ((perform request).runFrom (y, q)).2 := by
  have both := twins.perform_lockstep request knows knows'
  obtain ⟨here, there, shape, records⟩ := twins
  have distinct := there.valid.distinct_toList
  have layout : y.value = x.value := shape.value
  have region : y.region = x.region := shape.region
  apply Action.Lockstep.outcomes (show Lockstep (fun _ _ => False) _ _ _ _ _ _ _ from ?_) fun _ _ => id
  apply (both.and (perform_ends request here knows) (perform_ends request there knows')).mono
  · rintro a b s t ⟨⟨rfl, after⟩, ⟨fresh, answer, continues⟩, fresh', answer', continues'⟩
    refine ⟨rfl, continues.sound, continues'.sound, after, ?_⟩
    rw [layout] at answer' continues'
    obtain ⟨answers, left⟩ := onMap_perm distinct records request x.value fresh'
    have same : (request.onMap x.value fresh' (x.toList p.heap)).2 =
        (request.onMap x.value fresh (x.toList p.heap)).2 :=
      Request.onMap_fresh (answers.symm.trans (answer'.symm.trans answer))
    rw [same] at left
    exact continues'.records.trans (left.trans continues.records.symm)
  · rintro failure s t ⟨after, ends, ends'⟩
    rw [region] at ends'
    rcases ends with ⟨clears, last⟩ | ⟨-, -, continues⟩
    · rw [clears, Bool.toNat_true] at room
      exact absurd room (Nat.not_lt.mpr last)
    · rcases ends' with ⟨clears, last⟩ | ⟨-, -, continues'⟩
      · rw [clears, Bool.toNat_true] at room
        exact absurd room (Nat.not_lt.mpr last)
      · refine ⟨continues.sound, continues'.sound, after, ?_⟩
        exact continues'.records.trans (records.trans continues.records.symm)

/-- Two steps that nobody can tell apart: the answers, the numbers of strings and of buckets, the
regions, the managers' counters and the log are the same, and only the order of the strings and what
is written in the blocks may differ. -/
structure Indistinct (s t : Step Request Answer Interner) : Prop where
  request : t.request = s.request
  outcome : t.outcome = s.outcome
  count : t.after.1.count = s.after.1.count
  capacity : t.after.1.capacity = s.after.1.capacity
  region : t.after.1.region = s.after.1.region
  process : t.after.2 = { s.after.2 with heap := t.after.2.heap }
  records : (t.after.1.toList t.after.2.heap).Perm (s.after.1.toList s.after.2.heap)

theorem Twins.indistinct {s t : Step Request Answer Interner} (twins : Twins s.after t.after)
    (request : t.request = s.request) (outcome : t.outcome = s.outcome) : Indistinct s t where
  request := request
  outcome := outcome
  count := twins.shape.count
  capacity := twins.shape.capacity
  region := twins.shape.region
  process := by
    obtain ⟨-, heap, -, process⟩ := twins.shape.framed
    rw [process]
  records := twins.records

theorem Twins.run_indistinct {known : List Symbol} (requests : List Request)
    (twins : Twins (x, p) (y, q)) (remembers : x.Remembers p.heap known)
    (remembers' : y.Remembers q.heap known)
    (few : x.region.generation + requests.countP Request.isClear < wordLimit)
    (honest : Honest x.region.id known (Method.run perform requests (x, p))) :
    List.Forall₂ Indistinct (Method.run perform requests (x, p))
      (Method.run perform requests (y, q)) := by
  induction requests generalizing x y p q known with
  | nil => exact .nil
  | cons request rest ih =>
      have region : y.region = x.region := twins.shape.region
      have counted : (request :: rest).countP Request.isClear =
          rest.countP Request.isClear + request.isClear.toNat := by
        rw [List.countP_cons]
        cases request.isClear <;> rfl
      rw [counted] at few
      rw [Method.run_cons] at honest
      rw [Method.run_cons, Method.run_cons]
      have honest' : ∀ symbol ∈ request.symbol?, symbol.interner = y.region.id → symbol ∈ known := by
        rw [region]
        exact honest.1
      obtain ⟨outcome, after⟩ := twins.performed request
        (fun symbol presented => remembers.knows (honest.1 symbol presented))
        (fun symbol presented => remembers'.knows (honest' symbol presented)) (by omega)
      obtain ⟨generation, records, bound, continues, known⟩ :=
        remembers.performed request twins.here honest.1 (by omega)
      obtain ⟨-, -, -, -, known'⟩ :=
        remembers'.performed request twins.there honest' (by rw [region]; omega)
      have later := honest.2
      rw [← continues.id] at later
      refine .cons (after.indistinct rfl outcome) (ih after known ?_ ?_ later)
      · rw [given, outcome] at known'
        exact known'
      · rw [continues.generation]
        omega

/-- The hash function has no part in making an interner. -/
theorem create_hasher (manager : Manager) (requested : Nat) (value : Layout)
    (hasher other : List UInt8 → UInt64) :
    create manager requested value other =
      (fun interner => { interner with hasher := other }) <$>
        create manager requested value hasher := by
  simp only [create, map_bind, map_pure]

/-- The hash function cannot be seen from outside. An interner is made in the same way with one as
with another; and if both are then given the same requests, among them whatever symbols they have
given out, they answer alike at every step, take the same blocks from their manager, and hold the
same strings with the same symbols and values, if perhaps in another order. -/
theorem run_hasher_indistinct {manager : Manager} {requested : Nat} {value : Layout}
    (hasher other : List UInt8 → UInt64) (memory : process.Sound) (blind : process.allocator.Blind)
    (align : isPowerOfTwo value.align = true) :
    (create manager requested value other).runFrom process =
      (((create manager requested value hasher).runFrom process).1.map
          fun interner => { interner with hasher := other },
        ((create manager requested value hasher).runFrom process).2) ∧
    ∀ interner start,
      (create manager requested value hasher).runFrom process = (.ok interner, start) →
      ∀ requests : List Request, requests.countP Request.isClear < wordLimit →
        Honest interner.region.id [] (Method.run perform requests (interner, start)) →
        List.Forall₂ Indistinct (Method.run perform requests (interner, start))
          (Method.run perform requests ({ interner with hasher := other }, start)) := by
  have created : (create manager requested value other).runFrom process =
      (((create manager requested value hasher).runFrom process).1.map
          fun interner => { interner with hasher := other },
        ((create manager requested value hasher).runFrom process).2) := by
    rw [create_hasher manager requested value hasher other, Action.runFrom_map]
  refine ⟨created, ?_⟩
  intro interner start ran requests few honest
  rw [ran] at created
  obtain ⟨sound, -, -, -, empty, first⟩ := (create_ends requested hasher memory align).of_ok ran
  obtain ⟨sound', -, -, -, empty', -⟩ := (create_ends requested other memory align).of_ok created
  have creates : Action.Respects (fun _ => False) Process.Framing 1
      (create manager requested value hasher) :=
    create_respects Process.framing_parallel requested value hasher trivial
  have framed := (((Process.Framed.refl blind).lockstep creates).of_ok ran ran).2
  have shape : SameShape (interner, start) ({ interner with hasher := other }, start) :=
    ⟨rfl, rfl, rfl, rfl, rfl, rfl, framed⟩
  have unused : interner.toList start.heap = [] := by rw [toList_eq, empty, List.map_nil]
  have unused' : Interner.toList { interner with hasher := other } start.heap = [] := unused
  have remembers {interner : Interner} : interner.Remembers start.heap [] := nofun
  refine Twins.run_indistinct requests ⟨sound, sound', shape, ?_⟩ remembers remembers ?_ honest
  · rw [unused, unused']
  · rw [first]
    omega

theorem run_hasher_indistinct_bytes : ∃ (interner : Interner) (start : Process),
    (create ⟨0⟩ 4 ⟨1, 1⟩ fun _ => 0).runFrom ((Manager.create .tracked).runFrom {}).2 =
      (.ok interner, start) ∧
    List.Forall₂ Indistinct
      (Method.run perform [.insert [1] [2], .setValue ⟨1, 0, ⟨69648, 0⟩⟩ [3], .insert [4] [5],
        .get [1], .clear, .insert [6] []] (interner, start))
      (Method.run perform [.insert [1] [2], .setValue ⟨1, 0, ⟨69648, 0⟩⟩ [3], .insert [4] [5],
        .get [1], .clear, .insert [6] []]
          ({ interner with hasher := fun content => content.length.toUInt64 }, start)) := by
  obtain ⟨interner, start, created, issued⟩ := strings_created
  refine ⟨interner, start, created, (run_hasher_indistinct _ _
    (Manager.sound_create Allocator.ascending_lawful _) Allocator.ascending_blind rfl).2 _ _
    created _ (by decide) ?_⟩
  simp [Honest, given, Request.symbol?, issued, Answer.symbols]

end Interner

end SymbolStore
