import SymbolStore.Proofs.Interner.Final
import SymbolStore.Proofs.Region.Replay
import SymbolStore.Proofs.Twin.Framed

/-!
Filling an interner again after it was cleared. The strings that went in the first time go in again,
into the same buckets and chunks, and nothing is allocated for them.
-/

namespace SymbolStore

open SymbolStore.Action (Ends)

namespace Interner

variable {interner : Interner} {process : Process} {content : List UInt8} {hash : UInt64}

section Regions

/-- Where the region hands out a range for an entry of the bytes, it can do so again. -/
def Repeats (interner : Interner) (content : List UInt8) (after : Region) : Prop :=
  ∃ size place, Word.add? (Entry.header interner.value).size content.length = some size ∧
    interner.region.Again after { size, align := (Entry.header interner.value).align } place

theorem storeEntry_repeats (value : List UInt8) (sound : interner.region.SoundIn process) :
    Ends (storeEntry content hash value) (interner, process)
      (fun _ after => interner.Repeats content after.1.region) fun _ _ => True := by
  simp only [storeEntry, Action.ends_bind, Method.ends_self]
  split
  · trivial
  · rename_i size counted
    simp only [ofRegion, Action.ends_bind, Method.ends_ofPart, Method.ends_self,
      Method.ends_liftProcess]
    refine (Region.allocate_again _ sound).mono ?_ fun _ _ _ => trivial
    intro place _ again
    exact (Action.ends_trivial _ _).mono (fun _ _ _ => ⟨size, place, counted, again⟩)
      fun _ _ _ => trivial

theorem insertNew_repeats (value : List UInt8) (sound : interner.SoundIn process) :
    Ends (insertNew content hash value) (interner, process)
      (fun _ after => interner.Repeats content after.1.region) fun _ _ => True := by
  apply (vacancy_ends sound.valid hash maxGrowths).bind fun _ _ none => none.elim
  rintro index _ ⟨rfl, -⟩
  apply (storeEntry_repeats value sound.region).bind fun _ _ _ => trivial
  intro entry after keeps
  simp only [Action.ends_bind, Method.ends_self, Action.ends_liftFault]
  cases Word.add after.1.count 1 with
  | error _ => trivial
  | ok count => exact keeps

theorem grow_ends_region (state : Interner × Process) :
    Ends grow state (fun _ after => after.1.region = state.1.region) fun _ _ => True := by
  simp only [grow, Action.ends_bind, Method.ends_self, Method.ends_heap, Action.ends_liftFault]
  cases Word.add state.1.capacity 1 with
  | error _ => trivial
  | ok required =>
      simp only [Method.ends_liftProcess]
      refine (Action.ends_trivial _ _).mono (fun table after _ => ?_) fun _ _ _ => trivial
      simp only [Process.ends_log, Method.ends_update]
      exact Action.ends_trivial _ _

theorem prepare_ends_region (state : Interner × Process) :
    Ends prepare state (fun _ after => after.1.region = state.1.region) fun _ _ => True := by
  simp only [prepare, Action.ends_bind, Method.ends_self, Action.ends_liftFault]
  cases Word.add state.1.count 1 with
  | error _ => trivial
  | ok count =>
      dsimp only
      split
      · exact grow_ends_region state
      · rfl

theorem insert_repeats (value : List UInt8) (sound : interner.SoundIn process)
    (absent : interner.find process.heap content = .ok none) :
    Ends (insert content value) (interner, process)
      (fun answer after => answer.2 = true ∧ interner.Repeats content after.1.region)
      fun _ _ => True := by
  rw [Ends, insert_of_absent value absent, ← Ends]
  have prepared := (prepare_ends sound).and (prepare_ends_region (interner, process))
  apply prepared.bind fun _ _ _ => trivial
  rintro _ ⟨ready, later⟩ ⟨⟨-, continues⟩, same⟩
  rw [Action.ends_bind]
  refine (insertNew_repeats value continues.sound).mono ?_ fun _ _ _ => trivial
  rintro symbol after ⟨size, place, counted, again⟩
  rw [same] at again
  rw [continues.value] at counted again
  exact ⟨rfl, size, place, counted, again⟩

end Regions

section Roomy

def strings (interner : Interner) (heap : Heap) : List (List UInt8 × List UInt8) :=
  (interner.toList heap).map Prod.snd

def written (interner : Interner) (entry : Pointer) (content : List UInt8) (value : List UInt8)
    (process : Process) : Process :=
  { process with
    heap := Entry.write process.heap interner.value entry content (interner.hasher content)
      (interner.value.fit value) }

/-- Bytes go in where the region has room for them, and nothing is allocated. -/
theorem insert_of_room {size : Nat} {place : Region.Range} {region : Region} (value : List UInt8)
    (sound : interner.SoundIn process) (absent : interner.find process.heap content = .ok none)
    (roomy : ¬ interner.Crowded)
    (counted : Word.add? (Entry.header interner.value).size content.length = some size)
    (served : (Region.allocate { size, align := (Entry.header interner.value).align }).runFrom
      (interner.region, process) = (.ok place, (region, process))) :
    ∃ symbol index, (insert content value).runFrom (interner, process) =
      (.ok (symbol, true),
        (withEntry { interner with region } index (region.pointer place),
          interner.written (region.pointer place) content value process)) := by
  obtain ⟨index, found, -, -⟩ := firstEmpty_some (interner.hasher content) sound.valid.size
    (Bucket.exists_empty sound.valid.room)
  have small := sound.capacity_lt
  have load := sound.valid.load
  have least := sound.valid.least
  unfold minBuckets at least
  have next : interner.count + 1 < wordLimit := by omega
  have stored : (storeEntry content (interner.hasher content) value).runFrom (interner, process) =
      (.ok (region.pointer place), ({ interner with region },
        interner.written (region.pointer place) content value process)) := by
    obtain ⟨takes, there, -⟩ := (Region.allocate_ends _ sound.region).of_ok served
    have room := there.covers takes.covers
    rw [Word.eq_of_add? counted] at room
    simp only [storeEntry, ofRegion, Action.runFrom_bind, Method.runFrom_self, counted,
      Method.runFrom_ofPart, served, Method.runFrom_liftProcess, Action.runFrom_pure,
      Entry.runFrom_store sound.positive (Layout.length_fit interner.value value) room]
    rfl
  have vacant : (vacancy (interner.hasher content) (maxGrowths + 1)).runFrom (interner, process) =
      (.ok index, (interner, process)) := vacancy_of_empty found maxGrowths
  refine ⟨symbol { interner with region } (region.pointer place), index, ?_⟩
  rw [insert_of_absent value absent]
  simp only [Action.runFrom_bind, runFrom_prepare sound, if_neg roomy, insertNew, vacant, stored,
    Method.runFrom_self, Action.runFrom_liftFault, Word.add, if_pos next, Except.mapError,
    Method.runFrom_update, Action.runFrom_pure]
  rfl

theorem holding_eq_none_iff {heap : Heap} :
    holding (interner.toList heap) content = none ↔
      ∀ string ∈ interner.strings heap, string.1 ≠ content := by
  rw [holding_eq_none, strings, List.forall_mem_map]

theorem find_of_holding {heap : Heap} (valid : interner.Valid heap)
    (absent : holding (interner.toList heap) content = none) :
    interner.find heap content = .ok none := by
  obtain ⟨found, searched, held⟩ := find_eq valid content
  rw [absent] at held
  rw [searched, Option.map_eq_none_iff.mp held.symm]

theorem find_of_held {heap : Heap} (valid : interner.Valid heap)
    (present : holding (interner.toList heap) content ≠ none) :
    ∃ entry, interner.find heap content = .ok (some entry) := by
  obtain ⟨found, searched, held⟩ := find_eq valid content
  cases found with
  | none => exact absurd held present
  | some entry => exact ⟨entry, searched⟩

theorem Valid.length_strings {heap : Heap} (valid : interner.Valid heap) :
    (interner.strings heap).length = interner.count := by
  rw [strings, List.length_map, valid.length_toList]

theorem insert_strings (content value : List UInt8) (sound : interner.SoundIn process) :
    Ends (insert content value) (interner, process)
      (fun answer after => after.1.SoundIn after.2 ∧ after.1.hasher = interner.hasher ∧
        after.1.value = interner.value ∧
        answer.2 = decide (holding (interner.toList process.heap) content = none) ∧
        (after.1.strings after.2.heap).Perm
          (if holding (interner.toList process.heap) content = none then
            interner.strings process.heap ++ [(content, interner.value.fit value)]
          else interner.strings process.heap))
      fun _ _ => True := by
  apply (insert_ends content value sound).mono ?_ fun _ _ _ => trivial
  rintro _ after ⟨fresh, rfl, continues⟩
  have strings := continues.records.map Prod.snd
  refine ⟨continues.sound, continues.hasher, continues.value, ?_⟩
  cases held : holding (interner.toList process.heap) content with
  | none =>
      rw [put, held, List.map_append] at strings
      rw [put, held]
      exact ⟨rfl, strings⟩
  | some record =>
      rw [put, held] at strings
      rw [put, held]
      exact ⟨rfl, strings⟩

end Roomy

/-- The second interner has got as far as the first one. It has more chunks behind, and its buckets
may be more. -/
structure Echoes (base : Region) (behind : List Chunk) (first second : Interner × Process) :
    Prop where
  sound : second.1.SoundIn second.2
  region : second.1.region = base.replay first.1.region behind
  hasher : second.1.hasher = first.1.hasher
  value : second.1.value = first.1.value
  strings : (second.1.strings second.2.heap).Perm (first.1.strings first.2.heap)

theorem Echoes.count {base : Region} {behind : List Chunk} {first second : Interner × Process}
    (echoes : Echoes base behind first second) (valid : first.1.Valid first.2.heap) :
    second.1.count = first.1.count := by
  calc
    second.1.count = (second.1.strings second.2.heap).length :=
      echoes.sound.valid.length_strings.symm
    _ = (first.1.strings first.2.heap).length := echoes.strings.length_eq
    _ = first.1.count := valid.length_strings

theorem Echoes.holding_iff {base : Region} {behind : List Chunk} {first second : Interner × Process}
    (echoes : Echoes base behind first second) :
    holding (second.1.toList second.2.heap) content = none ↔
      holding (first.1.toList first.2.heap) content = none := by
  rw [holding_eq_none_iff, holding_eq_none_iff]
  simp only [echoes.strings.mem_iff]

/-- The later process differs from the earlier one in the bytes of its blocks only. -/
def Rewrites (before after : Process) : Prop :=
  ∃ heap, before.heap.Framed heap ∧ after = { before with heap }

section Again

variable {first second : Interner} {p q : Process} {base : Region}

def enter (string : List UInt8 × List UInt8) : Method Interner (Symbol × Bool) :=
  insert string.1 string.2

/-- Whether a step found its string new. -/
def newness (step : Step (List UInt8 × List UInt8) (Symbol × Bool) Interner) :
    Except Failure Bool :=
  step.outcome.map Prod.snd

theorem isOk_newness (step : Step (List UInt8 × List UInt8) (Symbol × Bool) Interner) :
    (newness step).isOk = step.outcome.isOk := by
  rw [newness]
  cases step.outcome <;> rfl

/-- What a string that goes in does, and does again wherever there is room for it. -/
theorem enter_again (string : List UInt8 × List UInt8) (sound : first.SoundIn p)
    {answer : Symbol × Bool} {after : Interner × Process}
    (ran : (enter string).runFrom (first, p) = (.ok answer, after)) :
    after.1.SoundIn after.2 ∧ (after.1.hasher = first.hasher ∧ after.1.value = first.value) ∧
      first.count ≤ after.1.count ∧
      ∃ fresh : List Chunk, (∀ chunk ∈ fresh, chunk.used = 0) ∧
        after.1.region.chunks.map Chunk.rewound =
          (first.region.chunks ++ fresh).map Chunk.rewound ∧
        ∀ (base : Region) (behind : List Chunk) (second : Interner) (q : Process),
          Echoes base (fresh ++ behind) (first, p) (second, q) →
          4 * after.1.count ≤ 3 * second.capacity →
          ∃ symbol later, (enter string).runFrom (second, q) = (.ok (symbol, answer.2), later) ∧
            Echoes base behind after later ∧ later.1.capacity = second.capacity ∧
            Rewrites q later.2 := by
  obtain ⟨there, hasher, value, new, strings⟩ :=
    (insert_strings string.1 string.2 sound).of_ok ran
  have counted := strings.length_eq
  rw [there.valid.length_strings] at counted
  refine ⟨there, ⟨hasher, value⟩, ?_⟩
  cases held : holding (first.toList p.heap) string.1 with
  | some record =>
      obtain ⟨entry, found⟩ := find_of_held sound.valid (held ▸ Option.some_ne_none record)
      rw [enter, insert_of_present string.2 found] at ran
      cases ran
      refine ⟨Nat.le_refl _, [], by simp, by simp, fun base behind second q echoes _ => ?_⟩
      have present : holding (second.toList q.heap) string.1 ≠ none := by
        rw [Ne, echoes.holding_iff, held]
        exact Option.some_ne_none record
      obtain ⟨other, again⟩ := find_of_held echoes.sound.valid present
      exact ⟨_, _, insert_of_present string.2 again, echoes, rfl, q.heap, .refl _, rfl⟩
  | none =>
      rw [held, if_pos rfl, List.length_append, sound.valid.length_strings] at counted
      rw [held, decide_eq_true rfl] at new
      rw [held, if_pos rfl] at strings
      obtain ⟨-, size, place, sized, fresh, unused, same, replays⟩ :=
        (insert_repeats string.2 sound (find_of_holding sound.valid held)).of_ok ran
      refine ⟨by omega, fresh, unused, same, fun base behind second q echoes light => ?_⟩
      have absent : holding (second.toList q.heap) string.1 = none := echoes.holding_iff.mpr held
      have count : second.count = first.count := echoes.count sound.valid
      have layout : second.value = first.value := echoes.value
      have served := replays base behind q
      rw [← echoes.region] at served
      rw [← layout] at sized served
      have roomy : ¬ second.Crowded := by
        unfold Crowded
        rw [List.length_singleton] at counted
        omega
      obtain ⟨symbol, index, again⟩ := insert_of_room string.2 echoes.sound
        (find_of_holding echoes.sound.valid absent) roomy sized served
      obtain ⟨thereAgain, hasherAgain, valueAgain, -, stringsAgain⟩ :=
        (insert_strings string.1 string.2 echoes.sound).of_ok again
      rw [if_pos absent] at stringsAgain
      refine ⟨symbol, _, ?_, ⟨thereAgain, rfl, ?_, ?_, ?_⟩, capacity_withEntry _ _ _, ?_⟩
      · rw [new]
        exact again
      · exact echoes.hasher.trans hasher.symm
      · exact echoes.value.trans value.symm
      · have fitted : second.value.fit string.2 = first.value.fit string.2 := by rw [layout]
        rw [fitted] at stringsAgain
        exact stringsAgain.trans ((echoes.strings.append_right _).trans strings.symm)
      · exact ⟨_, .writtenEntry _ _ _ _ _ _, rfl⟩

/-- Strings that all went in go in again, wherever there are the chunks that they took. -/
theorem run_again (strings : List (List UInt8 × List UInt8)) (sound : first.SoundIn p)
    (succeeds : ∀ step ∈ Method.run enter strings (first, p), step.outcome.isOk) :
    let filled := Method.final enter strings (first, p)
    filled.1.SoundIn filled.2 ∧ (filled.1.hasher = first.hasher ∧ filled.1.value = first.value) ∧
      first.count ≤ filled.1.count ∧
      ∃ fresh : List Chunk, (∀ chunk ∈ fresh, chunk.used = 0) ∧
        filled.1.region.chunks.map Chunk.rewound =
          (first.region.chunks ++ fresh).map Chunk.rewound ∧
        ∀ (base : Region) (behind : List Chunk) (second : Interner) (q : Process),
          Echoes base (fresh ++ behind) (first, p) (second, q) →
          4 * filled.1.count ≤ 3 * second.capacity →
          let refilled := Method.final enter strings (second, q)
          (Method.run enter strings (second, q)).map newness =
              (Method.run enter strings (first, p)).map newness ∧
            Echoes base behind filled refilled ∧ refilled.1.capacity = second.capacity ∧
            Rewrites q refilled.2 := by
  induction strings generalizing first p with
  | nil =>
      exact ⟨sound, ⟨rfl, rfl⟩, Nat.le_refl _, [], by simp, by simp,
        fun base behind second q echoes _ => ⟨rfl, echoes, rfl, q.heap, .refl _, rfl⟩⟩
  | cons string rest ih =>
      rw [Method.run_cons] at succeeds
      rcases ran : (enter string).runFrom (first, p) with ⟨failure | answer, middle, later⟩
      · have failed := succeeds _ List.mem_cons_self
        rw [ran] at failed
        cases failed
      · obtain ⟨there, kept, more, fresh, unused, same, again⟩ := enter_again string sound ran
        rw [ran] at succeeds
        obtain ⟨last, keptRest, most, others, unusedOthers, sameOthers, againRest⟩ :=
          ih there fun step member => succeeds step (List.mem_cons_of_mem _ member)
        simp only [Method.final_cons, Method.run_cons, ran]
        refine ⟨last, ⟨keptRest.1.trans kept.1, keptRest.2.trans kept.2⟩, Nat.le_trans more most,
          fresh ++ others, ?_, ?_, ?_⟩
        · intro chunk member
          exact (List.mem_append.mp member).elim (unused chunk) (unusedOthers chunk)
        · rw [sameOthers, List.map_append, same, ← List.map_append, List.append_assoc]
        · intro base behind second q echoes light
          rw [List.append_assoc] at echoes
          obtain ⟨symbol, next, ranAgain, echoesNext, capacity, heap, framed, moved⟩ :=
            again base (others ++ behind) second q echoes (by
              have bound : 4 * middle.count ≤ 4 * (Method.final enter rest (middle, later)).1.count :=
                Nat.mul_le_mul_left 4 most
              exact Nat.le_trans bound light)
          have load : 4 * (Method.final enter rest (middle, later)).1.count ≤ 3 * next.1.capacity := by
            rw [capacity]
            exact light
          obtain ⟨flags, echoesLast, capacityLast, heapLast, framedLast, movedLast⟩ :=
            againRest base behind next.1 next.2 echoesNext load
          rw [ranAgain]
          refine ⟨?_, echoesLast, capacityLast.trans capacity, heapLast, ?_, ?_⟩
          · rw [List.map_cons, List.map_cons, flags]
            rfl
          · rw [moved] at framedLast
            exact framed.trans framedLast
          · rw [movedLast, moved]

end Again

def blocks (interner : Interner) : List Nat :=
  interner.table.block :: interner.region.chunks.map Chunk.block

/-- What others do meanwhile. The process stays in order, and the blocks of the interner stay its own
and as they are. -/
structure Untouched (interner : Interner) (before after : Process) : Prop where
  sound : after.Sound
  held : ∀ block ∈ interner.blocks, ∀ (manager : Manager) size,
    manager.Holds before block size → manager.Holds after block size
  kept : ∀ block ∈ interner.blocks, after.heap.find? block = before.heap.find? block

variable {later : Process} {state : Interner × Process} {known : List Symbol}

theorem Untouched.of_evolves {freed : List Nat} (sound : interner.SoundIn process)
    (evolves : process.Evolves later freed) (spared : ∀ block ∈ interner.blocks, block ∉ freed) :
    interner.Untouched process later where
  sound := evolves.sound
  held block member manager size holds := evolves.held manager block size (spared block member) holds
  kept block member := by
    have present : ∃ found, process.heap.find? block = some found := by
      rcases List.mem_cons.mp member with rfl | inside
      · obtain ⟨found, present, -⟩ := sound.table.present
        exact ⟨found, present⟩
      · exact sound.region.present inside
    obtain ⟨found, present⟩ := present
    rw [present]
    exact evolves.blocks block found (spared block member) present

theorem SoundIn.untouched (sound : interner.SoundIn process) (untouched : interner.Untouched process later) :
    interner.Continues interner.region.generation (interner.toList process.heap)
      (interner, later) := by
  have keeps : ∀ entry ∈ interner.entries,
      process.heap.Keeps later.heap entry (interner.span process.heap entry) := fun entry member =>
    Heap.keeps_of_find? (untouched.kept _ (List.mem_cons_of_mem _ (sound.mem_blocks member)))
  have region : interner.region.SoundIn later :=
    { memory := untouched.sound
      valid := sound.region.valid
      owns := ⟨fun chunk member => untouched.held _
          (List.mem_cons_of_mem _ (List.mem_map_of_mem member)) _ _ (sound.region.owns.held chunk member),
        sound.region.owns.apart⟩ }
  refine ⟨⟨region, sound.valid.keeps sound.positive keeps, sound.manager,
    untouched.held _ List.mem_cons_self _ _ sound.table, sound.apart, sound.align⟩, rfl, rfl, rfl, rfl,
    rfl, ?_⟩
  rw [toList_keeps sound.positive keeps]

/-- The states that an interner and its process come to, with the symbols that were given out. Whoever
presents a symbol of the interner was given it, generations do not run out, and meanwhile others may
do to the process what they like. -/
inductive Reachable : Interner × Process → List Symbol → Prop
  | made {manager : Manager} {requested : Nat} {value : Layout} {hasher : List UInt8 → UInt64}
      {interner : Interner} {process after : Process} (memory : process.Sound)
      (align : isPowerOfTwo value.align = true)
      (created : (create manager requested value hasher).runFrom process = (.ok interner, after)) :
      Reachable (interner, after) []
  | asked {state : Interner × Process} {known : List Symbol} (request : Request)
      (earlier : Reachable state known)
      (honest : ∀ symbol ∈ request.symbol?, symbol.interner = state.1.region.id → symbol ∈ known)
      (room : state.1.region.generation + request.isClear.toNat < wordLimit) :
      Reachable ((perform request).runFrom state).2 (known ++ given
        { request
          outcome := ((perform request).runFrom state).1
          after := ((perform request).runFrom state).2 })
  | aside {interner : Interner} {process later : Process} {known : List Symbol}
      (earlier : Reachable (interner, process) known) (untouched : interner.Untouched process later) :
      Reachable (interner, later) known

theorem Reachable.sound (reachable : Reachable state known) :
    state.1.SoundIn state.2 ∧ state.1.Remembers state.2.heap known := by
  induction reachable with
  | made memory align created =>
      exact ⟨((create_ends _ _ memory align).of_ok created).1, fun _ member => by cases member⟩
  | asked request earlier honest room known =>
      obtain ⟨generation, records, -, continues, remembers⟩ :=
        known.2.performed request known.1 honest room
      exact ⟨continues.sound, remembers⟩
  | aside earlier untouched known =>
      have continues := known.1.untouched untouched
      exact ⟨continues.sound, known.2.kept continues⟩

/-- An interner that was just created or cleared. Others may have done something since. -/
inductive Vacant : Interner × Process → Prop
  | made {manager : Manager} {requested : Nat} {value : Layout} {hasher : List UInt8 → UInt64}
      {interner : Interner} {process after : Process} (memory : process.Sound)
      (align : isPowerOfTwo value.align = true)
      (created : (create manager requested value hasher).runFrom process = (.ok interner, after)) :
      Vacant (interner, after)
  | cleared {state after : Interner × Process} {known : List Symbol}
      (reachable : Reachable state known) (ran : clear.runFrom state = (.ok (), after)) :
      Vacant after
  | aside {interner : Interner} {process later : Process} (earlier : Vacant (interner, process))
      (untouched : interner.Untouched process later) : Vacant (interner, later)

theorem clear_leaves (sound : interner.SoundIn process) :
    Ends clear (interner, process)
      (fun _ after => after.1.SoundIn after.2 ∧
        after.1 = { interner.emptied with
          region := { interner.region.rewound with generation := interner.region.generation + 1 } } ∧
        after.2.ledgers = process.ledgers)
      fun _ _ => True := by
  have cleared : Ends clear (interner, process) (fun _ after =>
      after.1 = { interner.emptied with
        region := { interner.region.rewound with generation := interner.region.generation + 1 } } ∧
      after.2.ledgers = process.ledgers) fun _ _ => True := by
    simp only [clear, ofRegion, Action.ends_bind, Method.ends_ofPart]
    apply (Region.reset_ends sound.region).mono ?_ fun _ _ _ => trivial
    rintro _ ⟨region, after⟩ ⟨rewound, -, overwrites⟩
    simp only [Method.ends_update, Method.ends_self, Method.ends_liftProcess, Process.ends_log]
    exact ⟨congrArg (fun region => { interner.emptied with region }) rewound, overwrites.ledgers⟩
  exact ((clear_ends sound).and cleared).mono (fun _ _ ends => ⟨ends.1.sound, ends.2⟩)
    fun _ _ _ => trivial

theorem create_rewound {manager : Manager} {requested : Nat} {value : Layout}
    {hasher : List UInt8 → UInt64} :
    Ends (create manager requested value hasher) process
      (fun interner _ => interner.region.rewound = interner.region) fun _ _ => True := by
  have made (start : Process) : Ends (Region.create manager Region.defaultChunkSize) start
      (fun region _ => region.rewound = region) fun _ _ => True := by
    rw [Region.create]
    exact Action.Ends.after fun _ _ => Action.Ends.after fun _ _ => Action.Ends.after fun _ _ =>
      Action.Ends.after fun _ _ => rfl
  rw [create]
  refine Action.Ends.after fun _ start => ?_
  refine (made start).bind (fun _ _ _ => trivial) fun region _ same => ?_
  exact Action.Ends.after fun _ _ => Action.Ends.after fun _ _ => same

theorem Vacant.fresh (vacant : Vacant state) : state.1.SoundIn state.2 ∧
    state.1.region.rewound = state.1.region ∧ state.1.entries = [] := by
  induction vacant with
  | made memory align created =>
      have made := (create_ends _ _ memory align).of_ok created
      exact ⟨made.1, create_rewound.of_ok created, made.2.2.2.2.1⟩
  | cleared reachable ran =>
      obtain ⟨sound, left, -⟩ := (clear_leaves reachable.sound.1).of_ok ran
      refine ⟨sound, ?_, ?_⟩
      · rw [left]
        simp [Region.rewound]
      · rw [left]
        exact entries_emptied
  | aside earlier untouched fresh => exact ⟨(fresh.1.untouched untouched).sound, fresh.2⟩

/-- Strings that all went into an interner that was
just created or cleared go in again after a clearing, and each is found new or not as it was the first
time. The interner then holds the same bytes with the same values, in as many buckets and chunks as
before; the clearing changes the books of no manager, and the strings change nothing of the process but
bytes in its blocks. Whatever others do before and after the clearing, no budget is asked. -/
theorem refill_allocates_nothing {full emptied : Interner} {start between cleared later : Process}
    (vacant : Vacant (interner, start)) (strings : List (List UInt8 × List UInt8))
    (succeeds : ∀ step ∈ Method.run enter strings (interner, start), step.outcome.isOk)
    {filled : Process} (fills : Method.final enter strings (interner, start) = (full, filled))
    (untouched : full.Untouched filled between)
    (clears : clear.runFrom (full, between) = (.ok (), (emptied, cleared)))
    (untouchedAgain : emptied.Untouched cleared later) :
    let refilled := Method.final enter strings (emptied, later)
    (Method.run enter strings (emptied, later)).map newness =
        (Method.run enter strings (interner, start)).map newness ∧
      (∀ step ∈ Method.run enter strings (emptied, later), step.outcome.isOk) ∧
      (refilled.1.strings refilled.2.heap).Perm (full.strings filled.heap) ∧
      (emptied.capacity = full.capacity ∧ refilled.1.capacity = full.capacity) ∧
      (emptied.region.usage.chunkCount = full.region.usage.chunkCount ∧
        refilled.1.region.usage.chunkCount = full.region.usage.chunkCount) ∧
      cleared.ledgers = between.ledgers ∧ Rewrites later refilled.2 ∧
      refilled.2.ledgers = later.ledgers := by
  obtain ⟨sound, rewound, none⟩ := vacant.fresh
  obtain ⟨there, ⟨hasher, value⟩, -, fresh, unused, same, again⟩ :=
    run_again strings sound succeeds
  rw [fills] at there hasher value same again
  obtain ⟨soundCleared, left, books⟩ := (clear_leaves (there.untouched untouched).sound).of_ok clears
  have left : emptied = { full.emptied with
    region := { full.region.rewound with generation := full.region.generation + 1 } } := left
  have vacated : emptied.entries = [] := left ▸ entries_emptied
  have capacity : emptied.capacity = full.capacity := left ▸ capacity_emptied
  have chunks : emptied.region.chunks = full.region.chunks.map Chunk.rewound := left ▸ rfl
  have region : emptied.region = emptied.region.replay interner.region (fresh ++ []) := by
    have unchanged : emptied.region.rewound = emptied.region := by
      rw [left]
      simp [Region.rewound]
    have whole : emptied.region.chunks.map Chunk.rewound =
        (interner.region.chunks ++ fresh).map Chunk.rewound := by
      rw [chunks, List.map_map, ← same]
      rfl
    have replayed := Region.rewound_replay rewound unused whole
    rw [unchanged] at replayed
    rw [List.append_nil, replayed]
  have echoes : Echoes emptied.region (fresh ++ []) (interner, start) (emptied, later) :=
    { sound := (soundCleared.untouched untouchedAgain).sound
      region := region
      hasher := (show emptied.hasher = full.hasher from left ▸ rfl).trans hasher
      value := (show emptied.value = full.value from left ▸ rfl).trans value
      strings := by
        have first : interner.strings start.heap = [] := by simp [Interner.strings, toList_eq, none]
        have second : emptied.strings later.heap = [] := by
          simp [Interner.strings, toList_eq, vacated]
        rw [first, second] }
  obtain ⟨flags, last, buckets, rewrites⟩ := again emptied.region [] emptied later echoes (by
    rw [capacity]
    exact there.valid.load)
  refine ⟨flags, ?_, last.strings, ⟨capacity, buckets.trans capacity⟩, ⟨?_, ?_⟩, books, rewrites, ?_⟩
  · intro step member
    obtain ⟨other, inside, same⟩ := List.mem_map.mp (flags ▸ List.mem_map_of_mem member)
    rw [← isOk_newness, ← same, isOk_newness]
    exact succeeds other inside
  · rw [Region.usage, Region.usage, chunks, List.length_map]
  · rw [Region.usage, Region.usage, last.region, Region.replay, List.append_nil]
  · obtain ⟨heap, -, moved⟩ := rewrites
    rw [moved]

def fewStrings : List (List UInt8 × List UInt8) := [([1], [2]), ([1], [3]), ([4, 5], [6])]

/-- An interner under a limit that its buckets, a chunk and a block of 44 bytes use up. The block is
obtained after the interner was cleared. -/
theorem limited_filled : ∃ (interner : Interner) (start : Process),
    let filled := Method.final enter fewStrings (interner, start)
    let cleared := (clear.runFrom filled).2
    let others := ((⟨0⟩ : Manager).allocate ⟨44, 1⟩).runFrom cleared.2
    (create ⟨0⟩ 4 ⟨1, 1⟩ fun _ => 0).runFrom
        ((Manager.create (Config.tracked.withByteLimit 8300)).runFrom {}).2 = (.ok interner, start) ∧
      (Method.run enter fewStrings (interner, start)).map newness =
        [.ok true, .ok false, .ok true] ∧
      (clear.runFrom filled).1 = .ok () ∧ others.1 = .ok 77856 ∧
      (((⟨0⟩ : Manager).allocate ⟨1, 1⟩).runFrom others.2).1 = .error (.error (.outOfMemory 1)) :=
  ⟨_, _, rfl, by decide +kernel, by decide +kernel, by decide +kernel, by decide +kernel⟩

theorem refill_allocates_nothing_limited : ∃ (emptied : Interner) (later : Process),
    (((⟨0⟩ : Manager).allocate ⟨1, 1⟩).runFrom later).1 = .error (.error (.outOfMemory 1)) ∧
      (Method.run enter fewStrings (emptied, later)).map newness =
        [.ok true, .ok false, .ok true] ∧
      Rewrites later (Method.final enter fewStrings (emptied, later)).2 := by
  obtain ⟨interner, start, created, flags, ranClear, obtained, refused⟩ := limited_filled
  rcases fills : Method.final enter fewStrings (interner, start) with ⟨full, filled⟩
  rw [fills] at ranClear obtained refused
  rcases clears : clear.runFrom (full, filled) with ⟨outcome, emptied, cleared⟩
  rw [clears] at ranClear obtained refused
  obtain rfl : outcome = .ok () := ranClear
  rcases others : ((⟨0⟩ : Manager).allocate ⟨44, 1⟩).runFrom cleared with ⟨outcome, later⟩
  rw [others] at obtained refused
  obtain rfl : outcome = .ok 77856 := obtained
  have vacant : Vacant (interner, start) :=
    .made (Manager.sound_create Allocator.ascending_lawful _) rfl created
  have succeeds : ∀ step ∈ Method.run enter fewStrings (interner, start), step.outcome.isOk := by
    intro step member
    have listed : newness step ∈ [.ok true, .ok false, .ok true] :=
      flags ▸ List.mem_map_of_mem member
    rw [← isOk_newness]
    simp only [List.mem_cons, List.not_mem_nil, or_false] at listed
    rcases listed with same | same | same <;> rw [same] <;> rfl
  have sound := (run_again fewStrings vacant.fresh.1 succeeds).1
  rw [fills] at sound
  have untouched := Untouched.of_evolves sound (.refl sound.region.memory) fun _ _ => List.not_mem_nil
  have empty := ((clear_leaves sound).of_ok clears).1
  have granted := (Manager.allocate_ends ⟨44, 1⟩ empty.region.memory rfl).of_ok others
  have untouchedAgain := Untouched.of_evolves empty granted.evolves fun _ _ => List.not_mem_nil
  obtain ⟨again, -, -, -, -, -, rewrites, -⟩ :=
    refill_allocates_nothing vacant fewStrings succeeds fills untouched clears untouchedAgain
  exact ⟨emptied, later, refused, again.trans flags, rewrites⟩

end Interner

end SymbolStore
