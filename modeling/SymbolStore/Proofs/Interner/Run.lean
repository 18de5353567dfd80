import SymbolStore.Proofs.Interner.Operations
import SymbolStore.Proofs.Run

/-!
Runs of requests to an interner. Every answer is the one that a map from strings to values with the
same history would give. Symbols may be kept and presented at any later time.
-/

namespace SymbolStore

open SymbolStore.Action (Ends)

namespace Interner

inductive Request
  | insert (content value : List UInt8)
  | intern (text : String) (default : List UInt8)
  | lookup (content : List UInt8)
  | get (content : List UInt8)
  | contains (content : List UInt8)
  | valueOf (symbol : Symbol)
  | bytesOf (symbol : Symbol)
  | setValue (symbol : Symbol) (value : List UInt8)
  | clear

inductive Answer
  | inserted (symbol : Symbol) (isNew : Bool)
  | found (symbol : Option Symbol)
  | bytes (bytes : Option (List UInt8))
  | truth (holds : Bool)
  | done
  deriving DecidableEq, Repr

def perform : Request → Method Interner Answer
  | .insert content value => (fun (symbol, isNew) => .inserted symbol isNew) <$> insert content value
  | .intern text default => (fun symbol => .found (some symbol)) <$> intern text default
  | .lookup content => do return .found (← (← Method.self).lookup (← Method.heap) content)
  | .get content => do return .bytes (← (← Method.self).get (← Method.heap) content)
  | .contains content => do return .truth (← (← Method.self).contains (← Method.heap) content)
  | .valueOf symbol => do return .bytes ((← Method.self).valueOf (← Method.heap) symbol)
  | .bytesOf symbol => do return .bytes ((← Method.self).bytesOf (← Method.heap) symbol)
  | .setValue symbol value => .truth <$> setValue symbol value
  | .clear => do
    clear
    return .done

namespace Request

def isClear : Request → Bool
  | clear => true
  | _ => false

def symbol? : Request → Option Symbol
  | valueOf symbol => some symbol
  | bytesOf symbol => some symbol
  | setValue symbol _ => some symbol
  | _ => none

/-- What a map with the given records answers, and the records that it has then. A new string gets
the symbol `fresh`. -/
def onMap (layout : Layout) (fresh : Symbol) : Request → List Record → Answer × List Record
  | insert content value, records =>
    let (answer, later) := put fresh content (layout.fit value) records
    (.inserted answer.1 answer.2, later)
  | intern text default, records =>
    let (answer, later) := put fresh text.toUTF8.toList (layout.fit default) records
    (.found (some answer.1), later)
  | lookup content, records =>
    (.found ((holding records content).map fun record => record.1), records)
  | get content, records =>
    (.bytes ((holding records content).map fun record => record.2.2), records)
  | contains content, records => (.truth (holding records content).isSome, records)
  | valueOf symbol, records =>
    (.bytes ((behind records symbol).map fun record => record.2.2), records)
  | bytesOf symbol, records =>
    (.bytes ((behind records symbol).map fun record => record.2.1), records)
  | setValue symbol value, records =>
    (.truth (behind records symbol).isSome, revalue symbol (layout.fit value) records)
  | clear, _ => (.done, [])

def Adds (records : List Record) : Request → Prop
  | insert content _ => holding records content = none
  | intern text _ => holding records text.toUTF8.toList = none
  | _ => False

end Request

def Answer.symbols : Answer → List Symbol
  | inserted symbol _ => [symbol]
  | found symbol => symbol.toList
  | _ => []

variable {interner : Interner} {process : Process} {heap : Heap}

theorem find_eq (valid : interner.Valid heap) (content : List UInt8) :
    ∃ found, interner.find heap content = .ok found ∧
      holding (interner.toList heap) content = found.map fun entry =>
        (interner.symbol entry, content, Entry.value heap interner.value entry) := by
  rcases find_cases valid content with ⟨entry, member, found, same⟩ | ⟨missed, lacks⟩
  · exact ⟨some entry, found, holding_of_content valid member same⟩
  · exact ⟨none, missed, holding_of_lacks lacks⟩

theorem lookup_eq (valid : interner.Valid heap) (content : List UInt8) :
    interner.lookup heap content =
      .ok ((holding (interner.toList heap) content).map fun record => record.1) := by
  rcases find_eq valid content with ⟨found, searched, held⟩
  rw [lookup, searched, held, Option.map_map]
  rfl

theorem get_eq (valid : interner.Valid heap) (content : List UInt8) :
    interner.get heap content =
      .ok ((holding (interner.toList heap) content).map fun record => record.2.2) := by
  rcases find_eq valid content with ⟨found, searched, held⟩
  rw [get, searched, held, Option.map_map]
  rfl

theorem contains_eq (valid : interner.Valid heap) (content : List UInt8) :
    interner.contains heap content =
      .ok (holding (interner.toList heap) content).isSome := by
  rw [contains, lookup_eq valid]
  simp [bind, Except.bind, pure, Except.pure]

theorem valueOf_eq {symbol : Symbol} (valid : interner.Valid heap)
    (knows : interner.Knows symbol) :
    interner.valueOf heap symbol =
      (behind (interner.toList heap) symbol).map fun record => record.2.2 := by
  rw [valueOf, behind_eq valid knows, Option.map_map]
  rfl

theorem bytesOf_eq {symbol : Symbol} (valid : interner.Valid heap)
    (knows : interner.Knows symbol) :
    interner.bytesOf heap symbol =
      (behind (interner.toList heap) symbol).map fun record => record.2.1 := by
  rw [bytesOf, behind_eq valid knows, Option.map_map]
  rfl

/-- One request: the answer of the map, or a new string for which there is no memory. Only the last
generation cannot be cleared. -/
theorem perform_ends (request : Request) (sound : interner.SoundIn process)
    (knows : ∀ symbol ∈ request.symbol?, interner.Knows symbol) :
    Ends (perform request) (interner, process)
      (fun answer after => ∃ fresh,
        answer = (request.onMap interner.value fresh (interner.toList process.heap)).1 ∧
        interner.Continues (interner.region.generation + request.isClear.toNat)
          (request.onMap interner.value fresh (interner.toList process.heap)).2 after)
      fun failure after =>
        (request.isClear = true ∧ wordLimit ≤ interner.region.generation + 1) ∨
        request.Adds (interner.toList process.heap) ∧
          interner.manager.Denies after.2 failure ∧
          interner.Continues interner.region.generation (interner.toList process.heap) after := by
  have fresh : Symbol := interner.symbol ⟨0, 0⟩
  cases request with
  | insert content value =>
      rw [perform, Action.ends_map]
      apply (insert_ends content value sound).mono ?_ fun _ _ failed => .inr failed
      intro _ after ends
      rcases ends with ⟨fresh, rfl, continues⟩
      exact ⟨fresh, rfl, continues⟩
  | intern text default =>
      rw [perform, Action.ends_map, intern, Action.ends_bind]
      apply (insert_ends text.toUTF8.toList default sound).mono ?_ fun _ _ failed => .inr failed
      intro _ after ends
      rcases ends with ⟨fresh, rfl, continues⟩
      exact ⟨fresh, rfl, continues⟩
  | lookup content =>
      simp only [perform, Action.ends_bind, Method.ends_self, Method.ends_heap,
        Action.ends_liftFault, lookup_eq sound.valid, Action.ends_pure]
      exact ⟨fresh, rfl, sound.continues⟩
  | get content =>
      simp only [perform, Action.ends_bind, Method.ends_self, Method.ends_heap,
        Action.ends_liftFault, get_eq sound.valid, Action.ends_pure]
      exact ⟨fresh, rfl, sound.continues⟩
  | contains content =>
      simp only [perform, Action.ends_bind, Method.ends_self, Method.ends_heap,
        Action.ends_liftFault, contains_eq sound.valid, Action.ends_pure]
      exact ⟨fresh, rfl, sound.continues⟩
  | valueOf symbol =>
      simp only [perform, Action.ends_bind, Method.ends_self, Method.ends_heap, Action.ends_pure,
        valueOf_eq sound.valid (knows symbol rfl)]
      exact ⟨fresh, rfl, sound.continues⟩
  | bytesOf symbol =>
      simp only [perform, Action.ends_bind, Method.ends_self, Method.ends_heap, Action.ends_pure,
        bytesOf_eq sound.valid (knows symbol rfl)]
      exact ⟨fresh, rfl, sound.continues⟩
  | setValue symbol value =>
      rw [perform, Action.ends_map]
      apply (setValue_ends value sound (knows symbol rfl)).mono ?_ fun _ _ none => none.elim
      intro _ after ends
      rcases ends with ⟨rfl, continues⟩
      exact ⟨fresh, rfl, continues⟩
  | clear =>
      rw [perform]
      exact (clear_ends sound).bind (fun _ _ last => .inl ⟨rfl, last⟩) fun _ _ continues =>
        ⟨fresh, rfl, continues⟩

/-- A step does what it would do to a map with the given records, which then has the later ones. It
may fail only where a string is added, and for want of memory. -/
structure Agrees (layout : Layout) (manager : Manager) (records later : List Record)
    (step : Step Request Answer Interner) : Prop where
  outcome : (∃ fresh, step.outcome = .ok (step.request.onMap layout fresh records).1 ∧
      later = (step.request.onMap layout fresh records).2) ∨
    ∃ failure, step.outcome = .error failure ∧ step.request.Adds records ∧
      manager.Denies step.after.2 failure ∧ later = records
  count : step.after.1.count = later.length
  content : (step.after.1.toList step.after.2.heap).Perm later
  distinct : Distinct later
  found : ∀ record ∈ later,
    step.after.1.lookup step.after.2.heap record.2.1 = .ok (some record.1)

/-- Every step agrees with a map that starts with the given records and keeps up with the steps. -/
def Refines (layout : Layout) (manager : Manager) :
    List Record → List (Step Request Answer Interner) → Prop
  | _, [] => True
  | records, step :: steps => ∃ later,
    Agrees layout manager records later step ∧ Refines layout manager later steps

def given (step : Step Request Answer Interner) : List Symbol :=
  match step.outcome with
  | .ok answer => answer.symbols
  | .error _ => []

/-- Whoever presents a symbol of the interner was given it before. -/
def Honest (id : Nat) : List Symbol → List (Step Request Answer Interner) → Prop
  | _, [] => True
  | known, step :: steps =>
    (∀ symbol ∈ step.request.symbol?, symbol.interner = id → symbol ∈ known) ∧
      Honest id (known ++ given step) steps

/-- The symbols that were given out: those of the current generation are all good, and none is of a
later one. -/
def Remembers (interner : Interner) (heap : Heap) (known : List Symbol) : Prop :=
  ∀ symbol ∈ known, symbol.generation ≤ interner.region.generation ∧
    (symbol.generation = interner.region.generation →
      symbol ∈ (interner.toList heap).map Prod.fst)

variable {records others : List Record} {known : List Symbol} {layout : Layout} {fresh : Symbol}
  {request : Request}

theorem Remembers.knows {symbol : Symbol} (remembers : interner.Remembers heap known)
    (honest : symbol.interner = interner.region.id → symbol ∈ known) : interner.Knows symbol := by
  intro entry resolved
  have same := resolve?_eq_some.mp resolved
  subst same
  have listed := (remembers _ (honest rfl)).2 rfl
  rw [toList_eq, List.map_map] at listed
  obtain ⟨other, member, equal⟩ := List.mem_map.mp listed
  exact symbol_injective equal ▸ member

/-- Symbols stay good until the next clearing, and those in an answer are good. -/
theorem onMap_symbols (records : List Record) (layout : Layout) (fresh : Symbol) (request : Request)
    (keeps : request.isClear = false) :
    records.map Prod.fst ⊆ (request.onMap layout fresh records).2.map Prod.fst ∧
      (request.onMap layout fresh records).1.symbols ⊆
        (request.onMap layout fresh records).2.map Prod.fst := by
  cases request with
  | insert content value =>
      rcases put_symbols records fresh content (layout.fit value) with ⟨kept, mine⟩
      exact ⟨kept, List.cons_subset.mpr ⟨mine, List.nil_subset _⟩⟩
  | intern text default =>
      rcases put_symbols records fresh text.toUTF8.toList (layout.fit default) with ⟨kept, mine⟩
      exact ⟨kept, List.cons_subset.mpr ⟨mine, List.nil_subset _⟩⟩
  | lookup content =>
      refine ⟨List.Subset.refl _, ?_⟩
      intro symbol issued
      simp only [Request.onMap, Answer.symbols, Option.mem_toList,
        Option.map_eq_some_iff] at issued
      rcases issued with ⟨record, held, rfl⟩
      exact List.mem_map_of_mem (List.mem_of_find?_eq_some held)
  | get => exact ⟨List.Subset.refl _, List.nil_subset _⟩
  | contains => exact ⟨List.Subset.refl _, List.nil_subset _⟩
  | valueOf => exact ⟨List.Subset.refl _, List.nil_subset _⟩
  | bytesOf => exact ⟨List.Subset.refl _, List.nil_subset _⟩
  | setValue symbol value =>
      refine ⟨?_, List.nil_subset _⟩
      simp only [Request.onMap, revalue_symbols]
      exact List.Subset.refl _
  | clear => cases keeps

theorem onMap_perm (distinct : Distinct records) (perm : records.Perm others) (request : Request)
    (layout : Layout) (fresh : Symbol) :
    (request.onMap layout fresh records).1 = (request.onMap layout fresh others).1 ∧
      (request.onMap layout fresh records).2.Perm (request.onMap layout fresh others).2 := by
  cases request with
  | insert content value =>
      rcases put_perm distinct perm fresh content (layout.fit value) with ⟨answers, left⟩
      simp only [Request.onMap, answers]
      exact ⟨trivial, left⟩
  | intern text default =>
      rcases put_perm distinct perm fresh text.toUTF8.toList (layout.fit default) with
        ⟨answers, left⟩
      simp only [Request.onMap, answers]
      exact ⟨trivial, left⟩
  | lookup content | get content | contains content =>
      simp only [Request.onMap, distinct.holding_perm perm]
      exact ⟨trivial, perm⟩
  | valueOf symbol | bytesOf symbol =>
      simp only [Request.onMap, distinct.behind_perm perm]
      exact ⟨trivial, perm⟩
  | setValue symbol value =>
      simp only [Request.onMap, distinct.behind_perm perm]
      exact ⟨trivial, perm.map _⟩
  | clear => exact ⟨rfl, .refl _⟩

theorem adds_perm (distinct : Distinct records) (perm : records.Perm others) {request : Request}
    (adds : request.Adds records) : request.Adds others := by
  cases request with
  | insert content value => exact (distinct.holding_perm perm content).symm.trans adds
  | intern text default => exact (distinct.holding_perm perm _).symm.trans adds
  | _ => exact adds

theorem generation_of_listed {symbol : Symbol}
    (listed : symbol ∈ (interner.toList heap).map Prod.fst) :
    symbol.generation = interner.region.generation := by
  rw [toList_eq, List.map_map] at listed
  obtain ⟨entry, -, rfl⟩ := List.mem_map.mp listed
  rfl

theorem Remembers.answered {later : Interner × Process} (remembers : interner.Remembers heap known)
    (continues : interner.Continues (interner.region.generation + request.isClear.toNat)
      (request.onMap layout fresh (interner.toList heap)).2 later) :
    later.1.Remembers later.2.heap
      (known ++ (request.onMap layout fresh (interner.toList heap)).1.symbols) := by
  intro symbol member
  have listed : symbol ∈ (later.1.toList later.2.heap).map Prod.fst ↔ _ :=
    (continues.records.map Prod.fst).mem_iff
  cases keeps : request.isClear with
  | true =>
      obtain rfl : request = .clear := by
        cases request <;> cases keeps
        rfl
      have generation : later.1.region.generation = interner.region.generation + 1 :=
        continues.generation
      rw [generation]
      rcases List.mem_append.mp member with old | issued
      · rcases remembers symbol old with ⟨past, -⟩
        exact ⟨Nat.le_succ_of_le past, fun same => by omega⟩
      · cases issued
  | false =>
      rcases onMap_symbols (interner.toList heap) layout fresh request keeps with ⟨kept, issues⟩
      have generation := continues.generation
      rw [keeps, Bool.toNat_false, Nat.add_zero] at generation
      rcases List.mem_append.mp member with old | issued
      · rcases remembers symbol old with ⟨past, current⟩
        rw [generation]
        exact ⟨past, fun same => listed.mpr (kept (current same))⟩
      · have here := listed.mpr (issues issued)
        exact ⟨Nat.le_of_eq (generation_of_listed here), fun _ => here⟩

theorem Remembers.kept {later : Interner × Process} (remembers : interner.Remembers heap known)
    (continues : interner.Continues interner.region.generation (interner.toList heap) later) :
    later.1.Remembers later.2.heap known := by
  intro symbol member
  rcases remembers symbol member with ⟨past, current⟩
  rw [continues.generation]
  exact ⟨past, fun same => (continues.records.map Prod.fst).mem_iff.mpr (current same)⟩

theorem agrees_of_continues {step : Step Request Answer Interner} {later : List Record}
    {generation : Nat} (continues : interner.Continues generation later step.after)
    (outcome : (∃ fresh, step.outcome = .ok (step.request.onMap interner.value fresh records).1 ∧
        later = (step.request.onMap interner.value fresh records).2) ∨
      ∃ failure, step.outcome = .error failure ∧ step.request.Adds records ∧
        interner.manager.Denies step.after.2 failure ∧ later = records) :
    Agrees interner.value interner.manager records later step := by
  have valid := continues.sound.valid
  have distinct := valid.distinct_toList.perm continues.records
  refine ⟨outcome, ?_, continues.records, distinct, ?_⟩
  · rw [← valid.length_toList]
    exact continues.records.length_eq
  · intro record member
    rw [lookup_eq valid, valid.distinct_toList.holding_perm continues.records,
      distinct.holding_of_mem member]
    rfl

/-- From a state that holds what the map holds, a run goes on as the map does. -/
theorem refines_of_sound (requests : List Request) (sound : interner.SoundIn process)
    (perm : (interner.toList process.heap).Perm records)
    (remembers : interner.Remembers process.heap known)
    (few : interner.region.generation + requests.countP Request.isClear < wordLimit)
    (honest : Honest interner.region.id known (Method.run perform requests (interner, process))) :
    Refines interner.value interner.manager records
      (Method.run perform requests (interner, process)) := by
  induction requests generalizing interner process records known with
  | nil => trivial
  | cons request rest ih =>
      have distinct := sound.valid.distinct_toList
      rw [Method.run_cons] at honest ⊢
      have knows : ∀ symbol ∈ request.symbol?, interner.Knows symbol := fun symbol presented =>
        remembers.knows (honest.1 symbol presented)
      have ends := perform_ends request sound knows
      have later := honest.2
      rw [List.countP_cons] at few
      rcases ran : (perform request).runFrom (interner, process) with ⟨failure | answer, after⟩
      · rw [ran] at later
        rcases ends.of_error ran with ⟨clears, last⟩ | ⟨adds, denies, continues⟩
        · rw [clears, if_pos rfl] at few
          omega
        · have addsThere := adds_perm distinct perm adds
          have continuesThere : interner.Continues _ records after :=
            { continues with records := continues.records.trans perm }
          refine ⟨records, agrees_of_continues continuesThere
            (.inr ⟨failure, rfl, addsThere, denies, rfl⟩), ?_⟩
          have next := ih continues.sound continuesThere.records (remembers.kept continues) ?_ ?_
          · rwa [continues.value, continues.manager] at next
          · rw [continues.generation]
            omega
          · rw [continues.id]
            simpa [given] using later
      · rw [ran] at later
        rcases ends.of_ok ran with ⟨fresh, rfl, continues⟩
        rcases onMap_perm distinct perm request interner.value fresh with ⟨answers, left⟩
        have continuesThere : interner.Continues _ _ after :=
          { continues with records := continues.records.trans left }
        refine ⟨_, agrees_of_continues continuesThere
          (.inl ⟨fresh, congrArg Except.ok answers, rfl⟩), ?_⟩
        have next := ih continues.sound continuesThere.records (remembers.answered continues) ?_ ?_
        · rwa [continues.value, continues.manager] at next
        · rw [continues.generation]
          cases clears : request.isClear
          · simp only [clears, Bool.false_eq_true, if_false, Bool.toNat_false] at few ⊢
            omega
          · simp only [clears, if_true, Bool.toNat_true] at few ⊢
            omega
        · rw [continues.id]
          exact later

/-- A new interner is a map from strings to values: whatever is asked of it, in whatever order and
with whatever symbols it gave out, it answers as a map that started empty, and holds what that map
holds. -/
theorem run_refines_string_map {manager : Manager} {requested : Nat} {value : Layout}
    {hasher : List UInt8 → UInt64} {start : Process} (memory : process.Sound)
    (align : isPowerOfTwo value.align = true)
    (created : (create manager requested value hasher).runFrom process = (.ok interner, start))
    (requests : List Request) (few : requests.countP Request.isClear < wordLimit)
    (honest : Honest interner.region.id [] (Method.run perform requests (interner, start))) :
    Refines value manager [] (Method.run perform requests (interner, start)) := by
  rcases (create_ends requested hasher memory align).of_ok created with
    ⟨sound, rfl, rfl, -, empty, first⟩
  have unused : interner.toList start.heap = [] := by rw [toList_eq, empty, List.map_nil]
  have remembers : interner.Remembers start.heap [] := fun _ member => by cases member
  exact refines_of_sound requests sound (unused ▸ .refl _) remembers (by omega) honest

theorem strings_created : ∃ (interner : Interner) (start : Process),
    (create ⟨0⟩ 4 ⟨1, 1⟩ fun _ => 0).runFrom ((Manager.create .tracked).runFrom {}).2 =
      (.ok interner, start) ∧
    ((perform (.insert [1] [2])).runFrom (interner, start)).1 =
      .ok (.inserted ⟨1, 0, ⟨69648, 0⟩⟩ true) := ⟨_, _, rfl, rfl⟩

theorem run_refines_string_map_bytes : ∃ (interner : Interner) (start : Process),
    (create ⟨0⟩ 4 ⟨1, 1⟩ fun _ => 0).runFrom ((Manager.create .tracked).runFrom {}).2 =
      (.ok interner, start) ∧
    Refines ⟨1, 1⟩ ⟨0⟩ [] (Method.run perform
      [.insert [1] [2], .setValue ⟨1, 0, ⟨69648, 0⟩⟩ [3], .insert [4] [5], .get [1], .clear]
      (interner, start)) := by
  rcases strings_created with ⟨interner, start, created, issued⟩
  refine ⟨interner, start, created, run_refines_string_map
    (Manager.sound_create Allocator.ascending_lawful _) rfl created _ (by decide) ?_⟩
  simp [Honest, given, Request.symbol?, issued, Answer.symbols]

end Interner

end SymbolStore
