import SymbolStore.Proofs.Dictionary.Operations
import SymbolStore.Proofs.Run

/-!
Runs of requests to a dictionary. At every point of a run the dictionary is valid, and every answer
is the one that a map with the same history would give.
-/

namespace SymbolStore

open SymbolStore.Action (Ends)

namespace Dictionary

variable {K V : Type}

inductive Request (K V : Type)
  | set (key : K) (value : V)
  | get (key : K)
  | modify (key : K) (f : V → V)
  | contains (key : K)
  | remove (key : K)
  | delete (key : K)
  | clear

inductive Answer (V : Type)
  | value (value : Option V)
  | truth (present : Bool)
  | done
  deriving DecidableEq, Repr

def perform : Request K V → Method (Dictionary K V) (Answer V)
  | .set key value => .value <$> set key value
  | .get key => do return .value (← (← Method.self).get key)
  | .modify key f => .value <$> modify key f
  | .contains key => do return .truth (← (← Method.self).contains key)
  | .remove key => .value <$> remove key
  | .delete key => .truth <$> delete key
  | .clear => do
    clear
    return .done

/-- What a map with the given entries answers, and the entries that it has then. -/
def Request.onMap (rule : KeyRule K) : Request K V → List (K × V) → Answer V × List (K × V)
  | .set key value, entries => (.value (lookup rule entries key), put rule key value entries)
  | .get key, entries => (.value (lookup rule entries key), entries)
  | .modify key f, entries => (.value ((lookup rule entries key).map f), alter rule key f entries)
  | .contains key, entries => (.truth (lookup rule entries key).isSome, entries)
  | .remove key, entries => (.value (lookup rule entries key), without rule key entries)
  | .delete key, entries => (.truth (lookup rule entries key).isSome, without rule key entries)
  | .clear, _ => (.done, [])

def Request.Adds (rule : KeyRule K) (entries : List (K × V)) : Request K V → Prop
  | .set key _ => lookup rule entries key = none
  | _ => False

variable {dictionary : Dictionary K V} {process : Process} {rule : KeyRule K} {manager : Manager}

theorem get_eq (key : K) (sound : dictionary.SoundIn process) :
    dictionary.get key = .ok (lookup dictionary.rule dictionary.toList key) := by
  rcases find_cases sound.valid sound.consistent key with
    ⟨index, node, found, stored, same⟩ | ⟨missed, lacks⟩
  · rw [get, found, lookup_stored sound.valid sound.consistent stored same]
    rfl
  · rw [get, missed, lookup_of_lacks lacks]
    rfl

theorem contains_eq (key : K) (sound : dictionary.SoundIn process) :
    dictionary.contains key = .ok (lookup dictionary.rule dictionary.toList key).isSome := by
  rcases find_cases sound.valid sound.consistent key with
    ⟨index, node, found, stored, same⟩ | ⟨missed, lacks⟩
  · rw [contains, found, lookup_stored sound.valid sound.consistent stored same]
    rfl
  · rw [contains, missed, lookup_of_lacks lacks]
    rfl

theorem perform_ends (request : Request K V) (sound : dictionary.SoundIn process) :
    Ends (perform request) (dictionary, process)
      (fun answer after => answer = (request.onMap dictionary.rule dictionary.toList).1 ∧
        dictionary.Continues (request.onMap dictionary.rule dictionary.toList).2 after)
      fun failure after => request.Adds dictionary.rule dictionary.toList ∧
        dictionary.manager.Denies after.2 failure ∧
        dictionary.Continues dictionary.toList after := by
  cases request with
  | set key value =>
      rw [perform, Action.ends_map]
      apply (set_ends key value sound).mono ?_ fun _ _ failed => failed
      intro _ after ends
      rcases ends with ⟨rfl, continues⟩
      exact ⟨rfl, continues⟩
  | get key =>
      simp only [perform, Action.ends_bind, Method.ends_self, Action.ends_liftFault,
        get_eq key sound, Action.ends_pure]
      exact ⟨rfl, sound.continues⟩
  | modify key f =>
      rw [perform, Action.ends_map]
      apply (modify_ends key f sound).mono ?_ fun _ _ none => none.elim
      intro _ after ends
      rcases ends with ⟨rfl, continues⟩
      exact ⟨rfl, continues⟩
  | contains key =>
      simp only [perform, Action.ends_bind, Method.ends_self, Action.ends_liftFault,
        contains_eq key sound, Action.ends_pure]
      exact ⟨rfl, sound.continues⟩
  | remove key =>
      rw [perform, Action.ends_map]
      apply (remove_ends key sound).mono ?_ fun _ _ none => none.elim
      intro _ after ends
      rcases ends with ⟨rfl, continues⟩
      exact ⟨rfl, continues⟩
  | delete key =>
      rw [perform, delete, Action.ends_map, Action.ends_map]
      apply (remove_ends key sound).mono ?_ fun _ _ none => none.elim
      intro _ after ends
      rcases ends with ⟨rfl, continues⟩
      exact ⟨rfl, continues⟩
  | clear =>
      rw [perform]
      exact (clear_ends sound).bind (fun _ _ none => none.elim) fun _ _ continues =>
        ⟨rfl, continues⟩

theorem perform_continues (request : Request K V) (sound : dictionary.SoundIn process) :
    ∃ content, dictionary.Continues content ((perform request).runFrom (dictionary, process)).2 :=
  by
  have ends := perform_ends request sound
  rcases ran : (perform request).runFrom (dictionary, process) with ⟨failure | answer, after⟩
  · exact ⟨_, (ends.of_error ran).2.2⟩
  · exact ⟨_, (ends.of_ok ran).2⟩

theorem final_continues (requests : List (Request K V)) (sound : dictionary.SoundIn process) :
    ∃ content, dictionary.Continues content
      (Method.final perform requests (dictionary, process)) := by
  induction requests generalizing dictionary process with
  | nil => exact ⟨_, sound.continues⟩
  | cons request rest ih =>
      rcases perform_continues request sound with ⟨content, continues⟩
      rcases ih continues.sound with ⟨left, later⟩
      exact ⟨left, continues.trans later (.refl _)⟩

/-- In every state that a new dictionary comes to, its representation is valid, no search runs out
of buckets, and no request stops with a fault, save that of a manager that cannot count another
allocation. -/
theorem final_valid {requested : Nat} {layout : Layout} {start : Process}
    (memory : process.Sound) (consistent : rule.Consistent)
    (align : isPowerOfTwo layout.align = true)
    (created : (create manager requested rule layout).runFrom process = (.ok dictionary, start))
    (requests : List (Request K V)) :
    let state := Method.final perform requests (dictionary, start)
    state.1.Valid ∧
      (∀ key, ∃ outcome, state.1.searchFor key = .ok outcome ∧ outcome.finding ≠ .exhausted) ∧
      ∀ (request : Request K V) fault after,
        (perform request).runFrom state = (.error (.fault fault), after) →
          fault = .overflow .add ∧ (manager.ledgerIn after.2).Exhausted := by
  rcases (create_ends requested memory consistent align).of_ok created with ⟨sound, -, rfl, -⟩
  rcases final_continues requests sound with ⟨content, continues⟩
  refine ⟨continues.sound.valid, ?_, ?_⟩
  · intro key
    rcases searchFor_located continues.sound.valid continues.sound.consistent key with
      ⟨⟨finding, tested⟩, searched, located⟩
    refine ⟨_, searched, ?_⟩
    cases located <;> simp
  · intro request fault after ran
    rcases (perform_ends request continues.sound).of_error ran with ⟨-, denies, -⟩
    rw [continues.manager] at denies
    rcases denies with ⟨_, short⟩ | ⟨overflow, exhausted⟩
    · cases short
    · cases overflow
      exact ⟨rfl, exhausted⟩

theorem numbers_created : ∃ (dictionary : Dictionary Nat Nat) (start : Process),
    (create ⟨0⟩ 4 (.byContent fun key : Nat => [.ofNat key]) ⟨32, 8⟩).runFrom
      ((Manager.create .tracked).runFrom {}).2 = (.ok dictionary, start) := ⟨_, _, rfl⟩

theorem final_valid_numbers : ∃ (dictionary : Dictionary Nat Nat) (start : Process),
    (create ⟨0⟩ 4 (.byContent fun key : Nat => [.ofNat key]) ⟨32, 8⟩).runFrom
      ((Manager.create .tracked).runFrom {}).2 = (.ok dictionary, start) ∧
    (Method.final perform [.set 1 2, .remove 1] (dictionary, start)).1.Valid := by
  rcases numbers_created with ⟨dictionary, start, created⟩
  exact ⟨dictionary, start, created,
    (final_valid (Manager.sound_create Allocator.ascending_lawful _)
      (KeyRule.consistent_byContent _) rfl created [.set 1 2, .remove 1]).1⟩

/-- The entries of a map that had the given ones, after the step: those of before if it failed. -/
def leaves (rule : KeyRule K) (entries : List (K × V))
    (step : Step (Request K V) (Answer V) (Dictionary K V)) : List (K × V) :=
  match step.outcome with
  | .ok _ => (step.request.onMap rule entries).2
  | .error _ => entries

/-- A step does what it would do to a map with the given entries. It may fail only where a key is
added, and for want of memory. -/
structure Agrees (rule : KeyRule K) (manager : Manager) (entries : List (K × V))
    (step : Step (Request K V) (Answer V) (Dictionary K V)) : Prop where
  outcome : step.outcome = .ok (step.request.onMap rule entries).1 ∨
    ∃ failure, step.outcome = .error failure ∧ step.request.Adds rule entries ∧
      manager.Denies step.after.2 failure
  count : step.after.1.count = (leaves rule entries step).length
  content : step.after.1.toList.Perm (leaves rule entries step)
  distinct : Distinct rule (leaves rule entries step)

/-- Every step agrees with a map that starts with the given entries and keeps up with the steps. -/
def Refines (rule : KeyRule K) (manager : Manager) :
    List (K × V) → List (Step (Request K V) (Answer V) (Dictionary K V)) → Prop
  | _, [] => True
  | entries, step :: steps =>
    Agrees rule manager entries step ∧ Refines rule manager (leaves rule entries step) steps

variable {entries others : List (K × V)}

/-- The order of the entries does not show in an answer. -/
theorem onMap_perm (consistent : rule.Consistent) (perm : entries.Perm others)
    (distinct : Distinct rule entries) (request : Request K V) :
    (request.onMap rule entries).1 = (request.onMap rule others).1 ∧
      (request.onMap rule entries).2.Perm (request.onMap rule others).2 := by
  have same (key : K) : lookup rule entries key = lookup rule others key :=
    lookup_perm consistent perm distinct
  have answers : (request.onMap rule entries).1 = (request.onMap rule others).1 := by
    cases request <;> simp only [Request.onMap, same]
  refine ⟨answers, ?_⟩
  cases request with
  | set key value =>
      simp only [Request.onMap, put, same]
      cases lookup rule others key with
      | some _ => exact perm.map _
      | none => exact perm.append_right _
  | get => exact perm
  | modify => exact perm.map _
  | contains => exact perm
  | remove => exact perm.filter _
  | delete => exact perm.filter _
  | clear => exact .refl _

theorem adds_perm (consistent : rule.Consistent) (perm : entries.Perm others)
    (distinct : Distinct rule entries) {request : Request K V}
    (adds : request.Adds rule entries) : request.Adds rule others := by
  cases request with
  | set key value => exact (lookup_perm consistent perm distinct).symm.trans adds
  | _ => exact adds

theorem agrees_of_continues {step : Step (Request K V) (Answer V) (Dictionary K V)}
    (consistent : dictionary.rule.Consistent)
    (continues : dictionary.Continues (leaves dictionary.rule entries step) step.after)
    (outcome : step.outcome = .ok (step.request.onMap dictionary.rule entries).1 ∨
      ∃ failure, step.outcome = .error failure ∧ step.request.Adds dictionary.rule entries ∧
        dictionary.manager.Denies step.after.2 failure) :
    Agrees dictionary.rule dictionary.manager entries step where
  outcome := outcome
  count := by
    rw [← continues.sound.valid.length_toList]
    exact continues.content.length_eq
  content := continues.content
  distinct := by
    have distinct := continues.sound.valid.distinct_toList
    rw [continues.rule] at distinct
    exact distinct_perm consistent continues.content distinct

/-- From a state that holds what the map holds, a run goes on as the map does. -/
theorem refines_of_sound (requests : List (Request K V)) (sound : dictionary.SoundIn process)
    (perm : dictionary.toList.Perm entries) :
    Refines dictionary.rule dictionary.manager entries
      (Method.run perform requests (dictionary, process)) := by
  induction requests generalizing dictionary process entries with
  | nil => trivial
  | cons request rest ih =>
      have distinct := sound.valid.distinct_toList
      have ends := perform_ends request sound
      have answers := onMap_perm sound.consistent perm distinct request
      rw [Method.run_cons]
      rcases ran : (perform request).runFrom (dictionary, process) with ⟨failure | answer, after⟩
      · rcases ends.of_error ran with ⟨adds, denies, continues⟩
        have addsThere := adds_perm sound.consistent perm distinct adds
        have next := ih continues.sound (continues.content.trans perm)
        rw [continues.rule, continues.manager] at next
        refine ⟨agrees_of_continues sound.consistent ?_ (.inr ⟨failure, rfl, addsThere, denies⟩),
          next⟩
        exact { continues with content := continues.content.trans perm }
      · rcases ends.of_ok ran with ⟨rfl, continues⟩
        have next := ih continues.sound (continues.content.trans answers.2)
        rw [continues.rule, continues.manager] at next
        refine ⟨agrees_of_continues sound.consistent ?_ (.inl (congrArg _ answers.1)), next⟩
        exact { continues with content := continues.content.trans answers.2 }

/-- A new dictionary is a map: whatever is asked of it, in whatever order, it answers as a map that
started empty, and holds what that map holds. -/
theorem run_refines_map {requested : Nat} {layout : Layout} {start : Process}
    (memory : process.Sound) (consistent : rule.Consistent)
    (align : isPowerOfTwo layout.align = true)
    (created : (create manager requested rule layout).runFrom process = (.ok dictionary, start))
    (requests : List (Request K V)) :
    Refines rule manager [] (Method.run perform requests (dictionary, start)) := by
  rcases (create_ends requested memory consistent align).of_ok created with ⟨sound, rfl, rfl, empty⟩
  exact refines_of_sound requests sound (empty ▸ .refl _)

theorem run_refines_map_numbers : ∃ (dictionary : Dictionary Nat Nat) (start : Process),
    (create ⟨0⟩ 4 (.byContent fun key : Nat => [.ofNat key]) ⟨32, 8⟩).runFrom
      ((Manager.create .tracked).runFrom {}).2 = (.ok dictionary, start) ∧
    Refines (.byContent fun key : Nat => [.ofNat key]) ⟨0⟩ []
      (Method.run perform [.set 1 2, .set 1 3, .remove 1, .contains 1] (dictionary, start)) := by
  rcases numbers_created with ⟨dictionary, start, created⟩
  exact ⟨dictionary, start, created,
    run_refines_map (Manager.sound_create Allocator.ascending_lawful _)
      (KeyRule.consistent_byContent _) rfl created _⟩

end Dictionary

end SymbolStore
