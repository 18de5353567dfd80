import SymbolStore.Proofs.Dictionary.Failing
import SymbolStore.Proofs.Twin.Alike
import SymbolStore.Proofs.Twin.Structures

/-!
Taking all keys out, one after the other and in any order. It comes to the same as clearing: all buckets
are empty and none is deleted, the manager counts the same, and nothing later tells the two apart.
-/

namespace SymbolStore

open SymbolStore.Action (Ends Respects)

namespace Dictionary

variable {K V : Type} {dictionary : Dictionary K V} {process : Process} {index : Nat}
  {node : Node K V} {key stored : K}

theorem keys_eq (dictionary : Dictionary K V) : dictionary.keys = dictionary.nodes.map Node.key := by
  rw [keys, toList_eq, List.map_map]
  rfl

@[simp] theorem emptied_emptied (dictionary : Dictionary K V) :
    dictionary.emptied.emptied = dictionary.emptied := by
  simp [emptied, BucketArray.clear, BucketArray.capacity]

@[simp] theorem emptied_withBucket (bucket : Bucket (Node K V)) (count deleted : Nat) :
    (dictionary.withBucket index bucket count deleted).emptied = dictionary.emptied := by
  simp [emptied, withBucket, BucketArray.clear, BucketArray.put, BucketArray.capacity]

/-- Emptying does nothing to a dictionary that holds nothing: the deleted buckets went with its last
entry. -/
theorem Valid.emptied_of_none (valid : dictionary.Valid) (none : dictionary.nodes = []) :
    dictionary.emptied = dictionary := by
  have count : dictionary.count = 0 := by rw [valid.count, none, List.length_nil]
  have empty := valid.purged count
  have deleted : dictionary.deleted = 0 := by
    rw [valid.deleted, empty, deletedCount_replicate]
  have table : dictionary.table.clear = dictionary.table := by
    rw [BucketArray.clear]
    exact congrArg (BucketArray.mk dictionary.table.block) empty.symm
  rw [emptied, table]
  exact congrArg₂ (fun count deleted : Nat => { dictionary with count, deleted }) count.symm
    deleted.symm

theorem emptied_struck (dictionary : Dictionary K V) (index : Nat) :
    (dictionary.struck index).emptied = dictionary.emptied := by
  rw [struck]
  split
  · exact emptied_emptied dictionary
  · exact emptied_withBucket _ _ _

theorem struck_same (dictionary : Dictionary K V) (index : Nat) :
    (dictionary.struck index).rule = dictionary.rule ∧
      (dictionary.struck index).manager = dictionary.manager ∧
      (dictionary.struck index).node = dictionary.node := by
  rw [struck]
  split <;> exact ⟨rfl, rfl, rfl⟩

theorem nodes_struck (valid : dictionary.Valid) (consistent : dictionary.rule.Consistent)
    (there : dictionary.table.buckets[index]? = some (.occupied node))
    (same : dictionary.rule.same node.key key = true) :
    ∃ front back, dictionary.nodes = front ++ [node] ++ back ∧
      (∀ other ∈ front ++ back, dictionary.rule.same other.key key = false) ∧
      (dictionary.struck index).nodes = front ++ back := by
  obtain ⟨front, back, whole, others, left⟩ := nodes_split valid consistent there same
  refine ⟨front, back, whole, others, ?_⟩
  rw [struck]
  split
  · rename_i last
    have one : (front ++ [node] ++ back).length = 1 := by rw [← whole, ← valid.count, last]
    have none : front ++ back = [] := by
      apply List.eq_nil_of_length_eq_zero
      simp only [List.length_append, List.length_singleton] at one ⊢
      omega
    rw [nodes_emptied, none]
  · rw [left]
    exact congrArg (· ++ back) (List.append_nil front)

/-- A request that takes out what is stored under the key. -/
inductive Request.TakesOut (rule : KeyRule K) (stored : K) : Request K V → Prop
  | remove {key : K} (same : rule.same stored key = true) : TakesOut rule stored (.remove key)
  | delete {key : K} (same : rule.same stored key = true) : TakesOut rule stored (.delete key)

def Answer.found : Answer V → Bool
  | .value old => old.isSome
  | .truth present => present
  | .done => false

/-- What is left when a stored key has been taken out. -/
structure Strikes (dictionary : Dictionary K V) (process : Process) (stored : K)
    (after : Dictionary K V × Process) : Prop where
  sound : after.1.SoundIn after.2
  rule : after.1.rule = dictionary.rule
  manager : after.1.manager = dictionary.manager
  node : after.1.node = dictionary.node
  emptied : after.1.emptied = dictionary.emptied
  block : ∃ block, (block :: after.1.blocks).Perm dictionary.blocks ∧
    after.2 = process.without dictionary.manager dictionary.node.size block
  keys : (stored :: after.1.keys).Perm dictionary.keys

theorem remove_strikes (sound : dictionary.SoundIn process) (member : stored ∈ dictionary.keys)
    (same : dictionary.rule.same stored key = true) :
    Ends (remove key) (dictionary, process)
      (fun answer after => answer.isSome = true ∧ dictionary.Strikes process stored after)
      fun _ _ => False := by
  rw [keys_eq] at member
  obtain ⟨own, listed, rfl⟩ := List.mem_map.mp member
  apply ((remove_removes key sound).and (remove_ends key sound)).mono ?_ fun _ _ none => none.1
  rintro _ after ⟨removed, -, continues⟩
  cases removed with
  | absent lacks => exact absurd same (by rw [lacks own listed]; decide)
  | @taken index node after there hit freed =>
      obtain ⟨front, back, whole, others, left⟩ :=
        nodes_struck sound.valid sound.consistent there hit
      obtain ⟨rule, manager, layout⟩ := dictionary.struck_same index
      have middle : (node :: (dictionary.struck index).nodes).Perm dictionary.nodes := by
        rw [left, whole, List.append_assoc]
        exact List.perm_middle.symm
      -- Keys that are the same as the one asked for are the same, so there is only one node of it.
      have is : node = own := by
        rw [whole] at listed
        by_contra different
        have member : own ∈ front ++ back := by
          simpa [Ne.symm different] using listed
        rw [others own member] at same
        cases same
      have block : node.block ∈ dictionary.blocks :=
        List.mem_map_of_mem (mem_nodes.mpr ⟨index, there⟩)
      have leaves := (Manager.free_leaves sound.memory (sound.owns.nodes _ block)).of_ok freed
      refine ⟨rfl, continues.sound, rule, manager, layout, emptied_struck dictionary index,
        ⟨node.block, middle.map Node.block, leaves⟩, ?_⟩
      rw [keys_eq, keys_eq, ← is]
      exact middle.map Node.key

theorem Request.TakesOut.strikes {request : Request K V}
    (takes : request.TakesOut dictionary.rule stored) (sound : dictionary.SoundIn process)
    (member : stored ∈ dictionary.keys) :
    Ends (perform request) (dictionary, process)
      (fun answer after => answer.found = true ∧ dictionary.Strikes process stored after)
      fun _ _ => False := by
  cases takes with
  | remove same =>
      rw [perform, Action.ends_map]
      exact remove_strikes sound member same
  | delete same =>
      rw [perform, Dictionary.delete, Action.ends_map, Action.ends_map]
      exact remove_strikes sound member same

/-- All keys are taken out. Their blocks are given back, in whatever order. -/
theorem removals_empty {order : List K} {requests : List (Request K V)}
    (sound : dictionary.SoundIn process) (all : order.Perm dictionary.keys)
    (each : List.Forall₂ (Request.TakesOut dictionary.rule) order requests) :
    (∀ step ∈ Method.run perform requests (dictionary, process),
      ∃ answer, step.outcome = .ok answer ∧ answer.found = true) ∧
    ∃ blocks, blocks.Perm dictionary.blocks ∧
      Method.final perform requests (dictionary, process) = (dictionary.emptied,
        process.withoutAll dictionary.manager dictionary.node.size blocks) := by
  induction order generalizing dictionary process requests with
  | nil =>
      cases each
      have none : dictionary.nodes = [] := by
        rw [keys_eq] at all
        exact List.map_eq_nil_iff.mp all.nil_eq.symm
      refine ⟨fun _ member => (nomatch member), [], ?_, ?_⟩
      · rw [show dictionary.blocks = dictionary.nodes.map Node.block from rfl, none]
        exact .nil
      · rw [sound.valid.emptied_of_none none]
        rfl
  | cons stored rest ih =>
      cases each with
      | @cons _ request _ others takes each =>
          have member : stored ∈ dictionary.keys := all.subset List.mem_cons_self
          have strikes := takes.strikes sound member
          rw [Method.run_cons, Method.final_cons]
          rcases ran : (perform request).runFrom (dictionary, process) with
            ⟨failure | answer, later, after⟩
          · exact (strikes.of_error ran).elim
          obtain ⟨found, struck⟩ := strikes.of_ok ran
          obtain ⟨block, gone, leaves⟩ := struck.block
          have left : rest.Perm later.keys := (all.trans struck.keys.symm).cons_inv
          rw [← struck.rule] at each
          obtain ⟨taken, blocks, perm, final⟩ := ih struck.sound left each
          refine ⟨?_, block :: blocks, (perm.cons block).trans gone, ?_⟩
          · intro step listed
            rcases List.mem_cons.mp listed with rfl | listed
            · exact ⟨answer, rfl, found⟩
            · exact taken step listed
          · rw [struck.emptied, struck.manager, struck.node] at final
            rw [Process.withoutAll, List.foldl_cons, ← leaves]
            exact final

theorem runFrom_clear (sound : dictionary.SoundIn process) :
    (perform .clear).runFrom (dictionary, process) = (.ok .done, dictionary.emptied,
      process.withoutAll dictionary.manager dictionary.node.size dictionary.blocks) := by
  have apart := (List.nodup_cons.mp sound.owns.apart).2
  have leaves := Manager.freeAll_leaves _ sound.memory apart sound.owns.nodes
  apply Ends.runFrom_eq
  rw [perform]
  apply (clear_empties sound).bind (fun _ _ none => none)
  rintro _ ⟨left, after⟩ ⟨rfl, freed⟩
  rw [← leaves.of_ok freed]
  exact ⟨rfl, rfl⟩

section Later

variable {known : Manager → Prop} {excused : Failure → Prop}
  {rel : Nat → Process → Process → Prop}

theorem perform_respects (parallel : Parallel known excused rel) (request : Request K V) :
    Respects excused (Abreast known rel) 2 (perform request) := by
  cases request with
  | set key value => exact Action.respects_map (set_respects parallel key value)
  | get key =>
      rw [perform]
      apply Method.respects_self
      intro dictionary _
      exact Action.respects_ofFault fun _ _ => Action.respects_pure _
  | modify key f => exact (Action.respects_map (modify_respects key f)).mono (by decide)
  | contains key =>
      rw [perform]
      apply Method.respects_self
      intro dictionary _
      exact Action.respects_ofFault fun _ _ => Action.respects_pure _
  | remove key => exact (Action.respects_map (remove_respects parallel key)).mono (by decide)
  | delete key =>
      have deletes := Action.respects_map (f := Option.isSome) (remove_respects (V := V) parallel key)
      exact (Action.respects_map deletes).mono (by decide)
  | clear => exact (clear_respects parallel).answers (by decide)

/-- The steps answer alike and leave the same dictionary, with the same counts of all managers. -/
structure Matches (here there : Step (Request K V) (Answer V) (Dictionary K V)) : Prop where
  outcome : there.outcome = here.outcome
  dictionary : there.after.1 = here.after.1
  counters : ∀ manager : Manager,
    (manager.ledgerIn there.after.2).counters = (manager.ledgerIn here.after.2).counters

/-- A run goes on alike in processes with the same blocks and books. -/
theorem run_matches {s t : Dictionary K V × Process} (requests : List (Request K V))
    (related : Abreast (fun _ => True) Process.Likeness 0 s t) :
    List.Forall₂ Matches (Method.run perform requests s) (Method.run perform requests t) := by
  induction requests generalizing s t with
  | nil => exact .nil
  | cons request requests ih =>
      have outcomes := (perform_respects Process.likeness_parallel request 0 s t related).outcomes
        fun _ _ => id
      obtain ⟨outcome, -, -, same, known, fit, alike⟩ := outcomes
      rw [Method.run_cons, Method.run_cons]
      refine .cons ⟨outcome, same, fun manager => (alike.ledgerIn manager).counters⟩ ?_
      exact ih ⟨same, known, fit, alike⟩

end Later

/-- Clearing is taking everything out. Take all keys of a dictionary out, each with a request of
its own and in whatever order. Every key is found, and in the end the dictionary is the one that a clear
leaves: as many buckets as before, all of them empty, no entries and no deleted buckets. Every manager
counts the same. From then on the same requests are answered alike and leave the same dictionary, if
the system decides by the blocks that there are. -/
theorem removing_all_clears {state : Dictionary K V × Process} {order : List K}
    {requests : List (Request K V)} (reachable : Reachable state) (all : order.Perm state.1.keys)
    (each : List.Forall₂ (Request.TakesOut state.1.rule) order requests) :
    let removed := Method.final perform requests state
    let cleared := (perform .clear).runFrom state
    (∀ step ∈ Method.run perform requests state,
        ∃ answer, step.outcome = .ok answer ∧ answer.found = true) ∧
      cleared.1 = .ok .done ∧ removed.1 = cleared.2.1 ∧
      (removed.1.capacity = state.1.capacity ∧
        removed.1.table.buckets = Array.replicate state.1.capacity .empty ∧
        removed.1.count = 0 ∧ removed.1.deleted = 0) ∧
      (∀ manager : Manager,
        (manager.ledgerIn removed.2).counters = (manager.ledgerIn cleared.2.2).counters) ∧
      (state.2.allocator.Extensional → ∀ later : List (Request K V),
        List.Forall₂ Matches (Method.run perform later removed)
          (Method.run perform later cleared.2)) := by
  rcases state with ⟨dictionary, process⟩
  intro removed cleared
  have sound : dictionary.SoundIn process := reachable.sound
  obtain ⟨found, blocks, perm, final⟩ := removals_empty sound all each
  have final : removed = (dictionary.emptied,
      process.withoutAll dictionary.manager dictionary.node.size blocks) := final
  have clears : cleared = (.ok .done, dictionary.emptied,
      process.withoutAll dictionary.manager dictionary.node.size dictionary.blocks) :=
    runFrom_clear sound
  have alike : removed.2.Alike cleared.2.2 := by
    rw [final, clears]
    exact Process.withoutAll_perm perm
  have same : removed.1 = cleared.2.1 := by rw [final, clears]
  refine ⟨found, ?_, same, ?_, ?_, ?_⟩
  · rw [clears]
  · rw [final]
    exact ⟨capacity_emptied, rfl, rfl, rfl⟩
  · exact fun manager => (alike.ledgerIn manager).counters.symm
  · intro extensional later
    apply run_matches later
    refine ⟨same.symm, trivial, ?_, alike⟩
    rw [final, Process.allocator_withoutAll]
    exact extensional

/-- Three keys in another order than that of their buckets, with requests of both kinds. -/
theorem removing_all_clears_sample :
    let requests : List (Request Nat Nat) := [.delete 3, .remove 1, .remove 2]
    let later : List (Request Nat Nat) := [.set 5 0, .contains 1]
    ∃ start : Dictionary Nat Nat × Process, sampleThree = start ∧ Reachable start ∧
      [3, 1, 2].Perm start.1.keys ∧
      List.Forall₂ (Request.TakesOut start.1.rule) [3, 1, 2] requests ∧
      start.2.allocator.Extensional ∧
      (Method.final perform requests start).1 = ((perform .clear).runFrom start).2.1 ∧
      List.Forall₂ Matches (Method.run perform later (Method.final perform requests start))
        (Method.run perform later ((perform .clear).runFrom start).2) := by
  intro requests later
  have reachable := sample_reachable.2
  have all : [3, 1, 2].Perm sampleThree.1.keys := by decide +kernel
  have system : sampleThree.2.allocator = .ascending := rfl
  generalize sampleThree = start at reachable all system ⊢
  have same := reachable.sound.consistent.refl
  have each : List.Forall₂ (Request.TakesOut start.1.rule) [3, 1, 2] requests :=
    .cons (.delete (same 3)) (.cons (.remove (same 1)) (.cons (.remove (same 2)) .nil))
  have extensional : start.2.allocator.Extensional := by
    rw [system]
    exact Allocator.ascending_blind.extensional
  obtain ⟨-, -, left, -, -, matching⟩ := removing_all_clears reachable all each
  exact ⟨start, rfl, reachable, all, each, extensional, left, matching extensional later⟩

end Dictionary

end SymbolStore
