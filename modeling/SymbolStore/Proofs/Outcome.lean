import SymbolStore.Memory.Manager

/-! What is known of a step at its end, whether it succeeds or fails. -/

namespace SymbolStore

namespace Action

variable {σ τ α β : Type} {s : σ} {done : α → σ → Prop} {failed : Failure → σ → Prop}

/-- Taken from a state, the step either succeeds and leaves what `done` says of its answer, or fails
and leaves what `failed` says of its failure. -/
def Ends (x : Action σ α) (s : σ) (done : α → σ → Prop) (failed : Failure → σ → Prop) : Prop :=
  match x.runFrom s with
  | (.ok a, t) => done a t
  | (.error failure, t) => failed failure t

theorem Ends.mono {x : Action σ α} {done' : α → σ → Prop} {failed' : Failure → σ → Prop}
    (ends : Ends x s done failed) (success : ∀ a t, done a t → done' a t)
    (failure : ∀ f t, failed f t → failed' f t) : Ends x s done' failed' := by
  unfold Ends at ends ⊢
  generalize x.runFrom s = result at ends ⊢
  rcases result with ⟨_ | _, _⟩
  · exact failure _ _ ends
  · exact success _ _ ends

theorem Ends.of_ok {x : Action σ α} {a : α} {t : σ} (ends : Ends x s done failed)
    (ran : x.runFrom s = (.ok a, t)) : done a t := by
  unfold Ends at ends
  rwa [ran] at ends

theorem Ends.of_error {x : Action σ α} {failure : Failure} {t : σ} (ends : Ends x s done failed)
    (ran : x.runFrom s = (.error failure, t)) : failed failure t := by
  unfold Ends at ends
  rwa [ran] at ends

theorem Ends.exists_ok {x : Action σ α} (ends : Ends x s done fun _ _ => False) :
    ∃ a t, x.runFrom s = (.ok a, t) ∧ done a t := by
  rcases ran : x.runFrom s with ⟨failure | a, t⟩
  · exact (ends.of_error ran).elim
  · exact ⟨a, t, rfl, ends.of_ok ran⟩

theorem Ends.and {x : Action σ α} {done' : α → σ → Prop} {failed' : Failure → σ → Prop}
    (first : Ends x s done failed) (second : Ends x s done' failed') :
    Ends x s (fun a t => done a t ∧ done' a t) fun failure t =>
      failed failure t ∧ failed' failure t := by
  unfold Ends at first second ⊢
  generalize x.runFrom s = result at first second ⊢
  rcases result with ⟨_ | _, _⟩
  · exact ⟨first, second⟩
  · exact ⟨first, second⟩

theorem ends_ran (x : Action σ α) (s : σ) :
    Ends x s (fun a t => x.runFrom s = (.ok a, t)) fun failure t =>
      x.runFrom s = (.error failure, t) := by
  unfold Ends
  rcases x.runFrom s with ⟨_ | _, _⟩ <;> rfl

/-- What is known of an end may be all that there is to know. -/
theorem Ends.runFrom_eq {x : Action σ α} {a : α} {t : σ}
    (ends : Ends x s (fun b u => b = a ∧ u = t) fun _ _ => False) : x.runFrom s = (.ok a, t) := by
  rcases ran : x.runFrom s with ⟨failure | b, u⟩
  · exact (ends.of_error ran).elim
  · obtain ⟨rfl, rfl⟩ := ends.of_ok ran
    rfl

theorem ends_outcome {P : Except Failure α → σ → Prop} {x : Action σ α} :
    Ends x s (fun a t => P (.ok a) t) (fun failure t => P (.error failure) t) ↔
      P (x.runFrom s).1 (x.runFrom s).2 := by
  unfold Ends
  rcases x.runFrom s with ⟨_ | _, _⟩ <;> rfl

theorem ends_trivial (x : Action σ α) (s : σ) : Ends x s (fun _ _ => True) fun _ _ => True := by
  unfold Ends
  rcases x.runFrom s with ⟨_ | _, _⟩ <;> trivial

@[simp] theorem ends_pure (a : α) : Ends (pure a) s done failed ↔ done a s := Iff.rfl

@[simp] theorem ends_throw (failure : Failure) :
    Ends (throw failure) s done failed ↔ failed failure s := Iff.rfl

@[simp] theorem ends_fail (cause : MemoryError) :
    Ends (fail cause) s done failed ↔ failed (.error cause) s := Iff.rfl

@[simp] theorem ends_stop (cause : Fault) :
    Ends (stop cause) s done failed ↔ failed (.fault cause) s := Iff.rfl

@[simp] theorem ends_get {done : σ → σ → Prop} : Ends get s done failed ↔ done s s := Iff.rfl

@[simp] theorem ends_set {done : PUnit → σ → Prop} (t : σ) :
    Ends (set t) s done failed ↔ done ⟨⟩ t := Iff.rfl

@[simp] theorem ends_modify {done : PUnit → σ → Prop} (f : σ → σ) :
    Ends (modify f) s done failed ↔ done ⟨⟩ (f s) := Iff.rfl

@[simp] theorem ends_bind {done : β → σ → Prop} (x : Action σ α) (f : α → Action σ β) :
    Ends (x >>= f) s done failed ↔ Ends x s (fun a t => Ends (f a) t done failed) failed := by
  unfold Ends
  rw [runFrom_bind]
  rcases x.runFrom s with ⟨_ | _, _⟩ <;> rfl

theorem Ends.bind {done : β → σ → Prop} {x : Action σ α} {f : α → Action σ β}
    {middle : α → σ → Prop} {stopped : Failure → σ → Prop} (first : Ends x s middle stopped)
    (stops : ∀ failure t, stopped failure t → failed failure t)
    (next : ∀ a t, middle a t → Ends (f a) t done failed) : Ends (x >>= f) s done failed :=
  (ends_bind x f).mpr (first.mono next stops)

/-- What is known of an answer, whatever went before. -/
theorem Ends.after {done : β → σ → Prop} {x : Action σ α} {f : α → Action σ β}
    (next : ∀ a t, Ends (f a) t done fun _ _ => True) : Ends (x >>= f) s done fun _ _ => True :=
  (ends_trivial x s).bind (fun _ _ _ => trivial) fun a t _ => next a t

@[simp] theorem ends_map {done : β → σ → Prop} (f : α → β) (x : Action σ α) :
    Ends (f <$> x) s done failed ↔ Ends x s (fun a t => done (f a) t) failed := by
  unfold Ends
  rw [runFrom_map]
  rcases x.runFrom s with ⟨_ | _, _⟩ <;> rfl

@[simp] theorem ends_require {done : Unit → σ → Prop} (condition : Bool) (cause : MemoryError) :
    Ends (require condition cause) s done failed ↔
      if condition then done () s else failed (.error cause) s := by
  cases condition <;> rfl

@[simp] theorem ends_ensure {done : Unit → σ → Prop} (condition : Bool) (cause : Fault) :
    Ends (ensure condition cause) s done failed ↔
      if condition then done () s else failed (.fault cause) s := by
  cases condition <;> rfl

@[simp] theorem ends_liftFault (x : Except Fault α) :
    Ends (liftM x : Action σ α) s done failed ↔
      match x with
      | .ok a => done a s
      | .error cause => failed (.fault cause) s := by
  cases x <;> rfl

theorem ends_add {done : Nat → σ → Prop} (a b : Nat) :
    Ends (liftM (Word.add a b) : Action σ Nat) s done failed ↔
      if a + b < wordLimit then done (a + b) s else failed (.fault (.overflow .add)) s := by
  rw [ends_liftFault, Word.add]
  by_cases fits : a + b < wordLimit
  · simp only [if_pos fits]
  · simp only [if_neg fits]

theorem ends_subtract {done : Nat → σ → Prop} (a b : Nat) :
    Ends (liftM (Word.subtract a b) : Action σ Nat) s done failed ↔
      if b ≤ a then done (a - b) s else failed (.fault (.overflow .subtract)) s := by
  rw [ends_liftFault, Word.subtract]
  by_cases fits : b ≤ a
  · simp only [if_pos fits]
  · simp only [if_neg fits]

@[simp] theorem ends_liftError (x : Except MemoryError α) :
    Ends (liftM x : Action σ α) s done failed ↔
      match x with
      | .ok a => done a s
      | .error cause => failed (.error cause) s := by
  cases x <;> rfl

theorem ends_onFailure (x : Action σ α) (cleanup : Action σ Unit) :
    Ends (onFailure x cleanup) s done failed ↔
      Ends x s done fun failure t =>
        Ends cleanup t (fun _ => failed failure) fun _ => failed failure := by
  unfold Ends
  rw [runFrom_onFailure]
  rcases x.runFrom s with ⟨failure | _, t⟩
  · show failed failure (cleanup.runFrom t).2 ↔ _
    dsimp only
    rcases cleanup.runFrom t with ⟨_ | _, _⟩ <;> rfl
  · rfl

@[simp] theorem ends_within {done : α → τ → Prop} {failed : Failure → τ → Prop}
    (part : τ → σ) (restore : σ → τ → τ) (x : Action σ α) (t : τ) :
    Ends (within part restore x) t done failed ↔
      Ends x (part t) (fun a s => done a (restore s t)) fun f s => failed f (restore s t) := by
  unfold Ends
  rw [runFrom_within]
  rcases x.runFrom (part t) with ⟨_ | _, _⟩ <;> rfl

end Action

open SymbolStore.Action (Ends)

namespace Process

variable {process : Process} {done : Unit → Process → Prop} {failed : Failure → Process → Prop}

@[simp] theorem ends_log (level : Level) (origin : Origin) (text : Unit → String) :
    Ends (log level origin text) process done failed ↔
      done () { process with journal := process.journal.log level origin.target text } := Iff.rfl

@[simp] theorem ends_updateHeap (f : Heap → Heap) :
    Ends (updateHeap f) process done failed ↔ done () { process with heap := f process.heap } :=
  Iff.rfl

theorem ends_store (pointer : Pointer) (values : List UInt8) :
    Ends (store pointer values) process done failed ↔
      if process.heap.covers pointer values.length then
        done () { process with heap := process.heap.write pointer values }
      else failed (.refused .outsideBlock) process := by
  rw [store, Action.ends_bind, Action.ends_get]
  split <;> rfl

theorem store_ends (pointer : Pointer) (values : List UInt8) :
    Ends (store pointer values) process
      (fun _ after => after = { process with heap := process.heap.write pointer values })
      fun failure after => failure = .refused .outsideBlock ∧ after = process ∧
        process.heap.covers pointer values.length = false := by
  rw [ends_store]
  split
  · rfl
  · rename_i outside
    exact ⟨rfl, rfl, eq_false_of_ne_true outside⟩

theorem runFrom_store {pointer : Pointer} {values : List UInt8}
    (inside : process.heap.covers pointer values.length = true) :
    (store pointer values).runFrom process =
      (.ok (), { process with heap := process.heap.write pointer values }) := by
  rw [store, Action.runFrom_bind, Action.runFrom_get]
  dsimp only
  rw [if_pos inside]
  rfl

end Process

namespace Method

variable {O P α : Type} {state : O × Process} {failed : Failure → O × Process → Prop}

@[simp] theorem ends_ofProcess {done : α → O × Process → Prop} (x : Action Process α) :
    Ends (ofProcess x) state done failed ↔
      Ends x state.2 (fun a process => done a (state.1, process))
        fun f process => failed f (state.1, process) := by
  unfold Ends
  rw [runFrom_ofProcess]
  rcases x.runFrom state.2 with ⟨_ | _, _⟩ <;> rfl

@[simp] theorem ends_liftProcess {done : α → O × Process → Prop} (x : Action Process α) :
    Ends (liftM x) state done failed ↔
      Ends x state.2 (fun a process => done a (state.1, process))
        fun f process => failed f (state.1, process) := by
  unfold Ends
  rw [runFrom_liftProcess]
  rcases x.runFrom state.2 with ⟨_ | _, _⟩ <;> rfl

theorem liftProcess_ends (x : Action Process α) (state : O × Process) :
    Ends (liftM x : Method O α) state (fun _ after => after.1 = state.1)
      fun _ after => after.1 = state.1 := by
  rw [ends_liftProcess]
  exact (Action.ends_trivial _ _).mono (fun _ _ _ => rfl) fun _ _ _ => rfl

@[simp] theorem ends_self {done : O → O × Process → Prop} :
    Ends self state done failed ↔ done state.1 state := Iff.rfl

@[simp] theorem ends_heap {done : Heap → O × Process → Prop} :
    Ends heap state done failed ↔ done state.2.heap state := Iff.rfl

@[simp] theorem ends_update {done : Unit → O × Process → Prop} (f : O → O) :
    Ends (update f) state done failed ↔ done () (f state.1, state.2) := Iff.rfl

@[simp] theorem ends_ofPart {done : α → O × Process → Prop} (part : O → P) (restore : P → O → O)
    (x : Method P α) :
    Ends (ofPart part restore x) state done failed ↔
      Ends x (part state.1, state.2) (fun a inner => done a (restore inner.1 state.1, inner.2))
        fun f inner => failed f (restore inner.1 state.1, inner.2) := by
  unfold Ends
  rw [runFrom_ofPart]
  rcases x.runFrom (part state.1, state.2) with ⟨_ | _, _⟩ <;> rfl

end Method

namespace Manager

variable {process : Process} {failed : Failure → Process → Prop}

@[simp] theorem ends_ledger {done : Ledger → Process → Prop} (manager : Manager) :
    Ends manager.ledger process done failed ↔ done (manager.ledgerIn process) process := Iff.rfl

@[simp] theorem ends_setLedger {done : Unit → Process → Prop} (manager : Manager)
    (ledger : Ledger) :
    Ends (manager.setLedger ledger) process done failed ↔
      done ()
        { process with ledgers := process.ledgers.modify manager.id fun _ => ledger } := Iff.rfl

end Manager

end SymbolStore
