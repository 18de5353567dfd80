import SymbolStore.Word

/-! Steps over a state that may fail and then still show what they have changed. -/

namespace SymbolStore

/-- A step over a state. A failing step keeps the changes it made before it failed. -/
abbrev Action (σ : Type) := ExceptT Failure (StateM σ)

namespace Action

variable {σ τ α β : Type}

def runFrom (x : Action σ α) (s : σ) : Except Failure α × σ := (ExceptT.run x).run s

def fail (cause : MemoryError) : Action σ α := throw (.error cause)

def stop (cause : Fault) : Action σ α := throw (.fault cause)

def require (condition : Bool) (cause : MemoryError) : Action σ Unit :=
  if condition then pure () else fail cause

def ensure (condition : Bool) (cause : Fault) : Action σ Unit :=
  if condition then pure () else stop cause

def ofFault : Except Fault α → Action σ α
  | .ok a => pure a
  | .error cause => stop cause

def ofError : Except MemoryError α → Action σ α
  | .ok a => pure a
  | .error cause => fail cause

instance : MonadLift (Except Fault) (Action σ) := ⟨ofFault⟩

instance : MonadLift (Except MemoryError) (Action σ) := ⟨ofError⟩

def within (part : τ → σ) (restore : σ → τ → τ) (x : Action σ α) : Action τ α :=
  ExceptT.mk fun t =>
    let (outcome, s) := x.runFrom (part t)
    (outcome, restore s t)

/-- Runs `cleanup` if the step fails, and fails as the step did. -/
def onFailure (x : Action σ α) (cleanup : Action σ Unit) : Action σ α :=
  ExceptT.mk fun s =>
    match x.runFrom s with
    | (.ok a, t) => (.ok a, t)
    | (.error failure, t) => (.error failure, (cleanup.runFrom t).2)

@[simp] theorem runFrom_pure (a : α) (s : σ) : (pure a : Action σ α).runFrom s = (.ok a, s) := rfl

@[simp] theorem runFrom_throw (failure : Failure) (s : σ) :
    (throw failure : Action σ α).runFrom s = (.error failure, s) := rfl

@[simp] theorem runFrom_fail (cause : MemoryError) (s : σ) :
    (fail cause : Action σ α).runFrom s = (.error (.error cause), s) := rfl

@[simp] theorem runFrom_stop (cause : Fault) (s : σ) :
    (stop cause : Action σ α).runFrom s = (.error (.fault cause), s) := rfl

@[simp] theorem runFrom_get (s : σ) : (get : Action σ σ).runFrom s = (.ok s, s) := rfl

@[simp] theorem runFrom_set (s t : σ) : (set t : Action σ PUnit).runFrom s = (.ok ⟨⟩, t) := rfl

@[simp] theorem runFrom_modify (f : σ → σ) (s : σ) :
    (modify f : Action σ PUnit).runFrom s = (.ok ⟨⟩, f s) := rfl

theorem runFrom_bind (x : Action σ α) (f : α → Action σ β) (s : σ) :
    (x >>= f).runFrom s =
      match x.runFrom s with
      | (.ok a, t) => (f a).runFrom t
      | (.error failure, t) => (.error failure, t) := by
  show (ExceptT.run (x >>= f)).run s = _
  simp only [ExceptT.run_bind, StateT.run_bind, runFrom]
  rcases (ExceptT.run x).run s with ⟨_ | _, _⟩ <;> rfl

@[simp] theorem runFrom_map (f : α → β) (x : Action σ α) (s : σ) :
    (f <$> x).runFrom s = ((x.runFrom s).1.map f, (x.runFrom s).2) := by
  rw [← bind_pure_comp, runFrom_bind]
  rcases x.runFrom s with ⟨_ | _, _⟩ <;> rfl

theorem runFrom_onFailure (x : Action σ α) (cleanup : Action σ Unit) (s : σ) :
    (onFailure x cleanup).runFrom s =
      match x.runFrom s with
      | (.ok a, t) => (.ok a, t)
      | (.error failure, t) => (.error failure, (cleanup.runFrom t).2) := rfl

@[simp] theorem runFrom_ofFault (x : Except Fault α) (s : σ) :
    (ofFault x : Action σ α).runFrom s = (x.mapError .fault, s) := by
  cases x <;> rfl

@[simp] theorem runFrom_ofError (x : Except MemoryError α) (s : σ) :
    (ofError x : Action σ α).runFrom s = (x.mapError .error, s) := by
  cases x <;> rfl

@[simp] theorem runFrom_liftFault (x : Except Fault α) (s : σ) :
    (liftM x : Action σ α).runFrom s = (x.mapError .fault, s) := by
  cases x <;> rfl

@[simp] theorem runFrom_liftError (x : Except MemoryError α) (s : σ) :
    (liftM x : Action σ α).runFrom s = (x.mapError .error, s) := by
  cases x <;> rfl

@[simp] theorem runFrom_within (part : τ → σ) (restore : σ → τ → τ) (x : Action σ α) (t : τ) :
    (within part restore x).runFrom t =
      ((x.runFrom (part t)).1, restore (x.runFrom (part t)).2 t) := rfl

end Action

end SymbolStore
