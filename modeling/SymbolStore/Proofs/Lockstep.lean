import SymbolStore.Proofs.Outcome

/-!
Two steps taken from two states, compared: what is known of both at their end, if they end in the
same way. Failures of the one may be excused and failures of the other pardoned, for the state that
they leave, and then nothing is known.
-/

namespace SymbolStore

open SymbolStore.Action (Ends)

namespace Action

variable {σ τ α β γ δ : Type} {s : σ} {t : τ} {excused : Failure → σ → Prop}
  {pardoned : Failure → τ → Prop} {done : α → β → σ → τ → Prop} {failed : Failure → σ → τ → Prop}

/-- Both steps succeed and leave what `done` says of their answers, or both fail alike and leave what
`failed` says of the failure, or the first one fails in a way that is excused, or the second one in a
way that is pardoned. -/
def Lockstep (excused : Failure → σ → Prop) (pardoned : Failure → τ → Prop) (x : Action σ α)
    (y : Action τ β) (s : σ) (t : τ) (done : α → β → σ → τ → Prop)
    (failed : Failure → σ → τ → Prop) : Prop :=
  Ends x s (fun a s' => Ends y t (fun b t' => done a b s' t') pardoned)
    fun failure s' => excused failure s' ∨
      Ends y t (fun _ _ => False) fun other t' =>
        pardoned other t' ∨ other = failure ∧ failed failure s' t'

theorem Lockstep.mono {x : Action σ α} {y : Action τ β} {done' : α → β → σ → τ → Prop}
    {failed' : Failure → σ → τ → Prop} (both : Lockstep excused pardoned x y s t done failed)
    (success : ∀ a b s' t', done a b s' t' → done' a b s' t')
    (failure : ∀ f s' t', failed f s' t' → failed' f s' t') :
    Lockstep excused pardoned x y s t done' failed' :=
  Ends.mono both (fun a s' ends => ends.mono (success a · s') fun _ _ => id) fun f s' ends =>
    ends.imp_right fun ends => ends.mono (fun _ _ => id) fun _ t' same =>
      same.imp_right fun same => ⟨same.1, failure f s' t' same.2⟩

theorem Lockstep.excusing {x : Action σ α} {y : Action τ β}
    (both : Lockstep (fun _ _ => False) (fun _ _ => False) x y s t done failed)
    (excused : Failure → σ → Prop) : Lockstep excused pardoned x y s t done failed :=
  Ends.mono both (fun _ _ ends => ends.mono (fun _ _ => id) fun _ _ => False.elim) fun _ _ ends =>
    .inr ((ends.resolve_left id).mono (fun _ _ => id) fun _ _ same => .inr (same.resolve_left id))

theorem lockstep_congr {x x' : Action σ α} {y y' : Action τ β} (here : x.runFrom s = x'.runFrom s)
    (there : y.runFrom t = y'.runFrom t) :
    Lockstep excused pardoned x y s t done failed ↔ Lockstep excused pardoned x' y' s t done failed := by
  simp only [Lockstep, Ends, here, there]

theorem lockstep_of_ends {x : Action σ α} {y : Action τ β} {here : α → σ → Prop}
    {there : β → τ → Prop} (first : Ends x s here fun _ _ => False)
    (second : Ends y t there fun _ _ => False)
    (both : ∀ a b s' t', here a s' → there b t' → done a b s' t') :
    Lockstep excused pardoned x y s t done failed :=
  first.mono (fun _ _ ends => second.mono (fun _ _ => both _ _ _ _ ends) fun _ _ => False.elim)
    fun _ _ => False.elim

/-- One step beside itself. -/
theorem lockstep_self {pardoned : Failure → σ → Prop} {x : Action σ α} {done : α → σ → Prop}
    {failed : Failure → σ → Prop} (ends : Ends x s done failed) :
    Lockstep excused pardoned x x s s (fun a b s' t' => b = a ∧ t' = s' ∧ done a s')
      fun failure s' t' => t' = s' ∧ failed failure s' := by
  unfold Lockstep Ends at *
  generalize x.runFrom s = result at ends ⊢
  rcases result with ⟨failure | a, s'⟩
  · exact .inr (.inr ⟨rfl, rfl, ends⟩)
  · exact ⟨rfl, rfl, ends⟩

/-- Steps that fail with the same error if there is one to object, and else only in ways that need an
excuse or a pardon. -/
theorem lockstep_of_objection {objection : Option MemoryError} {x : Action σ α} {y : Action τ β}
    {here : α → σ → Prop} {stops : σ → Prop} {there : β → τ → Prop} {halts : τ → Prop}
    (first : Ends x s (fun a s' => objection = none ∧ here a s')
      fun failure s' => (objection.map .error = some failure ∨ excused failure s') ∧ stops s')
    (second : Ends y t (fun b t' => objection = none ∧ there b t')
      fun failure t' => (objection.map .error = some failure ∨ pardoned failure t') ∧ halts t') :
    Lockstep excused pardoned x y s t (fun a b s' t' => here a s' ∧ there b t')
      fun _ s' t' => stops s' ∧ halts t' := by
  refine Ends.mono first ?_ ?_
  · rintro a s' ⟨rfl, succeeds⟩
    refine second.mono (fun b t' ends => ⟨succeeds, ends.2⟩) fun failure t' ends => ?_
    exact ends.1.resolve_left nofun
  · rintro failure s' ⟨objects | excuse, stops⟩
    · refine .inr (second.mono ?_ ?_)
      · rintro b t' ⟨rfl, -⟩
        cases objects
      · rintro other t' ⟨same | pardon, halts⟩
        · exact .inr ⟨Option.some.inj (same.symm.trans objects), stops, halts⟩
        · exact .inl pardon
    · exact .inl excuse

theorem Lockstep.and {x : Action σ α} {y : Action τ β} {here : α → σ → Prop}
    {stops : Failure → σ → Prop} {there : β → τ → Prop} {halts : Failure → τ → Prop}
    (both : Lockstep excused pardoned x y s t done failed) (first : Ends x s here stops)
    (second : Ends y t there halts) :
    Lockstep excused pardoned x y s t (fun a b s' t' => done a b s' t' ∧ here a s' ∧ there b t')
      fun f s' t' => failed f s' t' ∧ stops f s' ∧ halts f t' := by
  refine (Ends.and both first).mono ?_ ?_
  · intro a s' ends
    exact (ends.1.and second).mono (fun _ _ facts => ⟨facts.1, ends.2, facts.2⟩) fun _ _ => And.left
  · intro failure s' ends
    refine ends.1.imp_right fun same => (same.and second).mono (fun _ _ => And.left) ?_
    intro other t' facts
    refine facts.1.imp_right fun same => ?_
    obtain ⟨rfl, failed⟩ := same
    exact ⟨rfl, failed, ends.2, facts.2⟩

theorem Lockstep.of_ok {x : Action σ α} {y : Action τ β} {a : α} {b : β} {s' : σ} {t' : τ}
    (both : Lockstep excused pardoned x y s t done failed) (here : x.runFrom s = (.ok a, s'))
    (there : y.runFrom t = (.ok b, t')) : done a b s' t' :=
  (Ends.of_ok both here).of_ok there

/-- Steps that nobody needs to excuse or pardon both succeed or both fail. -/
theorem Lockstep.cases {x : Action σ α} {y : Action τ β}
    (both : Lockstep excused pardoned x y s t done failed)
    (kept : ∀ failure, (x.runFrom s).1 = .error failure → ¬ excused failure (x.runFrom s).2)
    (spared : ∀ failure, (y.runFrom t).1 = .error failure → ¬ pardoned failure (y.runFrom t).2) :
    (∃ a b, (x.runFrom s).1 = .ok a ∧ (y.runFrom t).1 = .ok b ∧
        done a b (x.runFrom s).2 (y.runFrom t).2) ∨
      ∃ failure, (x.runFrom s).1 = .error failure ∧ (y.runFrom t).1 = .error failure ∧
        failed failure (x.runFrom s).2 (y.runFrom t).2 := by
  rcases ran : x.runFrom s with ⟨failure | a, s'⟩ <;>
    rcases halts : y.runFrom t with ⟨other | b, t'⟩ <;> rw [ran] at kept <;> rw [halts] at spared
  · have ends := (Ends.of_error both ran).resolve_left (kept failure rfl)
    obtain ⟨rfl, failed⟩ := (ends.of_error halts).resolve_left (spared other rfl)
    exact .inr ⟨other, rfl, rfl, failed⟩
  · exact (((Ends.of_error both ran).resolve_left (kept failure rfl)).of_ok halts).elim
  · exact absurd ((Ends.of_ok both ran).of_error halts) (spared other rfl)
  · exact .inl ⟨a, b, rfl, rfl, (Ends.of_ok both ran).of_ok halts⟩

theorem Lockstep.outcomes {x : Action σ α} {y : Action τ α} {rel : σ → τ → Prop}
    (both : Lockstep excused (fun _ _ => False) x y s t (fun a b s' t' => b = a ∧ rel s' t')
      fun _ => rel)
    (kept : ∀ failure, (x.runFrom s).1 = .error failure → ¬ excused failure (x.runFrom s).2) :
    (y.runFrom t).1 = (x.runFrom s).1 ∧ rel (x.runFrom s).2 (y.runFrom t).2 := by
  rcases both.cases kept fun _ _ => id with
    ⟨a, b, here, there, same, related⟩ | ⟨failure, here, there, related⟩
  · exact ⟨by rw [here, there, same], related⟩
  · exact ⟨by rw [here, there], related⟩

theorem Lockstep.bind {x : Action σ α} {y : Action τ β} {f : α → Action σ γ} {g : β → Action τ δ}
    {final : γ → δ → σ → τ → Prop} {middle : α → β → σ → τ → Prop}
    {stopped : Failure → σ → τ → Prop} (both : Lockstep excused pardoned x y s t middle stopped)
    (stops : ∀ failure s' t', stopped failure s' t' → failed failure s' t')
    (next : ∀ a b s' t', middle a b s' t' → Lockstep excused pardoned (f a) (g b) s' t' final failed) :
    Lockstep excused pardoned (x >>= f) (y >>= g) s t final failed := by
  rw [Lockstep, ends_bind]
  apply Ends.mono both
  · intro a s' ends
    rcases ran : y.runFrom t with ⟨failure | b, t'⟩
    · have pardon := ends.of_error ran
      have halts {done : δ → τ → Prop} {failed : Failure → τ → Prop} (fails : failed failure t') :
          Ends (y >>= g) t done failed := by
        rw [ends_bind, Ends, ran]
        exact fails
      exact (ends_trivial (f a) s').mono (fun _ _ _ => halts pardon) fun _ _ _ =>
        .inr (halts (.inl pardon))
    · have after := next a b s' t' (ends.of_ok ran)
      have rest {done : δ → τ → Prop} {failed : Failure → τ → Prop}
          (ends : Ends (g b) t' done failed) : Ends (y >>= g) t done failed := by
        rw [ends_bind, Ends, ran]
        exact ends
      exact Ends.mono after (fun _ _ => rest) fun _ _ => Or.imp_right rest
  · intro failure s' ends
    refine ends.imp_right fun ends => ?_
    rw [ends_bind]
    exact ends.mono (fun _ _ => False.elim) fun other t' same =>
      same.imp_right fun same => ⟨same.1, stops _ _ _ same.2⟩

theorem Lockstep.step {x : Action σ α} {y : Action τ β} {f : α → Action σ γ} {g : β → Action τ δ}
    {final : γ → δ → σ → τ → Prop} {a : α} {b : β} {s' : σ} {t' : τ}
    (first : x.runFrom s = (.ok a, s')) (second : y.runFrom t = (.ok b, t'))
    (next : Lockstep excused pardoned (f a) (g b) s' t' final failed) :
    Lockstep excused pardoned (x >>= f) (y >>= g) s t final failed := by
  simp only [Lockstep, ends_bind] at next ⊢
  simp only [Ends, first, second] at next ⊢
  exact next

theorem Lockstep.last {x : Action σ α} {y : Action τ β} {a : α} {b : β} {s' : σ} {t' : τ}
    (first : x.runFrom s = (.ok a, s')) (second : y.runFrom t = (.ok b, t'))
    (both : done a b s' t') : Lockstep excused pardoned x y s t done failed := by
  simp only [Lockstep, Ends, first, second]
  exact both

theorem Lockstep.ofExcused {x : Action σ α} {f : α → Action σ γ} {y : Action τ δ}
    {final : γ → δ → σ → τ → Prop} {failure : Failure} {s' : σ}
    (first : x.runFrom s = (.error failure, s')) (excuse : excused failure s') :
    Lockstep excused pardoned (x >>= f) y s t final failed := by
  rw [Lockstep, ends_bind, Ends, first]
  exact .inl excuse

theorem lockstep_throw {failure : Failure} (both : failed failure s t) :
    Lockstep excused pardoned (throw failure) (throw failure) s t done failed := .inr (.inr ⟨rfl, both⟩)

theorem lockstep_fail {cause : MemoryError} (both : failed (.error cause) s t) :
    Lockstep excused pardoned (fail cause) (fail cause) s t done failed := .inr (.inr ⟨rfl, both⟩)

theorem lockstep_stop {cause : Fault} (both : failed (.fault cause) s t) :
    Lockstep excused pardoned (stop cause) (stop cause) s t done failed := .inr (.inr ⟨rfl, both⟩)

section Steps

variable {f : α → Action σ γ} {g : α → Action τ δ} {final : γ → δ → σ → τ → Prop}

theorem Lockstep.ofFault {x : Except Fault α} (failure : ∀ cause, failed (.fault cause) s t)
    (next : ∀ a, x = .ok a → Lockstep excused pardoned (f a) (g a) s t final failed) :
    Lockstep excused pardoned (liftM x >>= f) (liftM x >>= g) s t final failed := by
  cases x with
  | ok a => exact next a rfl
  | error cause => exact .inr (.inr ⟨rfl, failure cause⟩)

theorem Lockstep.ofMapped {f : α → Action σ γ} {g : β → Action τ δ} {x : Except Fault α}
    {there : α → β} (failure : ∀ cause, failed (.fault cause) s t)
    (next : ∀ a, x = .ok a → Lockstep excused pardoned (f a) (g (there a)) s t final failed) :
    Lockstep excused pardoned (liftM x >>= f) (liftM (x.map there) >>= g) s t final failed := by
  cases x with
  | ok a => exact next a rfl
  | error cause => exact .inr (.inr ⟨rfl, failure cause⟩)

theorem Lockstep.ofError {x : Except MemoryError α} (failure : ∀ cause, failed (.error cause) s t)
    (next : ∀ a, x = .ok a → Lockstep excused pardoned (f a) (g a) s t final failed) :
    Lockstep excused pardoned (liftM x >>= f) (liftM x >>= g) s t final failed := by
  cases x with
  | ok a => exact next a rfl
  | error cause => exact .inr (.inr ⟨rfl, failure cause⟩)

theorem Lockstep.require {f : Unit → Action σ γ} {g : Unit → Action τ δ} {condition : Bool}
    {cause : MemoryError} (failure : failed (.error cause) s t)
    (next : condition = true → Lockstep excused pardoned (f ()) (g ()) s t final failed) :
    Lockstep excused pardoned (require condition cause >>= f) (require condition cause >>= g) s t final
      failed := by
  cases condition with
  | true => exact next rfl
  | false => exact .inr (.inr ⟨rfl, failure⟩)

theorem Lockstep.ensure {f : Unit → Action σ γ} {g : Unit → Action τ δ} {condition : Bool}
    {cause : Fault} (failure : failed (.fault cause) s t)
    (next : condition = true → Lockstep excused pardoned (f ()) (g ()) s t final failed) :
    Lockstep excused pardoned (ensure condition cause >>= f) (ensure condition cause >>= g) s t final
      failed := by
  cases condition with
  | true => exact next rfl
  | false => exact .inr (.inr ⟨rfl, failure⟩)

end Steps

theorem lockstep_map {x : Action σ α} {y : Action τ β} {f : α → γ} {g : β → δ}
    {final : γ → δ → σ → τ → Prop}
    (both : Lockstep excused pardoned x y s t (fun a b => final (f a) (g b)) failed) :
    Lockstep excused pardoned (f <$> x) (g <$> y) s t final failed := by
  simp only [Lockstep, ends_map]
  exact both

theorem lockstep_within {σ' τ' : Type} {excused : Failure → σ' → Prop}
    {pardoned : Failure → τ' → Prop} {done : α → β → σ' → τ' → Prop}
    {failed : Failure → σ' → τ' → Prop} {part : σ' → σ} {restore : σ → σ' → σ'} {part' : τ' → τ}
    {restore' : τ → τ' → τ'} {x : Action σ α} {y : Action τ β} {s : σ'} {t : τ'}
    (both : Lockstep (fun failure s' => excused failure (restore s' s))
      (fun failure t' => pardoned failure (restore' t' t)) x y (part s) (part' t)
      (fun a b s' t' => done a b (restore s' s) (restore' t' t))
      fun failure s' t' => failed failure (restore s' s) (restore' t' t)) :
    Lockstep excused pardoned (within part restore x) (within part' restore' y) s t done failed := by
  simp only [Lockstep, ends_within]
  exact both

theorem Lockstep.onFailure {x : Action σ α} {y : Action τ β} {cleanup : Action σ Unit}
    {cleanup' : Action τ Unit} {stopped : Failure → σ → τ → Prop}
    (both : Lockstep excused pardoned x y s t done stopped)
    (cleans : ∀ failure s' t', stopped failure s' t' →
      Lockstep (fun _ _ => False) (fun _ _ => False) cleanup cleanup' s' t'
        (fun _ _ s' t' => failed failure s' t') fun _ s' t' => failed failure s' t')
    (excuses : ∀ failure s', excused failure s' →
      Ends cleanup s' (fun _ => excused failure) fun _ => excused failure)
    (pardons : ∀ failure t', pardoned failure t' →
      Ends cleanup' t' (fun _ => pardoned failure) fun _ => pardoned failure) :
    Lockstep excused pardoned (onFailure x cleanup) (onFailure y cleanup') s t done failed := by
  rw [Lockstep, ends_onFailure]
  apply Ends.mono both
  · intro a s' ends
    rw [ends_onFailure]
    exact ends.mono (fun _ _ => id) fun other t' => pardons other t'
  · intro failure s' ends
    rcases ends with excuse | ends
    · exact (excuses failure s' excuse).mono (fun _ _ => .inl) fun _ _ => .inl
    · rcases ran : y.runFrom t with ⟨other | b, t'⟩
      · have rest {failed : Failure → τ → Prop}
            (ends : Ends cleanup' t' (fun _ => failed other) fun _ => failed other) :
            Ends (Action.onFailure y cleanup') t (fun _ _ => False) failed := by
          rw [ends_onFailure, Ends, ran]
          exact ends
        rcases ends.of_error ran with pardon | ⟨rfl, stopped⟩
        · have halts {failed : Failure → τ → Prop}
              (fails : ∀ t'', pardoned other t'' → failed other t'') :
              Ends (Action.onFailure y cleanup') t (fun _ _ => False) failed :=
            rest ((pardons other t' pardon).mono (fun _ => fails) fun _ => fails)
          exact (ends_trivial cleanup s').mono (fun _ _ _ => .inr (halts fun _ => .inl))
            fun _ _ _ => .inr (halts fun _ => .inl)
        · refine Ends.mono (cleans other s' t' stopped) ?_ ?_
          · intro _ s'' ends
            exact .inr (rest (ends.mono (fun _ _ after => .inr ⟨rfl, after⟩) fun _ _ => False.elim))
          · intro _ s'' ends
            refine .inr (rest ?_)
            exact (ends.resolve_left id).mono (fun _ _ => False.elim)
              fun _ _ same => .inr ⟨rfl, (same.resolve_left id).2⟩
      · exact (ends.of_ok ran).elim

end Action

open SymbolStore.Action (Lockstep)

namespace Method

variable {O P O' P' α β γ δ : Type} {o : O} {o' : O'} {p q : Process}
  {excused : Failure → O × Process → Prop} {pardoned : Failure → O' × Process → Prop}
  {f : α → Method O γ} {g : β → Method O' δ} {final : γ → δ → O × Process → O' × Process → Prop}
  {failed : Failure → O × Process → O' × Process → Prop}

theorem lockstep_process {x : Action Process α} {y : Action Process β}
    {middle : α → β → Process → Process → Prop} {stopped : Failure → Process → Process → Prop}
    (both : Lockstep (fun failure p' => excused failure (o, p'))
      (fun failure q' => pardoned failure (o', q')) x y p q middle stopped)
    (stops : ∀ failure p' q', stopped failure p' q' → failed failure (o, p') (o', q'))
    (next : ∀ a b p' q', middle a b p' q' →
      Lockstep excused pardoned (f a) (g b) (o, p') (o', q') final failed) :
    Lockstep excused pardoned ((liftM x : Method O α) >>= f) ((liftM y : Method O' β) >>= g) (o, p) (o', q)
      final failed := by
  have lifted : Lockstep excused pardoned (ofProcess x : Method O α) (ofProcess y : Method O' β) (o, p)
      (o', q) (fun a b s t => ∃ p' q', s = (o, p') ∧ t = (o', q') ∧ middle a b p' q')
      fun failure s t => ∃ p' q', s = (o, p') ∧ t = (o', q') ∧ stopped failure p' q' :=
    Action.lockstep_within (both.mono (fun _ _ p' q' ends => ⟨p', q', rfl, rfl, ends⟩)
      fun _ p' q' ends => ⟨p', q', rfl, rfl, ends⟩)
  apply lifted.bind
  · rintro failure _ _ ⟨p', q', rfl, rfl, ends⟩
    exact stops failure p' q' ends
  · rintro a b _ _ ⟨p', q', rfl, rfl, ends⟩
    exact next a b p' q' ends

theorem lockstep_lift {x : Action Process α} {y : Action Process β}
    {done : α → β → O × Process → O' × Process → Prop}
    (both : Lockstep (fun failure p' => excused failure (o, p'))
      (fun failure q' => pardoned failure (o', q')) x y p q
      (fun a b p' q' => done a b (o, p') (o', q'))
      fun failure p' q' => failed failure (o, p') (o', q')) :
    Lockstep excused pardoned (liftM x : Method O α) (liftM y : Method O' β) (o, p) (o', q) done failed := by
  show Lockstep excused pardoned (ofProcess x) (ofProcess y) _ _ _ _
  exact Action.lockstep_within both

theorem lockstep_part {part : O → P} {restore : P → O → O} {part' : O' → P'}
    {restore' : P' → O' → O'} {x : Method P α} {y : Method P' β}
    {middle : α → β → P × Process → P' × Process → Prop}
    {stopped : Failure → P × Process → P' × Process → Prop}
    (both : Lockstep (fun failure s => excused failure (restore s.1 o, s.2))
      (fun failure t => pardoned failure (restore' t.1 o', t.2)) x y (part o, p) (part' o', q)
      middle stopped)
    (stops : ∀ failure i i' p' q', stopped failure (i, p') (i', q') →
      failed failure (restore i o, p') (restore' i' o', q'))
    (next : ∀ a b i i' p' q', middle a b (i, p') (i', q') →
      Lockstep excused pardoned (f a) (g b) (restore i o, p') (restore' i' o', q') final failed) :
    Lockstep excused pardoned (ofPart part restore x >>= f) (ofPart part' restore' y >>= g) (o, p) (o', q)
      final failed := by
  have within : Lockstep excused pardoned (ofPart part restore x) (ofPart part' restore' y) (o, p) (o', q)
      (fun a b s t => ∃ i i' p' q', s = (restore i o, p') ∧ t = (restore' i' o', q') ∧
        middle a b (i, p') (i', q'))
      fun failure s t => ∃ i i' p' q', s = (restore i o, p') ∧ t = (restore' i' o', q') ∧
        stopped failure (i, p') (i', q') :=
    Action.lockstep_within (both.mono
      (fun _ _ s t ends => ⟨s.1, t.1, s.2, t.2, rfl, rfl, ends⟩)
      fun _ s t ends => ⟨s.1, t.1, s.2, t.2, rfl, rfl, ends⟩)
  apply within.bind
  · rintro failure _ _ ⟨i, i', p', q', rfl, rfl, ends⟩
    exact stops failure i i' p' q' ends
  · rintro a b _ _ ⟨i, i', p', q', rfl, rfl, ends⟩
    exact next a b i i' p' q' ends

end Method

end SymbolStore
