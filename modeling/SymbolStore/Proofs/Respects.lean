import SymbolStore.Proofs.Lockstep

/-!
Steps that respect a relation of states: taken from related states they answer alike and leave
related states. A relation comes with a number, of which a step may use up some.
-/

namespace SymbolStore

open SymbolStore.Action (Ends Lockstep)

namespace Action

variable {σ α β : Type} {excused : Failure → Prop} {R : Nat → σ → σ → Prop} {c d room : Nat}
  {s t : σ} {x : Action σ α} {f : α → Action σ β}

/-- From related states the step answers or fails alike and leaves related states, unless it fails in
a way that is excused. It uses up no more than its cost. -/
def Respects (excused : Failure → Prop) (R : Nat → σ → σ → Prop) (cost : Nat) (x : Action σ α) :
    Prop :=
  ∀ room s t, R (room + cost) s t →
    Lockstep (fun failure _ => excused failure) (fun _ _ => False) x x s t
      (fun a b s' t' => b = a ∧ ∃ left, room ≤ left ∧ R left s' t')
      fun _ s' t' => ∃ left, room ≤ left ∧ R left s' t'

theorem Respects.excusing (respects : Respects (fun _ => False) R c x)
    (excused : Failure → Prop) : Respects excused R c x := fun room s t related =>
  Lockstep.excusing (respects room s t related) fun failure _ => excused failure

theorem Respects.mono (respects : Respects excused R c x) (more : c ≤ d) :
    Respects excused R d x := by
  intro room s t related
  have enough : room + d = room + (d - c) + c := by omega
  rw [enough] at related
  refine (respects _ s t related).mono ?_ ?_
  · rintro a b s' t' ⟨same, left, bound, related⟩
    exact ⟨same, left, by omega, related⟩
  · rintro _ s' t' ⟨left, bound, related⟩
    exact ⟨left, by omega, related⟩

theorem Respects.knowing {known : α → Prop} (first : Respects excused R c x)
    (facts : ∀ s, Ends x s (fun a _ => known a) fun _ _ => True)
    (next : ∀ a, known a → Respects excused R d (f a)) : Respects excused R (c + d) (x >>= f) := by
  intro room s t related
  have enough : room + (c + d) = room + d + c := by omega
  rw [enough] at related
  apply ((first _ s t related).and (facts s) (facts t)).bind
  · rintro _ s' t' ⟨⟨left, bound, related⟩, -⟩
    exact ⟨left, by omega, related⟩
  · rintro a _ s' t' ⟨⟨rfl, left, bound, related⟩, fact, -⟩
    have rest : left = left - d + d := by omega
    rw [rest] at related
    refine (next _ fact _ s' t' related).mono ?_ ?_
    · rintro _ _ _ _ ⟨same, last, less, related⟩
      exact ⟨same, last, by omega, related⟩
    · rintro _ _ _ ⟨last, less, related⟩
      exact ⟨last, by omega, related⟩

theorem Respects.bind (first : Respects excused R c x) (next : ∀ a, Respects excused R d (f a)) :
    Respects excused R (c + d) (x >>= f) :=
  first.knowing (fun s => ends_trivial x s) fun a _ => next a

theorem Respects.seq (first : Respects excused R 0 x) (next : ∀ a, Respects excused R c (f a)) :
    Respects excused R c (x >>= f) :=
  (first.bind next).mono (by omega)

theorem Respects.andThen (first : Respects excused R c x)
    (next : ∀ a, Respects excused R 0 (f a)) : Respects excused R c (x >>= f) :=
  first.bind next

theorem respects_pure (a : α) : Respects excused R c (pure a : Action σ α) :=
  fun room _ _ related => ⟨rfl, room + c, Nat.le_add_right _ _, related⟩

theorem Respects.answers {g : α → β} (respects : Respects excused R c x) (more : c ≤ d) :
    Respects excused R d (x >>= fun a => pure (g a)) :=
  (respects.andThen fun a => respects_pure (g a)).mono more

/-- An invariant of single steps, as a relation of a state with itself. -/
theorem respects_self {holds : Nat → σ → Prop}
    (keeps : ∀ room s, holds (room + c) s →
      Ends x s (fun _ => holds room) fun _ => holds room) :
    Respects excused (fun room s t => t = s ∧ holds room s) c x := by
  rintro room s t ⟨rfl, held⟩
  refine (lockstep_self (keeps room t held)).mono ?_ ?_
  · rintro a b s' t' ⟨same, rfl, after⟩
    exact ⟨same, room, Nat.le_refl _, rfl, after⟩
  · rintro _ s' t' ⟨rfl, after⟩
    exact ⟨room, Nat.le_refl _, rfl, after⟩

theorem respects_throw (failure : Failure) : Respects excused R c (throw failure : Action σ α) :=
  fun room _ _ related => lockstep_throw ⟨room + c, Nat.le_add_right _ _, related⟩

theorem respects_fail (cause : MemoryError) : Respects excused R c (fail cause : Action σ α) :=
  respects_throw _

theorem respects_stop (cause : Fault) : Respects excused R c (stop cause : Action σ α) :=
  respects_throw _

theorem respects_ofFault {x : Except Fault α}
    (next : ∀ a, x = .ok a → Respects excused R c (f a)) :
    Respects excused R c (liftM x >>= f) := by
  intro room s t related
  refine .ofFault (fun _ => ⟨room + c, Nat.le_add_right _ _, related⟩) fun a found => ?_
  exact next a found room s t related

theorem respects_ofError {x : Except MemoryError α}
    (next : ∀ a, x = .ok a → Respects excused R c (f a)) :
    Respects excused R c (liftM x >>= f) := by
  intro room s t related
  refine .ofError (fun _ => ⟨room + c, Nat.le_add_right _ _, related⟩) fun a found => ?_
  exact next a found room s t related

theorem respects_require (condition : Bool) (cause : MemoryError) :
    Respects excused R c (require condition cause : Action σ Unit) := by
  cases condition with
  | true => exact respects_pure ()
  | false => exact respects_fail cause

theorem respects_ensure (condition : Bool) (cause : Fault) :
    Respects excused R c (ensure condition cause : Action σ Unit) := by
  cases condition with
  | true => exact respects_pure ()
  | false => exact respects_stop cause

theorem respects_map {f : α → β} (respects : Respects excused R c x) :
    Respects excused R c (f <$> x) := by
  intro room s t related
  apply lockstep_map
  refine (respects room s t related).mono ?_ fun _ _ _ => id
  rintro a _ s' t' ⟨rfl, rest⟩
  exact ⟨rfl, rest⟩

theorem Respects.onFailure {cleanup : Action σ Unit} (respects : Respects excused R c x)
    (cleans : Respects (fun _ => False) R 0 cleanup) :
    Respects excused R c (onFailure x cleanup) := by
  intro room s t related
  refine (respects room s t related).onFailure ?_ ?_ fun _ _ => False.elim
  · rintro _ s' t' ⟨left, bound, related⟩
    refine (cleans left s' t' related).mono ?_ ?_
    · rintro _ _ _ _ ⟨-, last, less, related⟩
      exact ⟨last, by omega, related⟩
    · rintro _ _ _ ⟨last, less, related⟩
      exact ⟨last, by omega, related⟩
  · exact fun _ s' excuse => (ends_trivial cleanup s').mono (fun _ _ _ => excuse) fun _ _ _ => excuse

theorem respects_forM {list : List α} {x : α → Action σ PUnit}
    (each : ∀ a ∈ list, Respects excused R 0 (x a)) : Respects excused R 0 (list.forM x) := by
  induction list with
  | nil => exact respects_pure _
  | cons a rest ih =>
      show Respects excused R 0 (x a >>= fun _ => rest.forM x)
      apply (each a List.mem_cons_self).seq
      exact fun _ => ih fun other member => each other (List.mem_cons_of_mem a member)

end Action

open SymbolStore.Action (Respects)

namespace Method

variable {O I α β : Type} {excused : Failure → Prop} {P : O → Prop} {Q : I → Prop}
  {rel : Nat → Process → Process → Prop} {c : Nat}

def Abreast (P : O → Prop) (rel : Nat → Process → Process → Prop) (room : Nat)
    (s t : O × Process) : Prop :=
  t.1 = s.1 ∧ P s.1 ∧ rel room s.2 t.2

theorem respects_lift {x : Action Process α} (respects : Respects excused rel c x) :
    Respects excused (Abreast P rel) c (liftM x : Method O α) := by
  rintro room ⟨o, p⟩ ⟨o', q⟩ ⟨same, known, related⟩
  obtain rfl : o = o' := same.symm
  apply lockstep_lift
  refine (respects room p q related).mono ?_ ?_
  · rintro a b p' q' ⟨same, left, bound, related⟩
    exact ⟨same, left, bound, rfl, known, related⟩
  · rintro _ p' q' ⟨left, bound, related⟩
    exact ⟨left, bound, rfl, known, related⟩

theorem respects_self {f : O → Method O β}
    (next : ∀ o, P o → Respects excused (Abreast P rel) c (f o)) :
    Respects excused (Abreast P rel) c (self >>= f) := by
  rintro room ⟨o, p⟩ ⟨o', q⟩ ⟨same, known, related⟩
  obtain rfl : o = o' := same.symm
  exact .step (by rfl) (by rfl) (next o known room (o, p) (o, q) ⟨rfl, known, related⟩)

theorem respects_update {f : O → O} (keeps : ∀ o, P o → P (f o)) :
    Respects excused (Abreast P rel) c (update f) := by
  rintro room ⟨o, p⟩ ⟨o', q⟩ ⟨same, known, related⟩
  obtain rfl : o = o' := same.symm
  refine .last (by rfl) (by rfl) ?_
  exact ⟨rfl, room + c, Nat.le_add_right _ _, rfl, keeps o known, related⟩

theorem respects_part {part : O → I} {restore : I → O → O} {x : Method I α}
    (respects : Respects excused (Abreast Q rel) c x) (inner : ∀ o, P o → Q (part o))
    (outer : ∀ i o, P o → Q i → P (restore i o)) :
    Respects excused (Abreast P rel) c (ofPart part restore x) := by
  rintro room ⟨o, p⟩ ⟨o', q⟩ ⟨same, known, related⟩
  obtain rfl : o = o' := same.symm
  apply Action.lockstep_within
  refine (respects room (part o, p) (part o, q) ⟨rfl, inner o known, related⟩).mono ?_ ?_
  · rintro a b s t ⟨same, left, bound, equal, kept, related⟩
    exact ⟨same, left, bound, congrArg (restore · o) equal, outer s.1 o known kept, related⟩
  · rintro _ s t ⟨left, bound, equal, kept, related⟩
    exact ⟨left, bound, congrArg (restore · o) equal, outer s.1 o known kept, related⟩

end Method

end SymbolStore
