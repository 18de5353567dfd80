import SymbolStore.Proofs.Twin.Requests

/-!
A session in two processes where new managers go alike too. Then every request does, and so does a
whole run.
-/

namespace SymbolStore

open SymbolStore.Action (Ends Respects)

/-- Everything that is done to a process respects the relation: what managers are asked for, and the
making of managers. -/
structure Complete (rel : Nat → Process → Process → Prop) : Prop
    extends Congruent (fun _ => True) (fun _ => False) rel where
  config {room : Nat} {p q : Process} : rel room p q → q.config = p.config
  create (config : Config) : Respects (fun _ => False) rel 0 (Manager.create config)

namespace Session

variable {K V : Type} {rel : Nat → Process → Process → Prop} (complete : Complete rel)
include complete

theorem builds_own_respects {α : Type} {name : String} {build : Manager → Action Process α}
    {naming : α → Action (Session K V) Unit} {make : α → Structure K V}
    (builds : ∀ manager, Respects (fun _ => False) rel 127 (build manager))
    (names : ∀ a, naming a = occupy name (make a)) :
    Respects (fun _ => False) (Abreast (fun _ => True) rel) 127
      (do
        naming (← building none build)
        return (.done : Answer K V)) := by
  rw [building_own]
  rintro room s t ⟨same, knows, related⟩
  refine .step (by rfl) (by rfl) ?_
  rw [complete.config related]
  have makes : Respects (fun _ => False) (Abreast (fun _ => True) rel) 127
      ((liftM (Manager.create s.process.config) : Action (Session K V) Manager) >>= fun manager =>
        (making manager build naming : Action (Session K V) (Answer K V))) := by
    refine (respects_lift (complete.create _)).seq fun manager => ?_
    refine respects_making complete.toCongruent trivial (builds manager) (fun process => ?_) names
    exact (Action.ends_trivial _ process).mono (fun a _ _ => (make a).known_any) fun _ _ _ => trivial
  exact makes room s t ⟨same, knows, related⟩

theorem perform_respects_complete (command : Command K V) :
    Respects (fun _ => False) (Abreast (fun _ => True) rel) 127 (perform command) := by
  have congruent : Congruent (fun _ => True) (fun _ => False) rel := complete.toCongruent
  have older (makes : command.makesManager = false) := perform_respects congruent command makes
  cases command with
  | createManager name config =>
      rw [perform]
      refine (respects_lift (complete.create config)).seq fun manager => ?_
      rw [nameManager_eq]
      exact (respects_occupy congruent (Structure.known_any _)).answers (by decide)
  | createRegion name source chunkSize =>
      cases source with
      | some => exact older rfl
      | none =>
          refine builds_own_respects complete (fun manager => ?_) (nameRegion_eq name)
          exact (Region.create_respects congruent.toParallel chunkSize trivial).mono (by decide)
  | createInterner name source capacity value hasher =>
      cases source with
      | some => exact older rfl
      | none =>
          refine builds_own_respects complete (fun manager => ?_) (nameInterner_eq name)
          exact (Interner.create_respects congruent.toParallel capacity value hasher trivial).mono
            (by decide)
  | createDictionary name source capacity rule node =>
      cases source with
      | some => exact older rfl
      | none =>
          refine builds_own_respects complete (fun manager => ?_) (nameDictionary_eq name)
          exact (Dictionary.create_respects congruent.toParallel capacity rule node trivial).mono
            (by decide)
  | _ => exact older rfl

/-- A whole run goes alike, if the relation does not wear off. -/
theorem performAll_respects (lasts : ∀ {room more : Nat} {p q : Process}, rel room p q → rel more p q)
    {room : Nat} {s t : Session K V} (commands : List (Command K V))
    (related : Abreast (fun _ => True) rel room s t) :
    (t.performAll commands).1 = (s.performAll commands).1 ∧
      Abreast (fun _ => True) rel room (s.performAll commands).2 (t.performAll commands).2 := by
  induction commands generalizing s t with
  | nil => exact ⟨rfl, related⟩
  | cons command commands ih =>
      have ready : Abreast (fun _ => True) rel (room + 127) s t :=
        ⟨related.1, related.2.1, lasts related.2.2⟩
      have outcomes := (perform_respects_complete complete command room s t ready).outcomes
        fun _ _ => id
      obtain ⟨same, left, -, objects, knows, after⟩ := outcomes
      obtain ⟨answers, last⟩ := ih ⟨objects, knows, lasts after⟩
      exact ⟨congrArg₂ List.cons same answers, last⟩

end Session

end SymbolStore
