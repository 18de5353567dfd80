import SymbolStore.Proofs.Session.Follows

/-! Requests to the structures that a session has, by their names. -/

namespace SymbolStore

open SymbolStore.Action (Ends)

namespace Session

variable {K V α : Type} {session : Session K V} {place : Place} {direct : Multiset Extent}
  {name : String}

section Ends

variable {β : Type} {done : α → Session K V → Prop} {failed : Failure → Session K V → Prop}

@[simp] theorem ends_ofProcess (x : Action Process α) :
    Ends (ofProcess x) session done failed ↔
      Ends x session.process (fun a process => done a { session with process })
        fun failure process => failed failure { session with process } :=
  Action.ends_within _ _ x session

@[simp] theorem ends_liftProcess (x : Action Process α) :
    Ends (liftM x) session done failed ↔
      Ends x session.process (fun a process => done a { session with process })
        fun failure process => failed failure { session with process } :=
  ends_ofProcess x

@[simp] theorem ends_current {done : Session K V → Session K V → Prop} :
    Ends current session done failed ↔ done session session := Iff.rfl

@[simp] theorem ends_update {done : Unit → Session K V → Prop} (f : Session K V → Session K V) :
    Ends (update f) session done failed ↔ done () (f session) := Iff.rfl

@[simp] theorem ends_named (objects : Names α) (name : String) :
    Ends (named objects name) session done failed ↔
      match objects[name]? with
      | some object => done object session
      | none => failed (.unknown name) session := by
  unfold named
  cases objects[name]? <;> rfl

/-- A step of a named object ends well if it does wherever there is one of the name. -/
theorem ends_within_named {O : Type} {objects : Names O} {x : Method O α}
    {restore : O × Process → Session K V → Session K V}
    (absent : objects[name]? = none → failed (.unknown name) session)
    (present : ∀ inner, objects[name]? = some inner → Ends x (inner, session.process)
      (fun a after => done a (restore after session))
      fun failure after => failed failure (restore after session)) :
    Ends
      (do
        let inner ← named objects name
        Action.within (fun session => (inner, session.process)) restore x)
      session done failed := by
  rw [Action.ends_bind, ends_named]
  cases there : objects[name]? with
  | none => exact absent there
  | some inner => exact (Action.ends_within _ _ x session).mpr (present inner there)

end Ends

def Stepping {O : Type} (session : Session K V) (make : O → Structure K V) (x : Method O α)
    (inner : O) (done : α → O × Process → Prop) (failed : Failure → O × Process → Prop) : Prop :=
  ∀ others : Account, others.holders = session.holders →
    (make inner).Stocked session.process others →
    Ends x (inner, session.process)
      (fun a after => done a after ∧ (make inner).Same (make after.1) ∧
        (make after.1).Stocked after.2 others)
      fun failure after => (failure.isMisuse = false ∧ failed failure after) ∧
        (make inner).Same (make after.1) ∧ (make after.1).Stocked after.2 others

theorem Stepping.and {O : Type} {make : O → Structure K V} {x : Method O α} {inner : O}
    {done done' : α → O × Process → Prop} {failed failed' : Failure → O × Process → Prop}
    (stepping : session.Stepping make x inner done failed)
    (ends : Ends x (inner, session.process) done' failed') :
    session.Stepping make x inner (fun a after => done a after ∧ done' a after)
      fun failure after => failed failure after ∧ failed' failure after := by
  intro others holders stocked
  apply ((stepping others holders stocked).and ends).mono
  · intro a after both
    exact ⟨⟨both.1.1, both.2⟩, both.1.2⟩
  · intro failure after both
    exact ⟨⟨both.1.1.1, both.1.1.2, both.2⟩, both.1.2⟩

theorem Settled.step {O : Type} {make : O → Structure K V} {x : Method O α} {inner : O}
    {done : α → O × Process → Prop} {failed : Failure → O × Process → Prop}
    (settled : session.Settled direct) (found : session.find? place = some (make inner))
    (located : (make inner).place name = place)
    (stepping : session.Stepping make x inner done failed) :
    Ends x (inner, session.process)
      (fun a after => session.Follows direct direct (some place)
        (put { session with process := after.2 } name (make after.1)) ∧ done a after)
      fun failure after => failure.isMisuse = false ∧ session.Follows direct direct (some place)
        (put { session with process := after.2 } name (make after.1)) ∧ failed failure after := by
  obtain ⟨others, holders, stocked, back⟩ := settled.frame found located
  apply (stepping others holders stocked).mono
  · intro a after ends
    exact ⟨(back _ _ ends.2.1 ends.2.2).follows settled, ends.1⟩
  · intro failure after ends
    exact ⟨ends.1.1, (back _ _ ends.2.1 ends.2.2).follows settled, ends.1.2⟩

/-- A request to a structure by its name: what it does to the session, and to the structure if there
is one. -/
def Acts {O : Type} (session : Session K V) (direct : Multiset Extent) (make : O → Structure K V)
    (place : Place) (x : Action (Session K V) α) (done : O → α → O × Process → Prop)
    (failed : O → Failure → O × Process → Prop) : Prop :=
  Ends x session
    (fun a later => session.Follows direct direct (some place) later ∧
      later.symbols = session.symbols ∧ ∃ inner after, session.find? place = some (make inner) ∧
        later.find? place = some (make after) ∧ done inner a (after, later.process))
    fun failure later => failure.isMisuse = false ∧
      session.Follows direct direct (some place) later ∧ later.symbols = session.symbols ∧
      (later = session ∨ ∃ inner after, session.find? place = some (make inner) ∧
        later.find? place = some (make after) ∧ failed inner failure (after, later.process))

theorem Settled.acts {O : Type} {make : O → Structure K V} {x : Method O α} {objects : Names O}
    {done : O → α → O × Process → Prop} {failed : O → Failure → O × Process → Prop}
    (settled : session.Settled direct)
    (lookup : session.find? place = (objects[name]?).map make)
    (located : ∀ inner, (make inner).place name = place)
    (stepping : ∀ inner, objects[name]? = some inner →
      session.Stepping make x inner (done inner) (failed inner)) :
    session.Acts direct make place
      (do
        let inner ← named objects name
        Action.within (fun session => (inner, session.process))
          (fun after session => put { session with process := after.2 } name (make after.1)) x)
      done failed := by
  apply ends_within_named
  · intro _
    exact ⟨rfl, settled.follows _, rfl, .inl rfl⟩
  · intro inner there
    rw [there] at lookup
    have found (after : O × Process) :
        (put { session with process := after.2 } name (make after.1)).find? place =
          some (make after.1) := by
      rw [find?_put, if_pos (located after.1)]
    apply (settled.step lookup (located inner) (stepping inner there)).mono
    · intro a after ends
      refine ⟨ends.1, symbols_put _ _ _, inner, after.1, lookup, found after, ?_⟩
      rw [process_put]
      exact ends.2
    · intro failure after ends
      refine ⟨ends.1, ends.2.1, symbols_put _ _ _, .inr ⟨inner, after.1, lookup, found after, ?_⟩⟩
      rw [process_put]
      exact ends.2.2

section Kinds

variable (settled : session.Settled direct)
include settled

theorem onArray_acts {x : Method FlatArray α} {done : FlatArray → α → FlatArray × Process → Prop}
    {failed : FlatArray → Failure → FlatArray × Process → Prop}
    (stepping : ∀ inner, session.arrays[name]? = some inner →
      session.Stepping .array x inner (done inner) (failed inner)) :
    session.Acts direct .array (.array name) (onArray name x) done failed := by
  have located (inner : FlatArray) : Structure.place name (.array inner : Structure K V) =
      .array name := rfl
  exact settled.acts rfl located stepping

theorem onRegion_acts {x : Method Region α} {done : Region → α → Region × Process → Prop}
    {failed : Region → Failure → Region × Process → Prop}
    (stepping : ∀ inner, session.regions[name]? = some inner →
      session.Stepping .region x inner (done inner) (failed inner)) :
    session.Acts direct .region (.region name) (onRegion name x) done failed := by
  have located (inner : Region) : Structure.place name (.region inner : Structure K V) =
      .region name := rfl
  exact settled.acts rfl located stepping

theorem onInterner_acts {x : Method Interner α} {done : Interner → α → Interner × Process → Prop}
    {failed : Interner → Failure → Interner × Process → Prop}
    (stepping : ∀ inner, session.interners[name]? = some inner →
      session.Stepping .interner x inner (done inner) (failed inner)) :
    session.Acts direct .interner (.interner name) (onInterner name x) done failed := by
  have located (inner : Interner) : Structure.place name (.interner inner : Structure K V) =
      .interner name := rfl
  exact settled.acts rfl located stepping

theorem onDictionary_acts {x : Method (Dictionary K V) α}
    {done : Dictionary K V → α → Dictionary K V × Process → Prop}
    {failed : Dictionary K V → Failure → Dictionary K V × Process → Prop}
    (stepping : ∀ inner, session.dictionaries[name]? = some inner →
      session.Stepping .dictionary x inner (done inner) (failed inner)) :
    session.Acts direct .dictionary (.dictionary name) (onDictionary name x) done failed := by
  have located (inner : Dictionary K V) : Structure.place name (.dictionary inner : Structure K V) =
      .dictionary name := rfl
  exact settled.acts rfl located stepping

end Kinds

end Session

end SymbolStore
