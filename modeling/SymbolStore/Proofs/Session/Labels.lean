import SymbolStore.Proofs.Session.Creation

/-!
What a client names besides structures: handles and symbols. A request changes what no other label
means than the one that it gives.
-/

namespace SymbolStore

variable {K V : Type}

inductive Label
  | handle (name : String)
  | symbol (name : String)
  deriving DecidableEq, Repr

namespace Command

def gives? : Command K V → Option Label
  | storeBytes _ _ name => name.map .handle
  | insert _ _ _ name | intern _ _ _ name | lookup _ _ name | nameEntry _ _ name =>
    name.map .symbol
  | _ => none

def reads? : Command K V → Option Label
  | resolveHandle _ name => some (.handle name)
  | valueOf _ name | setValue _ name _ | bytesOf _ name | textOf _ name => some (.symbol name)
  | _ => none

end Command

namespace Session

def meaning (session : Session K V) : Label → Option (Region.Handle ⊕ Symbol)
  | .handle name => (session.handles[name]?).map .inl
  | .symbol name => (session.symbols[name]?).map .inr

/-- The label means the same after the step, whether it succeeds or fails. -/
def Spares {α : Type} (label : Label) (x : Action (Session K V) α) : Prop :=
  ∀ s : Session K V, (x.runFrom s).2.meaning label = s.meaning label

variable {α β O : Type} {label : Label} {name : String}

section Changes

variable (session : Session K V) (object : Structure K V) (place : Place)

@[simp] theorem handles_put : (session.put name object).handles = session.handles := by
  cases object <;> rfl

@[simp] theorem handles_without : (session.without place).handles = session.handles := by
  cases place <;> rfl

@[simp] theorem meaning_process (process : Process) :
    meaning { session with process } label = session.meaning label := by
  cases label <;> rfl

@[simp] theorem meaning_put : (session.put name object).meaning label = session.meaning label := by
  cases label <;> simp only [meaning, handles_put, symbols_put]

@[simp] theorem meaning_without :
    (session.without place).meaning label = session.meaning label := by
  cases label <;> simp only [meaning, handles_without, symbols_without]

end Changes

section Rules

theorem spares_pure (a : α) : Spares label (pure a : Action (Session K V) α) := fun _ => rfl

theorem spares_throw (failure : Failure) :
    Spares label (throw failure : Action (Session K V) α) := fun _ => rfl

theorem Spares.bind {x : Action (Session K V) α} {f : α → Action (Session K V) β}
    (first : Spares label x) (next : ∀ a, Spares label (f a)) : Spares label (x >>= f) := by
  intro s
  have same := first s
  rw [Action.runFrom_bind]
  rcases ran : x.runFrom s with ⟨failure | a, after⟩ <;> rw [ran] at same
  · exact same
  · exact (next a after).trans same

theorem Spares.answers {x : Action (Session K V) α} (first : Spares label x) (answer : α → β) :
    Spares label (x >>= fun a => pure (answer a)) := first.bind fun a => spares_pure (answer a)

theorem spares_current : Spares label (current : Action (Session K V) (Session K V)) :=
  fun _ => rfl

theorem spares_named (objects : Names α) (name : String) :
    Spares label (named objects name : Action (Session K V) α) := by
  rw [named]
  split
  · exact spares_pure _
  · exact spares_throw _

theorem spares_update {g : Session K V → Session K V}
    (same : ∀ s, (g s).meaning label = s.meaning label) : Spares label (update g) := same

theorem spares_lift (x : Action Process α) :
    Spares label (liftM x : Action (Session K V) α) := fun s => meaning_process s _

theorem spares_manager (name : String) :
    Spares label (manager name : Action (Session K V) Manager) :=
  spares_current.bind fun _ => spares_named _ name

theorem spares_block (name : String) : Spares label (block name : Action (Session K V) Nat) :=
  spares_current.bind fun _ => spares_named _ name

theorem spares_handle (name : String) :
    Spares label (handle name : Action (Session K V) Region.Handle) :=
  spares_current.bind fun _ => spares_named _ name

theorem spares_symbol (name : String) :
    Spares label (symbol name : Action (Session K V) Symbol) :=
  spares_current.bind fun _ => spares_named _ name

theorem spares_on (objects : Session K V → Names O) (make : O → Structure K V) (x : Method O α) :
    Spares label (do
      let inner ← named (objects (← current)) name
      Action.within (fun session => (inner, session.process))
        (fun after session => put { session with process := after.2 } name (make after.1)) x) := by
  refine spares_current.bind fun _ => (spares_named _ name).bind fun inner s => ?_
  rw [Action.runFrom_within, meaning_put, meaning_process]

theorem spares_onArray (name : String) (x : Method FlatArray α) :
    Spares label (onArray name x : Action (Session K V) α) := spares_on arrays .array x

theorem spares_onRegion (name : String) (x : Method Region α) :
    Spares label (onRegion name x : Action (Session K V) α) := spares_on regions .region x

theorem spares_onInterner (name : String) (x : Method Interner α) :
    Spares label (onInterner name x : Action (Session K V) α) := spares_on interners .interner x

theorem spares_onDictionary (name : String) (x : Method (Dictionary K V) α) :
    Spares label (onDictionary name x : Action (Session K V) α) :=
  spares_on dictionaries .dictionary x

theorem spares_retire (discard : α → Action Process Unit) (earlier : Option α) :
    Spares label (retire discard earlier : Action (Session K V) Unit) := by
  cases earlier with
  | none => exact spares_pure ()
  | some object => exact spares_lift (discard object)

theorem spares_occupy (name : String) (object : Structure K V) :
    Spares label (occupy name object) := by
  refine spares_current.bind fun _ => Spares.bind (spares_update fun s => ?_) fun _ => ?_
  · exact meaning_put s object
  · exact spares_retire _ _

theorem spares_vacate (place : Place) :
    Spares label (vacate place : Action (Session K V) (Answer K V)) := by
  refine spares_current.bind fun _ => Spares.bind (spares_update fun s => ?_) fun _ => ?_
  · exact meaning_without s place
  · exact (spares_retire _ _).answers _

theorem spares_building (source : Option String) (build : Manager → Action Process α) :
    Spares label (building source build : Action (Session K V) α) := by
  have made (manager : Manager) : Spares label (do
      let built ← ((build manager).onFailure manager.release : Action Process α)
      manager.release
      return built : Action (Session K V) α) :=
    (spares_lift _).bind fun _ => (spares_lift _).answers _
  cases source with
  | none => exact spares_current.bind fun _ => (spares_lift _).bind made
  | some name => exact (spares_manager name).bind fun _ => (spares_lift _).bind fun _ => made _

theorem spares_nameBlock (name : String) (address : Nat) :
    Spares label (nameBlock name address : Action (Session K V) Unit) :=
  spares_update fun _ => by cases label <;> rfl

theorem spares_nameHandle {name : Option String} (other : name.map .handle ≠ some label)
    (handle : Region.Handle) : Spares label (nameHandle name handle : Action (Session K V) Unit) := by
  cases name with
  | none => exact spares_pure ()
  | some name =>
      refine spares_update fun s => ?_
      cases label with
      | symbol => rfl
      | handle own =>
          have apart : name ≠ own := fun same => other (congrArg (some ∘ Label.handle) same)
          show Option.map _ (s.handles.insert name handle)[own]? = _
          rw [Names.getElem?_insert, if_neg apart]
          rfl

theorem spares_nameSymbol {name : Option String} (other : name.map .symbol ≠ some label)
    (symbol : Symbol) : Spares label (nameSymbol name symbol : Action (Session K V) Unit) := by
  cases name with
  | none => exact spares_pure ()
  | some name =>
      refine spares_update fun s => ?_
      cases label with
      | handle => rfl
      | symbol own =>
          have apart : name ≠ own := fun same => other (congrArg (some ∘ Label.symbol) same)
          show Option.map _ (s.symbols.insert name symbol)[own]? = _
          rw [Names.getElem?_insert, if_neg apart]
          rfl

theorem spares_builds {naming : α → Action (Session K V) Unit} {make : α → Structure K V}
    (source : Option String) (build : Manager → Action Process α)
    (names : ∀ a, naming a = occupy name (make a)) :
    Spares label (do
      naming (← building source build)
      return (.done : Answer K V)) := by
  refine (spares_building source build).bind fun a => ?_
  rw [names]
  exact (spares_occupy name (make a)).answers _

theorem spares_drop (place : Place) : Spares label (perform (place.drop : Command K V)) := by
  rw [perform_drop]
  exact spares_vacate place

theorem spares_tells (interner other : String) (x : Symbol → Method Interner α) :
    Spares label (do
      let _ ← named (← current).interners interner
      let symbol ← symbol other
      onInterner interner (x symbol) : Action (Session K V) α) :=
  spares_current.bind fun _ => (spares_named _ interner).bind fun _ =>
    (spares_symbol other).bind fun _ => spares_onInterner interner _

end Rules

/-- A request changes what no label means but the one that it gives. -/
theorem perform_spares (command : Command K V) (other : command.gives? ≠ some label) :
    Spares label (perform command) := by
  cases command with
  | createManager name config =>
      refine (spares_lift _).bind fun manager => ?_
      rw [nameManager_eq]
      exact (spares_occupy name _).answers _
  | shareManager name source =>
      refine (spares_manager source).bind fun manager => (spares_lift _).bind fun _ => ?_
      rw [nameManager_eq]
      exact (spares_occupy name _).answers _
  | dropManager name => exact spares_drop (.manager name)
  | allocate source name payload =>
      exact (spares_manager source).bind fun _ => (spares_lift _).bind fun _ =>
        (spares_nameBlock name _).answers _
  | allocateArray source name element count =>
      exact (spares_manager source).bind fun _ => (spares_lift _).bind fun _ =>
        (spares_nameBlock name _).answers _
  | reallocate source name oldSize newSize =>
      exact (spares_manager source).bind fun _ => (spares_block name).bind fun _ =>
        (spares_lift _).bind fun _ => (spares_nameBlock name _).answers _
  | reallocateArray source name element oldCount newCount =>
      exact (spares_manager source).bind fun _ => (spares_block name).bind fun _ =>
        (spares_lift _).bind fun _ => (spares_nameBlock name _).answers _
  | free source name =>
      exact (spares_manager source).bind fun _ => (spares_block name).bind fun _ =>
        (spares_lift _).answers _
  | writeBlock name offset values =>
      rw [perform]
      refine (spares_block name).bind fun _ => spares_current.bind fun _ => ?_
      split
      · exact (spares_lift _).answers _
      · exact spares_throw _
  | readBlock source name =>
      rw [perform]
      refine (spares_manager source).bind fun _ => (spares_block name).bind fun _ =>
        spares_current.bind fun _ => ?_
      dsimp only
      split
      · exact spares_pure _
      · exact spares_throw _
  | createArray name source element length value =>
      exact spares_builds _ _ (nameArray_eq name)
  | resizeArray name | fillArray name | setElement name | getElement name =>
      exact (spares_onArray name _).answers _
  | readArray name => exact spares_onArray name _
  | dropArray name => exact spares_drop (.array name)
  | createRegion name source chunkSize => exact spares_builds _ _ (nameRegion_eq name)
  | storeRange region | resetRegion region => exact (spares_onRegion region _).answers _
  | storeBytes region bytes name =>
      exact (spares_onRegion region _).bind fun handle =>
        (spares_nameHandle other handle).answers _
  | resolveHandle region handle =>
      rw [perform]
      refine spares_current.bind fun _ => (spares_named _ region).bind fun _ =>
        spares_current.bind fun _ => (spares_handle handle).bind fun _ => ?_
      split
      · exact spares_pure _
      · exact spares_throw _
  | dropRegion name => exact spares_drop (.region name)
  | createInterner name source capacity value hasher =>
      exact spares_builds _ _ (nameInterner_eq name)
  | insert interner content value name =>
      exact (spares_onInterner interner _).bind fun given =>
        (spares_nameSymbol other given.1).answers _
  | intern interner text default name =>
      exact (spares_onInterner interner _).bind fun symbol =>
        (spares_nameSymbol other symbol).answers _
  | lookup interner content name =>
      rw [perform]
      refine (spares_onInterner interner _).bind fun found => ?_
      split
      · exact (spares_nameSymbol other _).answers _
      · exact spares_pure _
  | valueFor interner | contains interner | listInterner interner =>
      exact spares_onInterner interner _
  | valueOf interner symbol | bytesOf interner symbol | textOf interner symbol =>
      exact spares_tells interner symbol _
  | setValue interner symbol value =>
      exact spares_current.bind fun _ => (spares_named _ interner).bind fun _ =>
        (spares_symbol symbol).bind fun _ => (spares_onInterner interner _).answers _
  | nameEntry interner index name =>
      rw [perform]
      refine (spares_onInterner interner _).bind fun found => ?_
      split
      · exact (spares_nameSymbol other _).answers _
      · exact spares_pure _
  | clearInterner interner => exact (spares_onInterner interner _).answers _
  | dropInterner name => exact spares_drop (.interner name)
  | createDictionary name source capacity rule node =>
      exact spares_builds _ _ (nameDictionary_eq name)
  | getKey dictionary | hasKey dictionary | listDictionary dictionary =>
      exact spares_onDictionary dictionary _
  | setKey dictionary | modifyKey dictionary | removeKey dictionary | deleteKey dictionary
  | clearDictionary dictionary => exact (spares_onDictionary dictionary _).answers _
  | dropDictionary name => exact spares_drop (.dictionary name)

end Session

end SymbolStore
