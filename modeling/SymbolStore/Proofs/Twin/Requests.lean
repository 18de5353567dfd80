import SymbolStore.Proofs.Session.Creation
import SymbolStore.Proofs.Twin.Structures

/-!
A session in two processes. Requests go alike in both if the calls of the managers do that the
session knows.
-/

namespace SymbolStore

open SymbolStore.Action (Ends Lockstep Respects)

variable {K V : Type} {known : Manager → Prop} {excused : Failure → Prop}
  {rel : Nat → Process → Process → Prop}

namespace Structure

def Known (known : Manager → Prop) : Structure K V → Prop
  | .holder manager => known manager
  | .array inner => known inner.manager
  | .region inner => known inner.manager
  | .interner inner => inner.Known known
  | .dictionary inner => known inner.manager

theorem known_any (object : Structure K V) : object.Known fun _ => True := by
  cases object with
  | interner inner => exact ⟨trivial, trivial⟩
  | holder | array | region | dictionary => trivial

theorem discard_respects (congruent : Congruent known excused rel) {object : Structure K V}
    (is : object.Known known) : Respects excused rel 0 object.discard := by
  cases object with
  | holder manager => exact (congruent.release is).excusing excused
  | array inner => exact FlatArray.discard_respects congruent is
  | region inner => exact Region.discard_respects congruent.toParallel is
  | interner inner => exact Interner.discard_respects congruent is
  | dictionary inner => exact Dictionary.discard_respects congruent.toParallel is

end Structure

section Owners

variable {manager : Manager} {process : Process}

theorem FlatArray.create_known (element : Layout) (length : Nat) (value : List UInt8)
    (is : known manager) :
    Ends (create manager element length value) process
      (fun array _ => (Structure.array array : Structure K V).Known known) fun _ _ => True := by
  refine (create_owner element length value).mono ?_ fun _ _ _ => trivial
  rintro array _ rfl
  exact is

theorem Region.create_known (chunkSize : Nat) (is : known manager) :
    Ends (create manager chunkSize) process
      (fun region _ => (Structure.region region : Structure K V).Known known) fun _ _ => True := by
  refine (create_owner chunkSize).mono ?_ fun _ _ _ => trivial
  rintro region _ ⟨-, rfl⟩
  exact is

theorem Interner.create_known (requested : Nat) (value : Layout) (hasher : List UInt8 → UInt64)
    (is : known manager) :
    Ends (create manager requested value hasher) process
      (fun interner _ => (Structure.interner interner : Structure K V).Known known)
      fun _ _ => True := by
  refine (create_owner requested value hasher).mono ?_ fun _ _ _ => trivial
  rintro interner _ ⟨rfl, other⟩
  refine ⟨is, ?_⟩
  rw [other]
  exact is

theorem Dictionary.create_known (requested : Nat) (rule : KeyRule K) (node : Layout)
    (is : known manager) :
    Ends (create manager requested rule node : Action Process (Dictionary K V)) process
      (fun dictionary _ => (Structure.dictionary dictionary).Known known) fun _ _ => True := by
  refine (create_owner requested rule node).mono ?_ fun _ _ _ => trivial
  rintro dictionary _ rfl
  exact is

end Owners

namespace Session

def Known (known : Manager → Prop) (session : Session K V) : Prop :=
  ∀ place object, session.find? place = some object → object.Known known

/-- One session in two related processes, with known managers. -/
def Abreast (known : Manager → Prop) (rel : Nat → Process → Process → Prop) (room : Nat)
    (s t : Session K V) : Prop :=
  t = { s with process := t.process } ∧ s.Known known ∧ rel room s.process t.process

variable {session : Session K V} {place : Place} {name : String} {object : Structure K V}

theorem Known.congr {later : Session K V} (knows : session.Known known)
    (same : ∀ place, later.find? place = session.find? place) : later.Known known := by
  intro place object found
  rw [same] at found
  exact knows place object found

theorem Known.put (knows : session.Known known) (is : object.Known known) :
    (session.put name object).Known known := by
  intro place other found
  rw [find?_put] at found
  split at found
  · cases found
    exact is
  · exact knows place other found

theorem Known.without (knows : session.Known known) : (session.without place).Known known := by
  intro other object found
  rw [find?_without] at found
  split at found
  · cases found
  · exact knows other object found

theorem put_process (session : Session K V) (process : Process) (name : String)
    (object : Structure K V) :
    put { session with process } name object = { put session name object with process } := by
  cases object <;> rfl

theorem without_process (session : Session K V) (process : Process) (place : Place) :
    without { session with process } place = { without session place with process } := by
  cases place <;> rfl

section Rules

variable {α β O : Type} {c : Nat} {f : α → Action (Session K V) β}

variable (congruent : Congruent known excused rel)

theorem respects_lift {x : Action Process α} (respects : Respects excused rel c x) :
    Respects excused (Abreast known rel) c (liftM x : Action (Session K V) α) := by
  rintro room s t ⟨same, knows, related⟩
  rw [same]
  show Lockstep (fun failure _ => excused failure) (fun _ _ => False) (ofProcess x) (ofProcess x) _ _ _ _
  apply Action.lockstep_within
  refine (respects room s.process t.process related).mono ?_ ?_
  · rintro a b p q ⟨equal, left, bound, after⟩
    exact ⟨equal, left, bound, rfl, knows.congr (find?_process s p), after⟩
  · rintro _ p q ⟨left, bound, after⟩
    exact ⟨left, bound, rfl, knows.congr (find?_process s p), after⟩

include congruent in
/-- What comes after a look at the session, if it depends on nothing of the process but the heap. -/
theorem respects_current {f : Session K V → Action (Session K V) β}
    (apart : ∀ s process, process.heap = s.process.heap → f { s with process } = f s)
    (next : ∀ s : Session K V, s.Known known → Respects excused (Abreast known rel) c (f s)) :
    Respects excused (Abreast known rel) c (current >>= f) := by
  rintro room s t ⟨same, knows, related⟩
  refine .step (by rfl) (by rfl) ?_
  have equal : f t = f s := by rw [same, apart s t.process (congruent.heap related)]
  rw [equal]
  exact next s knows room s t ⟨same, knows, related⟩

theorem respects_update {g : Session K V → Session K V}
    (apart : ∀ s process, g { s with process } = { g s with process })
    (process : ∀ s, (g s).process = s.process) (keeps : ∀ s, s.Known known → (g s).Known known) :
    Respects excused (Abreast known rel) c (update g) := by
  rintro room s t ⟨same, knows, related⟩
  refine .last (by rfl) (by rfl) ⟨rfl, room + c, Nat.le_add_right _ _, ?_, keeps s knows, ?_⟩
  · rw [process t, same, apart]
  · rw [process, process]
    exact related

theorem respects_named {objects : Names α}
    (next : ∀ a, objects[name]? = some a → Respects excused (Abreast known rel) c (f a)) :
    Respects excused (Abreast known rel) c (named objects name >>= f) := by
  rw [named]
  cases found : objects[name]? with
  | none =>
      intro room s t related
      exact (Action.lockstep_throw ⟨room + c, Nat.le_add_right _ _, related⟩ :
        Lockstep (fun failure _ => excused failure) (fun _ _ => False) (throw (.unknown name))
          (throw (.unknown name)) s t (fun _ _ _ _ => False)
          fun _ s' t' => _).bind (fun _ _ _ left => left) fun _ _ _ _ => False.elim
  | some a => exact next a found

include congruent in
theorem respects_manager {f : Manager → Action (Session K V) β}
    (next : ∀ manager, known manager → Respects excused (Abreast known rel) c (f manager)) :
    Respects excused (Abreast known rel) c (manager name >>= f) := by
  rw [manager, bind_assoc]
  refine respects_current congruent (fun _ _ _ => rfl) fun s knows => ?_
  refine respects_named fun manager found => next manager ?_
  exact knows (.manager name) (.holder manager) (congrArg (Option.map Structure.holder) found)

include congruent in
theorem respects_block {f : Nat → Action (Session K V) β}
    (next : ∀ address, Respects excused (Abreast known rel) c (f address)) :
    Respects excused (Abreast known rel) c (block name >>= f) := by
  rw [block, bind_assoc]
  refine respects_current congruent (fun _ _ _ => rfl) fun s _ => ?_
  exact respects_named fun address _ => next address

include congruent in
theorem respects_handle {f : Region.Handle → Action (Session K V) β}
    (next : ∀ handle, Respects excused (Abreast known rel) c (f handle)) :
    Respects excused (Abreast known rel) c (handle name >>= f) := by
  rw [handle, bind_assoc]
  refine respects_current congruent (fun _ _ _ => rfl) fun s _ => ?_
  exact respects_named fun handle _ => next handle

include congruent in
theorem respects_symbol {f : Symbol → Action (Session K V) β}
    (next : ∀ symbol, Respects excused (Abreast known rel) c (f symbol)) :
    Respects excused (Abreast known rel) c (symbol name >>= f) := by
  rw [symbol, bind_assoc]
  refine respects_current congruent (fun _ _ _ => rfl) fun s _ => ?_
  exact respects_named fun symbol _ => next symbol

theorem Abreast.placed {s t : Session K V} {p q : Process} {left : Nat}
    (same : t = { s with process := t.process }) (knows : s.Known known) (is : object.Known known)
    (related : rel left p q) :
    Abreast known rel left (put { s with process := p } name object)
      (put { t with process := q } name object) := by
  refine ⟨?_, ?_, ?_⟩
  · rw [same]
    cases object <;> rfl
  · exact (knows.congr (find?_process s p)).put is
  · rw [process_put, process_put]
    exact related

include congruent in
theorem respects_on {objects : Session K V → Names O} {x : Method O α} (make : O → Structure K V)
    (place : Place) (apart : ∀ s process, objects { s with process } = objects s)
    (lookup : ∀ s : Session K V, s.find? place = ((objects s)[name]?).map make)
    (respects : Respects excused (Method.Abreast (fun inner => (make inner).Known known) rel) c
      x) :
    Respects excused (Abreast known rel) c
      (do
        let inner ← named (objects (← current)) name
        Action.within (fun session => (inner, session.process))
          (fun after session => put { session with process := after.2 } name (make after.1))
          x) := by
  refine respects_current congruent ?_ fun s knows => ?_
  · intro s process _
    rw [apart]
  refine respects_named fun inner found => ?_
  have is : (make inner).Known known := by
    refine knows place (make inner) ?_
    rw [lookup, found, Option.map_some]
  rintro room s t ⟨same, knows, related⟩
  apply Action.lockstep_within
  refine (respects room (inner, s.process) (inner, t.process) ⟨rfl, is, related⟩).mono ?_ ?_
  · rintro a b ⟨o, p⟩ ⟨o', q⟩ ⟨equal, left, bound, objects, kept, after⟩
    obtain rfl : o = o' := objects.symm
    exact ⟨equal, left, bound, Abreast.placed same knows kept after⟩
  · rintro _ ⟨o, p⟩ ⟨o', q⟩ ⟨left, bound, objects, kept, after⟩
    obtain rfl : o = o' := objects.symm
    exact ⟨left, bound, Abreast.placed same knows kept after⟩

include congruent in
theorem respects_occupy (is : object.Known known) :
    Respects excused (Abreast known rel) 0 (occupy name object) := by
  rw [occupy]
  refine respects_current congruent ?_ fun s knows => ?_
  · intro s process _
    rw [find?_process]
  have puts : Respects excused (Abreast known rel) 0
      (update fun session : Session K V => session.put name object) := by
    refine respects_update (fun s process => ?_) (fun s => ?_) fun s knows => knows.put is
    · exact put_process s process name object
    · exact process_put s object name
  apply puts.seq
  intro _
  cases found : s.find? (object.place name) with
  | none => exact Action.respects_pure _
  | some earlier =>
      exact respects_lift (Structure.discard_respects congruent (knows _ _ found))

include congruent in
theorem respects_vacate (place : Place) :
    Respects excused (Abreast known rel) 0 (vacate place : Action (Session K V) (Answer K V)) := by
  rw [vacate]
  refine respects_current congruent ?_ fun s knows => ?_
  · intro s process _
    rw [find?_process]
  have takes : Respects excused (Abreast known rel) 0
      (update fun session : Session K V => session.without place) := by
    refine respects_update (fun s process => ?_) (fun s => ?_) fun s knows => knows.without
    · exact without_process s process place
    · exact process_without s place
  apply takes.seq
  intro _
  cases found : s.find? place with
  | none => exact Action.respects_pure _
  | some earlier =>
      refine Respects.seq ?_ fun _ => Action.respects_pure _
      exact respects_lift (Structure.discard_respects congruent (knows _ _ found))

include congruent in
theorem drop_respects (place : Place) :
    Respects excused (Abreast known rel) 0 (perform (place.drop : Command K V)) := by
  rw [perform_drop]
  exact respects_vacate congruent place

/-- The rest of a request for a new structure, once its manager is there. -/
def making (manager : Manager) (build : Manager → Action Process α)
    (naming : α → Action (Session K V) Unit) : Action (Session K V) (Answer K V) := do
  let built ← ((build manager).onFailure manager.release : Action Process α)
  manager.release
  naming built
  return .done

theorem building_named (source : String) (build : Manager → Action Process α)
    (naming : α → Action (Session K V) Unit) :
    (do
        naming (← building (some source) build)
        return (.done : Answer K V)) =
      (do
        let manager ← manager source
        manager.retain
        making manager build naming) := by
  simp only [building, making, bind_assoc, pure_bind]

theorem building_own (build : Manager → Action Process α)
    (naming : α → Action (Session K V) Unit) :
    (do
        naming (← building none build)
        return (.done : Answer K V)) =
      (do
        let manager ← Manager.create (← current).process.config
        making manager build naming) := by
  simp only [building, making, bind_assoc, pure_bind]

include congruent in
theorem respects_making {manager : Manager} {build : Manager → Action Process α}
    {naming : α → Action (Session K V) Unit} {make : α → Structure K V} (is : known manager)
    (builds : Respects excused rel c (build manager))
    (facts : ∀ process, Ends (build manager) process (fun a _ => (make a).Known known)
      fun _ _ => True)
    (names : ∀ a, naming a = occupy name (make a)) :
    Respects excused (Abreast known rel) c (making manager build naming) := by
  have released := congruent.release is
  rw [making]
  have keeps (s : Session K V) :
      Ends (liftM ((build manager).onFailure manager.release) : Action (Session K V) α) s
        (fun a _ => (make a).Known known) fun _ _ => True := by
    rw [ends_liftProcess, Action.ends_onFailure]
    refine (facts s.process).mono (fun _ _ fact => fact) fun _ process _ => ?_
    exact Action.ends_trivial _ process
  apply (respects_lift (builds.onFailure released)).knowing (d := 0) keeps
  intro a kept
  rw [names]
  apply (respects_lift (released.excusing excused)).seq
  intro _
  exact (respects_occupy congruent kept).seq fun _ => Action.respects_pure _

end Rules

section Requests

variable {α : Type} {c : Nat} (congruent : Congruent known excused rel)
include congruent

theorem onArray_respects {x : Method FlatArray α}
    (respects : Respects excused (FlatArray.Abreast known rel) c x) :
    Respects excused (Abreast known rel) c (onArray name x : Action (Session K V) α) := by
  rw [onArray]
  exact respects_on congruent .array (.array name) (fun _ _ => rfl)
    (fun _ => rfl) respects

theorem onRegion_respects {x : Method Region α}
    (respects : Respects excused (Region.Abreast known rel) c x) :
    Respects excused (Abreast known rel) c (onRegion name x : Action (Session K V) α) := by
  rw [onRegion]
  exact respects_on congruent .region (.region name) (fun _ _ => rfl)
    (fun _ => rfl) respects

theorem onInterner_respects {x : Method Interner α}
    (respects : Respects excused (Interner.Abreast known rel) c x) :
    Respects excused (Abreast known rel) c (onInterner name x : Action (Session K V) α) := by
  rw [onInterner]
  exact respects_on congruent .interner (.interner name) (fun _ _ => rfl) (fun _ => rfl) respects

theorem onDictionary_respects {x : Method (Dictionary K V) α}
    (respects : Respects excused (Dictionary.Abreast known rel) c x) :
    Respects excused (Abreast known rel) c (onDictionary name x : Action (Session K V) α) := by
  rw [onDictionary]
  exact respects_on congruent .dictionary (.dictionary name) (fun _ _ => rfl) (fun _ => rfl) respects

omit congruent in
theorem nameBlock_respects (name : String) (address : Nat) :
    Respects excused (Abreast known rel) 0 (nameBlock name address : Action (Session K V) Unit) :=
  respects_update (fun _ _ => rfl) (fun _ => rfl) fun _ knows =>
    knows.congr fun place => by cases place <;> rfl

omit congruent in
theorem nameHandle_respects (name : Option String) (handle : Region.Handle) :
    Respects excused (Abreast known rel) 0
      (nameHandle name handle : Action (Session K V) Unit) := by
  cases name with
  | none => exact Action.respects_pure _
  | some name =>
      exact respects_update (fun _ _ => rfl) (fun _ => rfl) fun _ knows =>
        knows.congr fun place => by cases place <;> rfl

omit congruent in
theorem nameSymbol_respects (name : Option String) (symbol : Symbol) :
    Respects excused (Abreast known rel) 0
      (nameSymbol name symbol : Action (Session K V) Unit) := by
  cases name with
  | none => exact Action.respects_pure _
  | some name =>
      exact respects_update (fun _ _ => rfl) (fun _ => rfl) fun _ knows =>
        knows.congr fun place => by cases place <;> rfl

theorem tells_respects {f : Interner → Heap → Method Interner α}
    (next : ∀ interner heap, Respects excused (Interner.Abreast known rel) c (f interner heap)) :
    Respects excused (Abreast known rel) c
      (onInterner name (do f (← Method.self) (← Method.heap)) : Action (Session K V) α) := by
  refine onInterner_respects congruent ?_
  apply Method.respects_self
  intro interner _
  exact congruent.respects_heap fun heap => next interner heap

theorem symbolTells_respects {interner symbol : String}
    {f : Symbol → Interner → Heap → Answer K V} :
    Respects excused (Abreast known rel) 0
      (do
        let _ ← named (← current).interners interner
        let symbol ← Session.symbol symbol
        onInterner interner do
          return f symbol (← Method.self) (← Method.heap) : Action (Session K V) (Answer K V)) := by
  refine respects_current congruent (fun _ _ _ => rfl) fun s _ => ?_
  refine respects_named fun _ _ => ?_
  refine respects_symbol congruent fun symbol => ?_
  exact tells_respects congruent fun _ _ => Action.respects_pure _

theorem allocate_respects (source : String) (payload : Layout) :
    Respects excused (Abreast known rel) 1
      (perform (.allocate source name payload) : Action (Session K V) (Answer K V)) := by
  rw [perform]
  refine respects_manager congruent fun manager is => ?_
  apply (respects_lift (congruent.allocate payload is)).andThen
  intro address
  exact (nameBlock_respects name address).seq fun _ => Action.respects_pure _

theorem allocateArray_respects (source : String) (element : Layout) (count : Nat) :
    Respects excused (Abreast known rel) 1
      (perform (.allocateArray source name element count) :
        Action (Session K V) (Answer K V)) := by
  rw [perform]
  refine respects_manager congruent fun manager is => ?_
  apply (respects_lift
    (manager.allocateArray_respects congruent.toParallel element count is)).andThen
  intro address
  exact (nameBlock_respects name address).seq fun _ => Action.respects_pure _

theorem reallocate_respects (source : String) (oldSize newSize : Nat) :
    Respects excused (Abreast known rel) 1
      (perform (.reallocate source name oldSize newSize) :
        Action (Session K V) (Answer K V)) := by
  rw [perform]
  refine respects_manager congruent fun manager is => ?_
  refine respects_block congruent fun address => ?_
  apply (respects_lift (congruent.reallocate address oldSize newSize is)).andThen
  intro moved
  exact (nameBlock_respects name moved).seq fun _ => Action.respects_pure _

theorem reallocateArray_respects (source : String) (element : Layout) (oldCount newCount : Nat) :
    Respects excused (Abreast known rel) 1
      (perform (.reallocateArray source name element oldCount newCount) :
        Action (Session K V) (Answer K V)) := by
  rw [perform]
  refine respects_manager congruent fun manager is => ?_
  refine respects_block congruent fun address => ?_
  apply (respects_lift (congruent.reallocateArray address element oldCount newCount is)).andThen
  intro moved
  exact (nameBlock_respects name moved).seq fun _ => Action.respects_pure _

theorem free_respects (source : String) :
    Respects excused (Abreast known rel) 0
      (perform (.free source name) : Action (Session K V) (Answer K V)) := by
  rw [perform]
  refine respects_manager congruent fun manager is => ?_
  refine respects_block congruent fun address => ?_
  exact (respects_lift (congruent.free address is)).seq fun _ => Action.respects_pure _

theorem writeBlock_respects (offset : Nat) (values : List UInt8) :
    Respects excused (Abreast known rel) 0
      (perform (.writeBlock name offset values) : Action (Session K V) (Answer K V)) := by
  rw [perform]
  refine respects_block congruent fun address => ?_
  refine respects_current congruent ?_ fun s _ => ?_
  · intro s process same
    simp only [same]
  split
  · exact (respects_lift (congruent.stored _ _)).seq fun _ => Action.respects_pure _
  · exact Action.respects_throw _

theorem readBlock_respects (source : String) :
    Respects excused (Abreast known rel) 0
      (perform (.readBlock source name) : Action (Session K V) (Answer K V)) := by
  rw [perform]
  refine respects_manager congruent fun _ _ => ?_
  refine respects_block congruent fun address => ?_
  refine respects_current congruent ?_ fun s _ => ?_
  · intro s process same
    simp only [same]
  dsimp only
  split
  · exact Action.respects_pure _
  · exact Action.respects_throw _

theorem resolveHandle_respects (region handle : String) :
    Respects excused (Abreast known rel) 0
      (perform (.resolveHandle region handle) : Action (Session K V) (Answer K V)) := by
  rw [perform]
  refine respects_current congruent (fun _ _ _ => rfl) fun s _ => ?_
  refine respects_named fun inner _ => ?_
  refine respects_current congruent ?_ fun s _ => ?_
  · intro s process same
    simp only [same]
  refine respects_handle congruent fun handle => ?_
  split
  · exact Action.respects_pure _
  · exact Action.respects_throw _

theorem insert_respects (content value : List UInt8) (symbol : Option String) :
    Respects excused (Abreast known rel) 67
      (perform (.insert name content value symbol) : Action (Session K V) (Answer K V)) := by
  rw [perform]
  apply (onInterner_respects congruent (Interner.insert_respects congruent content value)).andThen
  rintro ⟨issued, isNew⟩
  exact (nameSymbol_respects symbol issued).seq fun _ => Action.respects_pure _

theorem intern_respects (text : String) (default : List UInt8) (symbol : Option String) :
    Respects excused (Abreast known rel) 67
      (perform (.intern name text default symbol) : Action (Session K V) (Answer K V)) := by
  have interns : Respects excused (Interner.Abreast known rel) 67
      (Interner.intern text default) := by
    rw [Interner.intern]
    apply (Interner.insert_respects congruent _ _).andThen
    exact fun _ => Action.respects_pure _
  rw [perform]
  apply (onInterner_respects congruent interns).andThen
  intro issued
  exact (nameSymbol_respects symbol issued).seq fun _ => Action.respects_pure _

theorem lookup_respects (content : List UInt8) (symbol : Option String) :
    Respects excused (Abreast known rel) 0
      (perform (.lookup name content symbol) : Action (Session K V) (Answer K V)) := by
  rw [perform]
  refine (tells_respects congruent fun interner heap => ?_).seq fun found => ?_
  · exact Action.respects_ofFault fun _ _ => Action.respects_pure _
  · split
    · exact (nameSymbol_respects symbol _).seq fun _ => Action.respects_pure _
    · exact Action.respects_pure _

theorem setValue_respects (symbol : String) (value : List UInt8) :
    Respects excused (Abreast known rel) 0
      (perform (.setValue name symbol value) : Action (Session K V) (Answer K V)) := by
  rw [perform]
  refine respects_current congruent (fun _ _ _ => rfl) fun s _ => ?_
  refine respects_named fun _ _ => ?_
  refine respects_symbol congruent fun symbol => ?_
  apply (onInterner_respects congruent (Interner.setValue_respects congruent symbol value)).seq
  exact fun _ => Action.respects_pure _

theorem nameEntry_respects (index : Nat) (symbol : Option String) :
    Respects excused (Abreast known rel) 0
      (perform (.nameEntry name index symbol) : Action (Session K V) (Answer K V)) := by
  rw [perform]
  refine (tells_respects congruent fun interner heap => ?_).seq fun found => ?_
  · exact Action.respects_pure _
  · split
    · exact (nameSymbol_respects symbol _).seq fun _ => Action.respects_pure _
    · exact Action.respects_pure _

theorem builds_respects {build : Manager → Action Process α}
    {naming : α → Action (Session K V) Unit} {make : α → Structure K V} (source : String)
    (builds : ∀ manager, known manager → Respects excused rel c (build manager))
    (facts : ∀ manager process, known manager →
      Ends (build manager) process (fun a _ => (make a).Known known) fun _ _ => True)
    (names : ∀ a, naming a = occupy name (make a)) :
    Respects excused (Abreast known rel) c
      (do
        naming (← building (some source) build)
        return (.done : Answer K V)) := by
  rw [building_named]
  refine respects_manager congruent fun manager is => ?_
  apply (respects_lift ((congruent.retain is).excusing excused)).seq
  exact fun _ => respects_making congruent is (builds manager is) (facts manager · is) names

end Requests

end Session

def Command.makesManager : Command K V → Bool
  | .createManager .. | .createRegion _ none _ | .createInterner _ none ..
  | .createDictionary _ none .. => true
  | _ => false

namespace Session

/-- Requests that make no manager go alike. -/
theorem perform_respects (congruent : Congruent known excused rel) (command : Command K V)
    (older : command.makesManager = false) :
    Respects excused (Abreast known rel) 127 (perform command) := by
  cases command with
  | createManager => cases older
  | shareManager name source =>
      rw [perform]
      apply Respects.mono (c := 0) _ (by decide)
      refine respects_manager congruent fun manager is => ?_
      apply (respects_lift ((congruent.retain is).excusing excused)).seq
      intro _
      rw [nameManager_eq]
      have holds : (Structure.holder manager : Structure K V).Known known := is
      exact (respects_occupy congruent holds).answers (by decide)
  | dropManager name => exact (drop_respects congruent (.manager name)).mono (by decide)
  | allocate source name payload =>
      exact (allocate_respects congruent source payload).mono (by decide)
  | allocateArray source name element count =>
      exact (allocateArray_respects congruent source element count).mono (by decide)
  | reallocate source name oldSize newSize =>
      exact (reallocate_respects congruent source oldSize newSize).mono (by decide)
  | reallocateArray source name element oldCount newCount =>
      exact (reallocateArray_respects congruent source element oldCount newCount).mono (by decide)
  | free source name => exact (free_respects congruent source).mono (by decide)
  | writeBlock name offset values =>
      exact (writeBlock_respects congruent offset values).mono (by decide)
  | readBlock source name => exact (readBlock_respects congruent source).mono (by decide)
  | createArray name source element length value =>
      exact (builds_respects congruent source
        (fun _ => FlatArray.create_respects congruent element length value)
        (fun _ _ => FlatArray.create_known element length value) (nameArray_eq name)).mono (by decide)
  | resizeArray name length value =>
      rw [perform]
      exact (onArray_respects congruent (FlatArray.resize_respects congruent length value)).answers
        (by decide)
  | fillArray name value =>
      rw [perform]
      exact (onArray_respects congruent (FlatArray.fill_respects congruent value)).answers
        (by decide)
  | setElement name index value =>
      rw [perform]
      exact (onArray_respects congruent (FlatArray.set_respects congruent index value)).answers
        (by decide)
  | getElement name index =>
      rw [perform]
      exact (onArray_respects congruent (FlatArray.get_respects congruent index)).answers
        (by decide)
  | readArray name =>
      rw [perform]
      apply Respects.mono (c := 0) _ (by decide)
      refine onArray_respects congruent (Method.respects_self fun array _ => ?_)
      exact congruent.respects_heap fun _ => Action.respects_pure _
  | dropArray name => exact (drop_respects congruent (.array name)).mono (by decide)
  | createRegion name source chunkSize =>
      cases source with
      | none => cases older
      | some source =>
          exact (builds_respects congruent source
            (fun _ => Region.create_respects congruent.toParallel chunkSize)
            (fun _ _ => Region.create_known chunkSize) (nameRegion_eq name)).mono (by decide)
  | storeRange region range content =>
      rw [perform]
      exact (onRegion_respects congruent
        (Region.store_respects congruent.toParallel range content)).answers (by decide)
  | storeBytes region bytes name =>
      rw [perform]
      apply Respects.mono (c := 1) _ (by decide)
      apply (onRegion_respects congruent
        (Region.storeBytes_respects congruent.toParallel bytes)).andThen
      exact fun handle => (nameHandle_respects name handle).seq fun _ => Action.respects_pure _
  | resolveHandle region handle =>
      exact (resolveHandle_respects congruent region handle).mono (by decide)
  | resetRegion region =>
      rw [perform]
      exact (onRegion_respects congruent (Region.reset_respects congruent.toParallel)).answers
        (by decide)
  | dropRegion name => exact (drop_respects congruent (.region name)).mono (by decide)
  | createInterner name source capacity value hasher =>
      cases source with
      | none => cases older
      | some source =>
          exact (builds_respects congruent source
            (fun _ => Interner.create_respects congruent.toParallel capacity value hasher)
            (fun _ _ => Interner.create_known capacity value hasher)
            (nameInterner_eq name)).mono (by decide)
  | insert interner content value name =>
      exact (insert_respects congruent content value name).mono (by decide)
  | intern interner text default name =>
      exact (intern_respects congruent text default name).mono (by decide)
  | lookup interner content name =>
      exact (lookup_respects congruent content name).mono (by decide)
  | valueFor interner content =>
      rw [perform]
      refine (tells_respects congruent (c := 0) fun _ _ => ?_).mono (by decide)
      exact Action.respects_ofFault fun _ _ => Action.respects_pure _
  | contains interner content =>
      rw [perform]
      refine (tells_respects congruent (c := 0) fun _ _ => ?_).mono (by decide)
      exact Action.respects_ofFault fun _ _ => Action.respects_pure _
  | valueOf interner symbol =>
      rw [perform]
      exact (symbolTells_respects congruent).mono (by decide)
  | setValue interner symbol value =>
      exact (setValue_respects congruent symbol value).mono (by decide)
  | bytesOf interner symbol =>
      rw [perform]
      exact (symbolTells_respects congruent).mono (by decide)
  | textOf interner symbol =>
      rw [perform]
      exact (symbolTells_respects congruent).mono (by decide)
  | listInterner interner =>
      rw [perform]
      refine (tells_respects congruent (c := 0) fun _ _ => ?_).mono (by decide)
      exact Action.respects_pure _
  | nameEntry interner index name =>
      exact (nameEntry_respects congruent index name).mono (by decide)
  | clearInterner interner =>
      rw [perform]
      exact (onInterner_respects congruent (Interner.clear_respects congruent)).answers (by decide)
  | dropInterner name => exact (drop_respects congruent (.interner name)).mono (by decide)
  | createDictionary name source capacity rule node =>
      cases source with
      | none => cases older
      | some source =>
          exact (builds_respects congruent source
            (fun _ => Dictionary.create_respects congruent.toParallel capacity rule node)
            (fun _ _ => Dictionary.create_known capacity rule node)
            (nameDictionary_eq name)).mono (by decide)
  | setKey dictionary key value =>
      rw [perform]
      have sets := Dictionary.set_respects congruent.toParallel key value
      exact (onDictionary_respects congruent sets).answers (by decide)
  | getKey dictionary key =>
      rw [perform]
      apply Respects.mono (c := 0) _ (by decide)
      refine onDictionary_respects congruent (Method.respects_self fun dictionary _ => ?_)
      exact Action.respects_ofFault fun _ _ => Action.respects_pure _
  | modifyKey dictionary key f =>
      rw [perform]
      exact (onDictionary_respects congruent (Dictionary.modify_respects key f)).answers (by decide)
  | hasKey dictionary key =>
      rw [perform]
      apply Respects.mono (c := 0) _ (by decide)
      refine onDictionary_respects congruent (Method.respects_self fun dictionary _ => ?_)
      exact Action.respects_ofFault fun _ _ => Action.respects_pure _
  | removeKey dictionary key =>
      rw [perform]
      have removes := Dictionary.remove_respects (V := V) congruent.toParallel key
      exact (onDictionary_respects congruent removes).answers (by decide)
  | deleteKey dictionary key =>
      rw [perform]
      have deletes := Action.respects_map (f := Option.isSome)
        (Dictionary.remove_respects (V := V) congruent.toParallel key)
      exact (onDictionary_respects congruent deletes).answers (by decide)
  | listDictionary dictionary =>
      rw [perform]
      apply Respects.mono (c := 0) _ (by decide)
      exact onDictionary_respects congruent (Method.respects_self fun _ _ => Action.respects_pure _)
  | clearDictionary dictionary =>
      rw [perform]
      have clears := Dictionary.clear_respects (K := K) (V := V) congruent.toParallel
      exact (onDictionary_respects congruent clears).answers (by decide)
  | dropDictionary name => exact (drop_respects congruent (.dictionary name)).mono (by decide)

theorem close_respects (congruent : Congruent known excused rel) :
    Respects excused (Abreast known rel) 0 (close : Action (Session K V) Unit) := by
  have member {α : Type} {names : Names α} {inner : α} (listed : inner ∈ names.values) :
      ∃ name : String, names[name]? = some inner :=
    Names.mem_objects.mp (Multiset.mem_coe.mpr listed)
  have gone {α : Type} {list : List α} (make : α → Structure K V)
      {discard : α → Action Process Unit}
      (discards : ∀ inner, discard inner = (make inner).discard)
      (knows : ∀ inner ∈ list, (make inner).Known known) :
      Respects excused (Abreast known rel) 0
        (list.forM fun inner => ofProcess (discard inner) : Action (Session K V) PUnit) := by
    refine Action.respects_forM fun inner listed => ?_
    rw [discards]
    exact respects_lift (Structure.discard_respects congruent (knows inner listed))
  rw [close]
  refine respects_current congruent (fun _ _ _ => rfl) fun s knows => ?_
  refine Respects.seq (respects_update (fun _ _ => rfl) (fun _ => rfl) ?_) fun _ => ?_
  · intro later _ place object found
    cases place <;> simp [find?] at found
  refine (gone .interner (fun _ => rfl) ?_).seq fun _ => ?_
  · intro inner listed
    obtain ⟨name, named⟩ := member listed
    exact knows (.interner name) _ (congrArg (Option.map Structure.interner) named)
  refine (gone .dictionary (fun _ => rfl) ?_).seq fun _ => ?_
  · intro inner listed
    obtain ⟨name, named⟩ := member listed
    exact knows (.dictionary name) _ (congrArg (Option.map Structure.dictionary) named)
  refine (gone .region (fun _ => rfl) ?_).seq fun _ => ?_
  · intro inner listed
    obtain ⟨name, named⟩ := member listed
    exact knows (.region name) _ (congrArg (Option.map Structure.region) named)
  refine (gone .array (fun _ => rfl) ?_).seq fun _ => ?_
  · intro inner listed
    obtain ⟨name, named⟩ := member listed
    exact knows (.array name) _ (congrArg (Option.map Structure.array) named)
  refine gone .holder (fun _ => rfl) ?_
  · intro inner listed
    obtain ⟨name, named⟩ := member listed
    exact knows (.manager name) _ (congrArg (Option.map Structure.holder) named)

end Session

end SymbolStore
