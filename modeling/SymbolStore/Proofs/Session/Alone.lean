import SymbolStore.Proofs.Session.Labels
import SymbolStore.Proofs.Session.Renamed
import SymbolStore.Proofs.Twin.Requests

/-!
Two sessions of which the second one has at a place what stands for the structure that the first one
has there, whatever else the first one has. What labels of that structure mean stands for each other,
too. Steps of the structure go alike.
-/

namespace SymbolStore

open SymbolStore.Action (Ends Lockstep)
open SymbolStore.Process (Twins)

variable {K V : Type}

namespace Session

def occupied (session : Session K V) (place : Place) : Multiset Extent :=
  (session.find? place).elim 0 Structure.holdings

/-- What labels mean stands for each other. Handles are of regions whose numbers lie below these two.
Where the entry of a symbol is matters if its number is that of the interner that is there. -/
structure Labelled (own : Label → Prop) (a b : Nat) (names : Renaming) (number : Option Nat)
    (s t : Session K V) : Prop where
  handles (name : String) : own (.handle name) →
    t.handles[name]? = (s.handles[name]?).map (Region.Handle.rename names)
  known (name : String) handle : own (.handle name) → s.handles[name]? = some handle →
    handle.region < a ∧ names.region handle.region < b
  symbols (name : String) : own (.symbol name) →
    Option.Rel (Symbol.Alike names number) s.symbols[name]? t.symbols[name]?

/-- The second session has the same managers as the first one, what stands for the structure at the
place, and what stands for the meanings of labels. -/
structure Alone (allocator : Allocator) (own : Label → Prop) (place : Place) (a b : Nat)
    (names : Renaming) (room : Nat) (s t : Session K V) : Prop where
  managers (name : String) : t.managers[name]? = s.managers[name]?
  same : t.find? place = (s.find? place).map (Structure.rename names)
  level : ∀ object ∈ s.find? place, object.Level names
  twins : Twins allocator names (s.occupied place) room s.process t.process
  labelled : Labelled own a b names ((s.find? place).bind Structure.internerId?) s t

/-- The second session still has what stands for what the first one has, with the same numbers of
regions, and this is known under the names that things have now. -/
def Remains (allocator : Allocator) (own : Label → Prop) (place : Place) (a b : Nat)
    (names : Renaming) (room : Nat) (known : Renaming → Prop) (s t : Session K V) : Prop :=
  ∃ later : Renaming, later.region = names.region ∧
    Alone allocator own place a b later room s t ∧ known later

/-- Two steps that go alike, unless one of them fails when addresses are short. -/
abbrev Tandem {α β : Type} (bound : Nat) : Action (Session K V) α → Action (Session K V) β →
    Session K V → Session K V → (α → β → Session K V → Session K V → Prop) →
      (Failure → Session K V → Session K V → Prop) → Prop :=
  Lockstep (fun _ s => s.process.Spent bound) fun _ t => t.process.Spent bound

variable {O α β : Type} {allocator : Allocator} {grants : Nat → Bool} {own : Label → Prop}
  {place : Place} {names later : Renaming} {number : Option Nat} {bound room more a b : Nat}
  {s t s' t' : Session K V} {direct : Multiset Extent} {object : Structure K V} {name : String}

theorem occupied_of_find? (found : s.find? place = some object) :
    s.occupied place = object.holdings := by
  rw [occupied, found, Option.elim_some]

theorem occupied_of_none (absent : s.find? place = none) : s.occupied place = 0 := by
  rw [occupied, absent, Option.elim_none]

theorem managers_eq_of_find? (same : t.find? (.manager name) = s.find? (.manager name)) :
    t.managers[name]? = s.managers[name]? :=
  Option.map_injective (fun _ _ => Structure.holder.inj) same

theorem managers_put (session : Session K V) (apart : ∀ other, object.place name ≠ .manager other) :
    (session.put name object).managers = session.managers := by
  cases object with
  | holder => exact absurd rfl (apart _)
  | array | region | interner | dictionary => rfl

theorem managers_without (session : Session K V) (apart : ∀ other, place ≠ .manager other) :
    (session.without place).managers = session.managers := by
  cases place with
  | manager name => exact absurd rfl (apart _)
  | array | region | interner | dictionary => rfl

/-- Symbols of an interner are where its region has its chunks. -/
theorem Settled.entry_fixed (settled : s.Settled direct) (found : s.find? place = some object)
    {symbol : Symbol} (named : s.symbols[name]? = some symbol)
    (number : object.internerId? = some symbol.interner) :
    symbol.entry.block ∈ object.fixed.map Extent.address := by
  cases object with
  | holder | array | region | dictionary => cases number
  | interner inner =>
      have there := mem_structures.mpr ⟨place, found⟩
      have issued := (settled.issued name symbol named).2 inner there (Option.some.inj number).symm
      exact Region.mem_holdings issued.inside

theorem lockstep_named {A B : Type} {excused pardoned : Failure → Session K V → Prop}
    {objects : Names A} {others : Names B} {rel : A → B → Prop} {f : A → Action (Session K V) α}
    {g : B → Action (Session K V) β} {done : α → β → Session K V → Session K V → Prop}
    {failed : Failure → Session K V → Session K V → Prop}
    (same : Option.Rel rel objects[name]? others[name]?) (failure : failed (.unknown name) s t)
    (next : ∀ a b, objects[name]? = some a → rel a b →
      Lockstep excused pardoned (f a) (g b) s t done failed) :
    Lockstep excused pardoned (named objects name >>= f) (named others name >>= g) s t done failed := by
  rw [named, named]
  generalize found : objects[name]? = here at same
  generalize others[name]? = there at same
  cases same with
  | some related => exact next _ _ found related
  | none => exact .inr (.inr ⟨rfl, failure⟩)

theorem rel_of_map {A B : Type} {f : A → B} {x : Option A} {y : Option B} (same : y = x.map f) :
    Option.Rel (fun a b => b = f a) x y := by
  cases x with
  | none => exact same ▸ .none
  | some a => exact same ▸ .some rfl

def numberAt (session : Session K V) (place : Place) : Option Nat :=
  (session.find? place).bind Structure.regionId?

theorem Alone.number_lt {direct' : Multiset Extent} {id : Nat}
    (alone : Alone allocator own place a b names room s t) (here : s.Settled direct)
    (there : t.Settled direct') (number : s.numberAt place = some id) :
    id < s.process.nextRegion ∧ names.region id < t.process.nextRegion := by
  obtain ⟨object, found, is⟩ := Option.bind_eq_some_iff.mp number
  refine ⟨here.known_of_find? found is, ?_⟩
  have other := alone.same
  rw [found, Option.map_some] at other
  refine there.known_of_find? other ?_
  rw [Structure.regionId?_rename, is, Option.map_some]

namespace Labelled

/-- Names change, but not those of the regions, nor those of the entries that matter. -/
theorem renamed (labelled : Labelled own a b names number s t) (region : later.region = names.region)
    {number' : Option Nat} (entries : ∀ (name : String) symbol, s.symbols[name]? = some symbol →
      number' = some symbol.interner → number = some symbol.interner ∧
        symbol.entry.rename later = symbol.entry.rename names) :
    Labelled own a b later number' s t where
  handles name mine := by
    have same : Region.Handle.rename later = Region.Handle.rename names := by
      funext handle
      rw [Region.Handle.rename, Region.Handle.rename, region]
    rw [same]
    exact labelled.handles name mine
  known name handle mine named := by
    rw [region]
    exact labelled.known name handle mine named
  symbols name mine := by
    have alike := labelled.symbols name mine
    generalize t.symbols[name]? = other at alike ⊢
    cases found : s.symbols[name]? with
    | none =>
        rw [found] at alike
        cases alike
        exact .none
    | some symbol =>
        rw [found] at alike
        cases alike with
        | some alike =>
            refine .some ⟨region ▸ alike.interner, alike.generation, fun matters => ?_⟩
            obtain ⟨before, same⟩ := entries name symbol found matters
            exact (alike.entry before).trans same.symm

theorem congr (labelled : Labelled own a b names number s t) (handles : s'.handles = s.handles)
    (symbols : s'.symbols = s.symbols) (handles' : t'.handles = t.handles)
    (symbols' : t'.symbols = t.symbols) : Labelled own a b names number s' t' where
  handles name mine := by
    rw [handles, handles']
    exact labelled.handles name mine
  known name handle mine named := by
    rw [handles] at named
    exact labelled.known name handle mine named
  symbols name mine := by
    rw [symbols, symbols']
    exact labelled.symbols name mine

end Labelled

theorem Alone.less (alone : Alone allocator own place a b names more s t) (less : room ≤ more) :
    Alone allocator own place a b names room s t :=
  { alone with twins := alone.twins.less less }

section Labels

variable {excused pardoned : Failure → Session K V → Prop} {known : Renaming → Prop}

theorem Alone.relabelled (alone : Alone allocator own place a b names room s t)
    (handles handles' : Names Region.Handle) (symbols symbols' : Names Symbol)
    (labelled : Labelled own a b names ((s.find? place).bind Structure.internerId?)
      { s with handles, symbols } { t with handles := handles', symbols := symbols' }) :
    Alone allocator own place a b names room { s with handles, symbols }
      { t with handles := handles', symbols := symbols' } := by
  have same (session : Session K V) (handles : Names Region.Handle) (symbols : Names Symbol) :
      find? { session with handles, symbols } place = session.find? place := by
    cases place <;> rfl
  refine ⟨alone.managers, ?_, ?_, ?_, ?_⟩
  · rw [same, same]
    exact alone.same
  · rw [same]
    exact alone.level
  · rw [occupied, same]
    exact alone.twins
  · rw [same]
    exact labelled

theorem nameHandle_tandem {handle other : Region.Handle} (label : Option String)
    (remains : Remains allocator own place a b names room
      (fun later => other = handle.rename later ∧ known later) s t)
    (here : handle.region < a) (there : names.region handle.region < b) :
    Lockstep excused pardoned (nameHandle label handle : Action (Session K V) Unit)
      (nameHandle label other) s t
      (fun _ _ => Remains allocator own place a b names room fun later =>
        other = handle.rename later ∧ known later)
      fun _ _ _ => False := by
  cases label with
  | none => exact .last (by rfl) (by rfl) remains
  | some label =>
      obtain ⟨later, region, alone, rfl, knows⟩ := remains
      refine .last (by rfl) (by rfl) ⟨later, region, ?_, rfl, knows⟩
      refine alone.relabelled _ _ s.symbols t.symbols ⟨?_, ?_, alone.labelled.symbols⟩
      · intro name mine
        show (t.handles.insert label _)[name]? = ((s.handles.insert label handle)[name]?).map _
        rw [Names.getElem?_insert, Names.getElem?_insert]
        split
        · rfl
        · exact alone.labelled.handles name mine
      · intro name found mine named
        change (s.handles.insert label handle)[name]? = some found at named
        rw [Names.getElem?_insert] at named
        split at named
        · cases named
          exact ⟨here, region ▸ there⟩
        · exact alone.labelled.known name found mine named

theorem nameSymbol_tandem {symbol other : Symbol} (label : Option String)
    (remains : Remains allocator own place a b names room
      (fun later => other = symbol.rename later ∧ known later) s t) :
    Lockstep excused pardoned (nameSymbol label symbol : Action (Session K V) Unit)
      (nameSymbol label other) s t
      (fun _ _ => Remains allocator own place a b names room fun later =>
        other = symbol.rename later ∧ known later)
      fun _ _ _ => False := by
  cases label with
  | none => exact .last (by rfl) (by rfl) remains
  | some label =>
      obtain ⟨later, region, alone, rfl, knows⟩ := remains
      refine .last (by rfl) (by rfl) ⟨later, region, ?_, rfl, knows⟩
      refine alone.relabelled s.handles t.handles _ _
        ⟨alone.labelled.handles, alone.labelled.known, ?_⟩
      intro name mine
      show Option.Rel _ (s.symbols.insert label symbol)[name]? (t.symbols.insert label _)[name]?
      rw [Names.getElem?_insert, Names.getElem?_insert]
      split
      · exact .some (Symbol.alike_rename later _ symbol)
      · exact alone.labelled.symbols name mine

end Labels

section Steps

variable {make : O → Structure K V} {at' : String → Place} {holdings : O → Multiset Extent}
  {rename : Renaming → O → O} {Level : Renaming → O → Prop} {fixed : O → Multiset Extent}
  {number : O → Option Nat} (kind : Structure.Kind make at' holdings rename Level fixed number)
include kind

theorem Alone.onto {known : Renaming → Prop} {o new new' : O} {p q : Process}
    (alone : Alone allocator own (at' name) a b names more s t) (settled : s.Settled direct)
    (found : s.find? (at' name) = some (make o))
    (onto : Onto holdings rename Level fixed number allocator names 0 room o known (new, p) (new', q)) :
    Remains allocator own (at' name) a b names room known
      (put { s with process := p } name (make new)) (put { t with process := q } name (make new')) := by
  have whole := kind.onto onto
  obtain ⟨later, keeps, beside, knows⟩ := whole.onward
  rw [add_zero] at keeps
  have located (o : O) : (make o).place name = at' name := kind.place name o
  have apart (o : O) (other : String) : (make o).place name ≠ .manager other := by
    rw [located]
    exact kind.apart
  have there : (put { s with process := p } name (make new)).find? (at' name) = some (make new) := by
    rw [find?_put, if_pos (located new)]
  refine ⟨later, keeps.region, ⟨?_, ?_, ?_, ?_, ?_⟩, knows⟩
  · intro other
    rw [managers_put _ (apart new), managers_put _ (apart new')]
    exact alone.managers other
  · rw [there, find?_put, if_pos (located new'), Option.map_some]
    exact congrArg some beside.same
  · rw [there]
    intro object is
    cases is
    exact beside.level
  · rw [occupied_of_find? there, process_put, process_put]
    have twins := beside.twins
    rw [add_zero] at twins
    exact twins
  · refine Labelled.congr (s := s) (t := t) ?_ (handles_put _ _) (symbols_put _ _ _)
      (handles_put _ _) (symbols_put _ _ _)
    refine alone.labelled.renamed keeps.region fun label symbol named matters => ?_
    have same : (make new).internerId? = (make o).internerId? := kind.symbols onto.number
    rw [there, Option.bind_some, same] at matters
    refine ⟨?_, Interner.entry_congr keeps (settled.entry_fixed found named matters)⟩
    rw [found, Option.bind_some]
    exact matters

/-- The second session has an object by the name if the first one has, and it stands for that. -/
theorem Alone.stands {objects : Session K V → Names O}
    (lookup : ∀ s : Session K V, s.find? (at' name) = ((objects s)[name]?).map make)
    (alone : Alone allocator own (at' name) a b names room s t) :
    Option.Rel (fun o o' => o' = rename names o) (objects s)[name]? (objects t)[name]? := by
  apply rel_of_map
  apply Option.map_injective kind.injective
  have same := alone.same
  rw [lookup, lookup, Option.map_map] at same
  rw [same, Option.map_map]
  exact congrArg (Option.map · _) (funext fun o => kind.rename names o)

theorem Alone.on {objects : Session K V → Names O} {x : Method O α} {y : Method O β}
    {known : α → β → Renaming → Prop}
    (lookup : ∀ s : Session K V, s.find? (at' name) = ((objects s)[name]?).map make)
    (alone : Alone allocator own (at' name) a b names more s t) (settled : s.Settled direct)
    (less : room ≤ more)
    (step : ∀ o, (objects s)[name]? = some o →
      Beside holdings rename Level allocator names 0 more (o, s.process) (rename names o, t.process) →
      Method.Tandem bound x y (o, s.process) (rename names o, t.process)
        (fun a b => Onto holdings rename Level fixed number allocator names 0 room o (known a b))
        fun _ => Onto holdings rename Level fixed number allocator names 0 room o fun _ => True) :
    Tandem bound
      (do
        let inner ← named (objects (← current)) name
        Action.within (fun session => (inner, session.process))
          (fun after session => put { session with process := after.2 } name (make after.1)) x)
      (do
        let inner ← named (objects (← current)) name
        Action.within (fun session => (inner, session.process))
          (fun after session => put { session with process := after.2 } name (make after.1)) y) s t
      (fun answer other => Remains allocator own (at' name) a b names room (known answer other))
      fun _ => Remains allocator own (at' name) a b names room fun _ => True := by
  refine .step (by rfl) (by rfl) ?_
  have same := alone.stands kind lookup
  refine lockstep_named same ⟨names, rfl, alone.less less, trivial⟩ ?_
  rintro o _ found rfl
  have present : s.find? (at' name) = some (make o) := by rw [lookup, found, Option.map_some]
  have beside : Beside holdings rename Level allocator names 0 more (o, s.process)
      (rename names o, t.process) := by
    refine kind.beside_iff.mp ⟨(kind.rename names o).symm, alone.level _ present, ?_⟩
    rw [add_zero, ← occupied_of_find? present]
    exact alone.twins
  apply Action.lockstep_within
  simp only [process_put]
  exact (step o found beside).mono (fun _ _ _ _ onto => alone.onto kind settled present onto)
    fun _ _ _ onto => alone.onto kind settled present onto

end Steps

section Places

theorem lockstep_lift {excused pardoned : Failure → Session K V → Prop} {x : Action Process α}
    {y : Action Process β} {done : α → β → Session K V → Session K V → Prop}
    {failed : Failure → Session K V → Session K V → Prop}
    (both : Lockstep (fun failure p => excused failure { s with process := p })
      (fun failure q => pardoned failure { t with process := q }) x y s.process t.process
      (fun a b p q => done a b { s with process := p } { t with process := q })
      fun failure p q => failed failure { s with process := p } { t with process := q }) :
    Lockstep excused pardoned (liftM x : Action (Session K V) α)
      (liftM y : Action (Session K V) β) s t done failed := by
  show Lockstep excused pardoned (ofProcess x) (ofProcess y) _ _ _ _
  exact Action.lockstep_within both

theorem lockstep_process {γ δ : Type} {excused pardoned : Failure → Session K V → Prop}
    {x : Action Process α} {y : Action Process β} {f : α → Action (Session K V) γ}
    {g : β → Action (Session K V) δ} {done : γ → δ → Session K V → Session K V → Prop}
    {failed : Failure → Session K V → Session K V → Prop} {middle : α → β → Process → Process → Prop}
    {stopped : Failure → Process → Process → Prop}
    (both : Lockstep (fun failure p => excused failure { s with process := p })
      (fun failure q => pardoned failure { t with process := q }) x y s.process t.process middle
      stopped)
    (stops : ∀ failure p q, stopped failure p q →
      failed failure { s with process := p } { t with process := q })
    (next : ∀ a b p q, middle a b p q →
      Lockstep excused pardoned (f a) (g b) { s with process := p } { t with process := q } done
        failed) :
    Lockstep excused pardoned ((liftM x : Action (Session K V) α) >>= f)
      ((liftM y : Action (Session K V) β) >>= g) s t done failed := by
  have lifted : Lockstep excused pardoned (liftM x : Action (Session K V) α)
      (liftM y : Action (Session K V) β) s t
      (fun a b s' t' => ∃ p q, s' = { s with process := p } ∧ t' = { t with process := q } ∧
        middle a b p q)
      fun failure s' t' => ∃ p q, s' = { s with process := p } ∧ t' = { t with process := q } ∧
        stopped failure p q :=
    lockstep_lift (both.mono (fun _ _ p q ends => ⟨p, q, rfl, rfl, ends⟩)
      fun _ p q ends => ⟨p, q, rfl, rfl, ends⟩)
  apply lifted.bind
  · rintro failure _ _ ⟨p, q, rfl, rfl, ends⟩
    exact stops failure p q ends
  · rintro a b _ _ ⟨p, q, rfl, rfl, ends⟩
    exact next a b p q ends

variable {p q : Process}

theorem Alone.carried (alone : Alone allocator own place a b names more s t)
    (twins : Twins allocator names (s.occupied place) room p q) :
    Alone allocator own place a b names room { s with process := p } { t with process := q } where
  managers := alone.managers
  same := by
    rw [find?_process, find?_process]
    exact alone.same
  level := by
    rw [find?_process]
    exact alone.level
  twins := by
    rw [occupied, find?_process]
    exact twins
  labelled := by
    rw [find?_process]
    exact alone.labelled.congr rfl rfl rfl rfl

theorem Alone.emptied (alone : Alone allocator own place a b names more s t)
    (apart : ∀ other, place ≠ .manager other) (twins : Twins allocator names 0 room p q) :
    Alone allocator own place a b names room { s.without place with process := p }
      { t.without place with process := q } := by
  have none (session : Session K V) (process : Process) :
      find? { session.without place with process } place = none := by
    rw [find?_process, find?_without, if_pos rfl]
  refine ⟨fun other => ?_, ?_, ?_, ?_, ?_⟩
  · show (t.without place).managers[other]? = (s.without place).managers[other]?
    rw [managers_without s apart, managers_without t apart]
    exact alone.managers other
  · rw [none, none]
    rfl
  · rw [none]
    exact fun object is => absurd is (Option.not_mem_none object)
  · rw [occupied_of_none (none s p)]
    exact twins
  · rw [none, Option.bind_none]
    refine Labelled.congr (s := s) (t := t) ?_ (handles_without s place) (symbols_without s place)
      (handles_without t place) (symbols_without t place)
    exact alone.labelled.renamed rfl fun _ _ _ matters => nomatch matters

theorem Alone.filled (alone : Alone allocator own place a b names more s t)
    (located : object.place name = place) (apart : ∀ other, place ≠ .manager other)
    (region : later.region = names.region) (level : object.Level later)
    (fresh : ∀ (label : String) symbol, s.symbols[label]? = some symbol →
      object.internerId? ≠ some symbol.interner)
    (twins : Twins allocator later object.holdings room p q) :
    Alone allocator own place a b later room { s.put name object with process := p }
      { t.put name (object.rename later) with process := q } := by
  have there : find? { s.put name object with process := p } place = some object := by
    rw [find?_process, find?_put, if_pos located]
  have located' : (object.rename later).place name = place :=
    (Structure.place_rename later object name).trans located
  refine ⟨fun other => ?_, ?_, ?_, ?_, ?_⟩
  · show (t.put name (object.rename later)).managers[other]? = (s.put name object).managers[other]?
    rw [managers_put s (located ▸ apart), managers_put t (located' ▸ apart)]
    exact alone.managers other
  · rw [there, find?_process, find?_put, if_pos located', Option.map_some]
  · rw [there]
    intro other is
    cases is
    exact level
  · rw [occupied_of_find? there]
    exact twins
  · rw [there, Option.bind_some]
    refine Labelled.congr (s := s) (t := t) ?_ (handles_put s object) (symbols_put s object name)
      (handles_put t _) (symbols_put t _ name)
    exact alone.labelled.renamed region fun label symbol named matters =>
      absurd matters (fresh label symbol named)

theorem lockstep_retire {excused pardoned : Failure → Session K V → Prop} {rest : Multiset Extent}
    {earlier : Option (Structure K V)}
    (twins : Twins allocator names (earlier.elim 0 Structure.holdings + rest) room s.process
      t.process) :
    Lockstep excused pardoned (retire Structure.discard earlier : Action (Session K V) Unit)
      (retire Structure.discard (earlier.map (Structure.rename names))) s t
      (fun _ _ s' t' => ∃ p q, s' = { s with process := p } ∧ t' = { t with process := q } ∧
        Twins allocator names rest room p q)
      fun _ _ _ => False := by
  cases earlier with
  | none =>
      rw [Option.elim_none, zero_add] at twins
      exact .last (by rfl) (by rfl) ⟨_, _, rfl, rfl, twins⟩
  | some object =>
      exact lockstep_lift ((Structure.discard_tandem twins).mono
        (fun _ _ p q twins => ⟨p, q, rfl, rfl, twins⟩) fun _ _ _ => False.elim)

theorem Alone.vacates {excused pardoned : Failure → Session K V → Prop}
    (alone : Alone allocator own place a b names room s t)
    (apart : ∀ other, place ≠ .manager other) :
    Lockstep excused pardoned (vacate place : Action (Session K V) (Answer K V)) (vacate place) s t
      (fun answer other s' t' => other = answer ∧ (∃ truth, answer = .truth truth) ∧
        Alone allocator own place a b names room s' t')
      fun _ _ _ => False := by
  rw [vacate]
  refine .step (by rfl) (by rfl) (.step (by rfl) (by rfl) ?_)
  rw [alone.same]
  have twins : Twins allocator names (s.occupied place + 0) room (s.without place).process
      (t.without place).process := by
    rw [add_zero, process_without, process_without]
    exact alone.twins
  refine (lockstep_retire twins).bind (fun _ _ _ => False.elim) ?_
  rintro _ _ _ _ ⟨p, q, rfl, rfl, twins⟩
  exact .last (by rfl) (by rfl)
    ⟨congrArg Answer.truth (Option.isSome_map ..), ⟨_, rfl⟩, alone.emptied apart twins⟩

theorem Alone.occupies {excused pardoned : Failure → Session K V → Prop} {other : Structure K V}
    (alone : Alone allocator own place a b names more s t)
    (located : object.place name = place) (apart : ∀ other, place ≠ .manager other)
    (keeps : names.Keeps later (s.occupied place))
    (fresh : ∀ (label : String) symbol, s.symbols[label]? = some symbol →
      object.internerId? ≠ some symbol.interner)
    (beside : Structure.Beside allocator later (s.occupied place) room (object, p) (other, q)) :
    Lockstep excused pardoned (occupy name object) (occupy name other) { s with process := p }
      { t with process := q }
      (fun _ _ => Alone allocator own place a b later room) fun _ _ _ => False := by
  obtain rfl : other = object.rename later := beside.same
  rw [occupy, occupy]
  refine .step (by rfl) (by rfl) (.step (by rfl) (by rfl) ?_)
  have earlier : t.find? place = (s.find? place).map (Structure.rename later) := by
    rw [alone.same]
    refine Option.map_congr fun object found => ?_
    exact (Structure.rename_congr (alone.level object found)
      (keeps.mono (occupied_of_find? found).ge)).symm
  rw [Structure.place_rename, located, find?_process s, find?_process t, earlier]
  have twins : Twins allocator later (s.occupied place + object.holdings) room
      (put { s with process := p } name object).process
      (put { t with process := q } name (object.rename later)).process := by
    rw [process_put, process_put, add_comm]
    exact beside.twins
  refine (lockstep_retire twins).mono ?_ fun _ _ _ => False.elim
  rintro _ _ _ _ ⟨p', q', rfl, rfl, twins⟩
  rw [put_process s p, put_process t q]
  exact alone.filled located apart keeps.region beside.level fresh twins

theorem Alone.builds {build : Manager → Action Process α} {naming : α → Action (Session K V) Unit}
    {make : α → Structure K V} (alone : Alone allocator own place a b names more s t)
    (settled : s.Settled direct) (source : String) (located : ∀ a, (make a).place name = place)
    (apart : ∀ other, place ≠ .manager other) (less : room ≤ more)
    (makes : ∀ manager p q, p.nextRegion = s.process.nextRegion →
      q.nextRegion = t.process.nextRegion → Twins allocator names (s.occupied place) more p q →
      Process.Tandem bound (build manager) (build manager) p q
        (fun a b p q => (∀ id, (make a).internerId? = some id → id = s.process.nextRegion) ∧
          names.Onward (s.occupied place) fun later =>
            Structure.Beside allocator later (s.occupied place) room (make a, p) (make b, q))
        fun _ => Twins allocator names (s.occupied place) room)
    (names_eq : ∀ a, naming a = occupy name (make a)) :
    Tandem bound
      (do
        naming (← building (some source) build)
        return (.done : Answer K V))
      (do
        naming (← building (some source) build)
        return (.done : Answer K V)) s t
      (fun answer other => Remains allocator own place a b names room fun _ =>
        answer = .done ∧ other = .done)
      fun _ => Remains allocator own place a b names room fun _ => True := by
  have fails (p q : Process) (twins : Twins allocator names (s.occupied place) room p q) :
      Remains allocator own place a b names room (fun _ => True) { s with process := p }
        { t with process := q } := ⟨names, rfl, alone.carried twins, trivial⟩
  rw [building_named, manager, bind_assoc]
  refine .step (by rfl) (by rfl) ?_
  have same (name : String) : t.managers[name]? = (s.managers[name]?).map id :=
    (alone.managers name).trans Option.map_id'.symm
  refine lockstep_named (rel_of_map (same source)) (fails _ _ (alone.twins.less less)) ?_
  rintro _ manager - rfl
  refine lockstep_process (alone.twins.retain manager) (fun _ _ _ => False.elim) ?_
  rintro _ _ p q ⟨⟨number, number'⟩, twins⟩
  rw [making]
  refine lockstep_process (Lockstep.onFailure (makes manager p q number number' twins) ?_ ?_ ?_)
    (fun _ => fails) ?_
  · exact fun _ p q twins => (twins.release manager).mono (fun _ _ _ _ => id) fun _ _ _ => False.elim
  · exact fun _ _ => Manager.release_spent
  · exact fun _ _ => Manager.release_spent
  rintro built other p q ⟨next, later, keeps, beside⟩
  refine lockstep_process (beside.twins.release manager) (fun _ _ _ => False.elim) ?_
  intro _ _ p q twins
  rw [names_eq, names_eq]
  have fresh (label : String) (symbol : Symbol) (named : s.symbols[label]? = some symbol) :
      (make built).internerId? ≠ some symbol.interner := by
    intro same
    have small := (settled.issued label symbol named).1
    have new := next symbol.interner same
    omega
  refine Lockstep.bind (alone.occupies (located built) apart keeps fresh { beside with twins })
    (fun _ _ _ => False.elim) ?_
  exact fun _ _ _ _ after => .last (by rfl) (by rfl) ⟨later, keeps.region, after, rfl, rfl⟩

end Places

end Session

end SymbolStore
