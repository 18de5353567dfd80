import SymbolStore.Proofs.Memory.Elements
import SymbolStore.Proofs.Session.Balance
import SymbolStore.Proofs.Session.Regions

/-!
Arrays in runs of requests. An array is a list: whatever is asked of it and of the other arrays, it
reads back as the list to which the same was done, wherever its elements have been moved meanwhile.
-/

namespace SymbolStore

open SymbolStore.Action (Ends)

variable {K V : Type}

/-- The lists that stand for the arrays, by name. -/
abbrev Listings := String → Option Listing

namespace Listings

def ask (listings : Listings) (name : String)
    (answer : Listing → Except Failure (Answer K V)) : Except Failure (Answer K V) :=
  match listings name with
  | some listing => answer listing
  | none => .error (.unknown name)

def alter (listings : Listings) (name : String) (change : Listing → Listing) : Listings :=
  Function.update listings name ((listings name).map change)

end Listings

namespace Command

/-- The lists after a request with this outcome. -/
def relisted (listings : Listings) : Command K V → Except Failure (Answer K V) → Listings
  | .createArray name _ element length value, .ok _ =>
    Function.update listings name (some (.copies element length value))
  | .resizeArray name length value, .ok _ =>
    listings.alter name fun listing => listing.resized length value
  | .fillArray name value, .ok _ => listings.alter name fun listing => listing.filled value
  | .setElement name index value, .ok _ =>
    listings.alter name fun listing => listing.assigned index value
  | .dropArray name, .ok _ => Function.update listings name none
  | _, _ => listings

/-- The outcome of a request to an array, by the lists. No write leaves the block of the array. There
may be no memory for a new length, and there is none if its bytes cannot be counted. -/
def Answers (listings : Listings) : Command K V → Except Failure (Answer K V) → Prop
  | .createArray .., outcome => outcome ≠ .error (.refused .outsideBlock)
  | .resizeArray name length _, outcome =>
    (outcome = listings.ask name (fun _ => .ok (.number length)) ∧
        ∀ listing ∈ listings name, listing.element.size * length < wordLimit) ∨
      ∃ listing ∈ listings name, ∃ requested,
        outcome = .error (.error (.outOfMemory requested)) ∧
          (wordLimit ≤ listing.element.size * length → requested = maxWord)
  | .fillArray name _, outcome => outcome = listings.ask name fun _ => .ok .done
  | .setElement name index _, outcome =>
    outcome = listings.ask name fun listing => (listing.item index).map fun _ => .done
  | .getElement name index, outcome =>
    outcome = listings.ask name fun listing => (listing.item index).map (.bytes ∘ some)
  | .readArray name, outcome =>
    outcome = listings.ask name fun listing => .ok (.elements listing.elements)
  | _, _ => True

theorem relisted_of_apart {command : Command K V}
    (apart : ∀ name, command.place? ≠ some (.array name)) (listings : Listings)
    (outcome : Except Failure (Answer K V)) :
    command.Answers listings outcome ∧ command.relisted listings outcome = listings := by
  cases command with
  | createArray name | resizeArray name | fillArray name | setElement name | getElement name
  | readArray name | dropArray name => exact absurd rfl (apart name)
  | _ => exact ⟨trivial, rfl⟩

theorem array_cases {command : Command K V} {name : String}
    (concerns : command.place? = some (.array name)) :
    (∃ source element length value, command = .createArray name source element length value) ∨
      (∃ length value, command = .resizeArray name length value) ∨
      (∃ value, command = .fillArray name value) ∨
      (∃ index value, command = .setElement name index value) ∨
      (∃ index, command = .getElement name index) ∨
      command = .readArray name ∨ command = .dropArray name := by
  cases command with
  | createArray _ source element length value =>
      cases concerns
      exact .inl ⟨source, element, length, value, rfl⟩
  | resizeArray _ length value =>
      cases concerns
      exact .inr (.inl ⟨length, value, rfl⟩)
  | fillArray _ value =>
      cases concerns
      exact .inr (.inr (.inl ⟨value, rfl⟩))
  | setElement _ index value =>
      cases concerns
      exact .inr (.inr (.inr (.inl ⟨index, value, rfl⟩)))
  | getElement _ index =>
      cases concerns
      exact .inr (.inr (.inr (.inr (.inl ⟨index, rfl⟩))))
  | readArray =>
      cases concerns
      exact .inr (.inr (.inr (.inr (.inr (.inl rfl)))))
  | dropArray =>
      cases concerns
      exact .inr (.inr (.inr (.inr (.inr (.inr rfl)))))
  | _ => cases concerns

end Command

namespace Session

def listing? (session : Session K V) (name : String) : Option Listing :=
  (session.arrays[name]?).map fun array => array.listing session.process.heap

end Session

namespace Event

/-- The system resized the block of an array, and no further allocation can be counted. -/
def Overcounts (event : Event K V) : Prop :=
  ∃ name length value array, event.command = .resizeArray name length value ∧
    event.before.arrays[name]? = some array ∧
    event.outcome = .error (.fault (.overflow .add)) ∧
    (array.manager.ledgerIn event.before.process).Exhausted

/-- The request was answered as by the lists, all arrays read back as their lists afterwards, each
array has a block of as many bytes as its list, and these are all counted. -/
structure Lists (event : Event K V) (listings : Listings) : Prop where
  answers : event.command.Answers listings event.outcome
  reads : event.after.listing? = event.command.relisted listings event.outcome
  holds : ∀ name array listing, event.after.arrays[name]? = some array →
    event.command.relisted listings event.outcome name = some listing →
    array.manager.Holds event.after.process array.block
      (listing.element.size * listing.elements.length)
  accords : event.after.Accords event.claimed

end Event

namespace Session

variable {α : Type} {session later : Session K V} {direct : Multiset Extent} {name : String}
  {array : FlatArray} {command : Command K V}

theorem listing?_of_named (named : session.arrays[name]? = some array) :
    session.listing? name = some (array.listing session.process.heap) := by
  rw [listing?, named]
  rfl

theorem Leaves.listing? {touched : Place → Prop} (leaves : session.Leaves later touched)
    (apart : ¬ touched (.array name)) : later.listing? name = session.listing? name := by
  have found := leaves.found _ apart
  have same : later.arrays[name]? = session.arrays[name]? :=
    Option.map_injective (fun _ _ => Structure.array.inj) found
  cases named : session.arrays[name]? with
  | none =>
      rw [Session.listing?, Session.listing?, same, named]
      rfl
  | some array =>
      rw [listing?_of_named named, listing?_of_named (same.trans named)]
      exact congrArg some (FlatArray.listing_congr
        (leaves.intact _ _ apart (find?_array named) _ (Multiset.mem_singleton_self _)))

theorem Follows.listing?_eq {direct' : Multiset Extent}
    (follows : session.Follows direct direct' (some (.array name)) later) :
    later.listing? = Function.update session.listing? name (later.listing? name) := by
  funext other
  by_cases same : other = name
  · rw [same, Function.update_self]
  · rw [Function.update_of_ne same]
    apply follows.leaves.listing?
    intro touched
    cases touched
    exact same rfl

theorem Settled.holds_array (settled : session.Settled direct)
    (named : session.arrays[name]? = some array) :
    array.manager.Holds session.process array.block (array.element.size * array.length) := by
  obtain ⟨account, stocked⟩ := settled.stocked (mem_structures.mpr ⟨_, find?_array named⟩)
  exact stocked.houses.held (Multiset.mem_singleton_self _)

theorem Settled.block_array (settled : session.Settled direct)
    (named : session.arrays[name]? = some array) :
    ∃ block, session.process.heap.find? array.block = some block := by
  obtain ⟨block, found, -⟩ := (settled.holds_array named).present
  exact ⟨block, found⟩

/-- The request is answered as by the lists, and the arrays read back as their lists. -/
def Relists (session : Session K V) (command : Command K V)
    (outcome : Except Failure (Answer K V)) (later : Session K V) : Prop :=
  command.Answers session.listing? outcome ∧
    later.listing? = command.relisted session.listing? outcome

def Relisting (session : Session K V) (command : Command K V) : Prop :=
  Ends (perform command) session (fun a later => session.Relists command (.ok a) later)
    fun failure later => session.Relists command (.error failure) later

/-- The same, where only the array of this name is another one, and its process. -/
def RelistsAt (session : Session K V) (name : String) (command : Command K V)
    (outcome : Except Failure (Answer K V)) (after : FlatArray × Process) : Prop :=
  command.Answers session.listing? outcome ∧
    Function.update session.listing? name (some (after.1.listing after.2.heap)) =
      command.relisted session.listing? outcome

theorem Settled.relists {x : Method FlatArray α} {done : FlatArray → α → FlatArray × Process → Prop}
    {failed : FlatArray → Failure → FlatArray × Process → Prop} (answer : α → Answer K V)
    (settled : session.Settled direct)
    (performs : perform command = onArray name x >>= fun a => pure (answer a))
    (absent : session.listing? name = none →
      session.Relists command (.error (.unknown name)) session)
    (stepping : ∀ array, session.arrays[name]? = some array →
      session.Stepping .array x array (done array) (failed array))
    (lists : ∀ array, session.arrays[name]? = some array →
      session.listing? name = some (array.listing session.process.heap) →
      Ends x (array, session.process)
        (fun a after => session.RelistsAt name command (.ok (answer a)) after)
        fun failure after => session.RelistsAt name command (.error failure) after) :
    session.Relisting command := by
  rw [Relisting, performs, Action.ends_bind]
  apply ends_within_named
  · intro none
    apply absent
    rw [listing?, none]
    rfl
  · intro array named
    have located : Structure.place name (.array array : Structure K V) = .array name := rfl
    have relists {outcome : Except Failure (Answer K V)} {after : FlatArray × Process}
        (follows : session.Follows direct direct (some (.array name))
          (put { session with process := after.2 } name (.array after.1)))
        (there : session.RelistsAt name command outcome after) :
        session.Relists command outcome
          (put { session with process := after.2 } name (.array after.1)) := by
      refine ⟨there.1, follows.listing?_eq.trans ?_⟩
      rw [listing?_of_named Std.TreeMap.getElem?_insert_self]
      exact there.2
    apply (settled.step (find?_array named) located
      ((stepping array named).and (lists array named (listing?_of_named named)))).mono
    · exact fun _ _ ends => relists ends.1 ends.2.2
    · exact fun _ _ ends => relists ends.2.1 ends.2.2.2

section Listed

variable {listing : Listing} (listed : session.listing? name = some listing)
include listed

theorem ask_listed (answer : Listing → Except Failure (Answer K V)) :
    Listings.ask session.listing? name answer = answer listing := by
  rw [Listings.ask, listed]

theorem update_alter (change : Listing → Listing) :
    Function.update session.listing? name (some (change listing)) =
      Listings.alter session.listing? name change := by
  rw [Listings.alter, listed]
  rfl

theorem update_listed : Function.update session.listing? name (some listing) = session.listing? := by
  rw [← listed, Function.update_eq_self]

end Listed

theorem ask_absent (absent : session.listing? name = none)
    (answer : Listing → Except Failure (Answer K V)) :
    Listings.ask session.listing? name answer = .error (.unknown name) := by
  rw [Listings.ask, absent]

section Requests

variable (settled : session.Settled direct)
include settled

theorem relists_fillArray (name : String) (value : List UInt8) :
    session.Relisting (.fillArray name value) := by
  apply settled.relists (fun _ => .done) rfl ?_ (fun _ _ => stepping_fill) ?_
  · exact fun none => ⟨(ask_absent none _).symm, rfl⟩
  · intro array named listed
    apply (FlatArray.fill_lists (settled.holds_array named) value).mono ?_ fun _ _ none => none.elim
    intro _ after filled
    refine ⟨(ask_listed listed fun _ => .ok .done).symm, ?_⟩
    rw [filled]
    exact update_alter listed fun listing => listing.filled value

theorem relists_setElement (name : String) (index : Nat) (value : List UInt8) :
    session.Relisting (.setElement name index value) := by
  apply settled.relists (fun _ => .done) rfl ?_ (fun _ _ => stepping_set) ?_
  · exact fun none => ⟨(ask_absent none _).symm, rfl⟩
  · intro array named listed
    have asked := ask_listed (K := K) (V := V) listed fun listing =>
      (listing.item index).map fun _ => .done
    apply (FlatArray.set_lists (settled.holds_array named) index value).mono
    · intro _ after written
      obtain ⟨⟨old, item⟩, reads⟩ := written
      rw [item] at asked
      refine ⟨asked.symm, ?_⟩
      rw [reads]
      exact update_alter listed fun listing => listing.assigned index value
    · intro failure after outside
      obtain ⟨item, rfl⟩ := outside
      rw [item] at asked
      exact ⟨asked.symm, update_listed listed⟩

theorem relists_getElement (name : String) (index : Nat) :
    session.Relisting (.getElement name index) := by
  apply settled.relists (.bytes ∘ some) rfl ?_ (fun _ _ => stepping_get) ?_
  · exact fun none => ⟨(ask_absent none _).symm, rfl⟩
  · intro array named listed
    have asked := ask_listed (K := K) (V := V) listed fun listing =>
      (listing.item index).map (.bytes ∘ some)
    apply (FlatArray.get_lists index).mono
    · intro bytes after read
      obtain ⟨item, rfl⟩ := read
      rw [item] at asked
      exact ⟨asked.symm, update_listed listed⟩
    · intro failure after outside
      obtain ⟨item, rfl⟩ := outside
      rw [item] at asked
      exact ⟨asked.symm, update_listed listed⟩

theorem relists_readArray (name : String) :
    session.Relisting (.readArray name) := by
  apply settled.relists id (bind_pure _).symm ?_ (fun array _ =>
    stepping_tells (.array (.refl array)) fun array heap => Answer.elements (array.toList heap)) ?_
  · exact fun none => ⟨(ask_absent none _).symm, rfl⟩
  · intro array named listed
    exact ⟨(ask_listed listed fun listing => .ok (.elements listing.elements)).symm,
      update_listed listed⟩

theorem relists_resizeArray {length : Nat} {value : List UInt8}
    (counted : ∀ array, session.arrays[name]? = some array →
      array.Counted session.process length value) :
    session.Relisting (.resizeArray name length value) := by
  apply settled.relists (fun _ => .number length) rfl ?_ (fun array named =>
    stepping_resize (manager_mem_holders (find?_array named)) (counted array named)) ?_
  · intro none
    refine ⟨.inl ⟨(ask_absent none _).symm, ?_⟩, rfl⟩
    intro listing member
    rw [none] at member
    cases member
  · intro array named listed
    have resizes := FlatArray.resize_lists length value (settled.holds_array named)
      settled.houses.sound settled.houses.powers
    apply (resizes.and (Action.ends_ran _ _)).mono
    · intro _ after ends
      obtain ⟨⟨small, reads⟩, -⟩ := ends
      refine ⟨.inl ⟨(ask_listed listed fun _ => .ok (.number length)).symm, ?_⟩, ?_⟩
      · intro listing member
        cases listed.symm.trans member
        exact small
      · rw [reads]
        exact update_alter listed fun listing => listing.resized length value
    · intro failure after ends
      obtain ⟨⟨requested, rfl, beyond, reads⟩ | ⟨rfl, exhausted⟩, ran⟩ := ends
      · refine ⟨.inr ⟨_, listed, requested, rfl, beyond⟩, ?_⟩
        rw [reads]
        exact update_listed listed
      · exact absurd exhausted (counted array named after ran)

/-- An array that was built reads back as copies of its value, also when the handle for building is
let go. -/
theorem building_lists (source : String) (element : Layout) (length : Nat) (value : List UInt8) :
    Ends (building (some source) fun manager => FlatArray.create manager element length value) session
      (fun array later => array.listing later.process.heap = .copies element length value)
      fun failure _ => failure ≠ .refused .outsideBlock := by
  obtain ⟨account, holders, -, begun⟩ := settled.aside
  simp only [Session.building, Session.manager, Action.ends_bind, ends_current, ends_named,
    ends_liftProcess, Action.ends_pure]
  cases named : session.managers[source]? with
  | none => exact Failure.noConfusion
  | some manager =>
      have held := manager_mem_holders (find?_manager named)
      change manager ∈ _ at held
      rw [Session.holders, ← holders] at held
      apply (begun.retain held).mono ?_ fun _ _ none => none.elim
      intro _ start there
      rw [Action.ends_onFailure]
      apply (FlatArray.create_lists element length value there.sound).mono
      · intro array middle made
        apply (manager.release_heap middle).mono ?_ fun _ _ none => none.elim
        intro _ last same
        exact (FlatArray.listing_congr (congrFun (congrArg Heap.find? same) _)).trans made
      · intro failure middle inside
        exact (Action.ends_trivial _ _).mono (fun _ _ _ => inside) fun _ _ _ => inside

omit settled in
/-- An array takes its name, and nothing is taken away but the block of the one that had it. -/
theorem nameArray_erases (name : String) (array : FlatArray) :
    Ends (nameArray name array) session
      (fun _ later => session.process.Erases later.process ∧ later.arrays[name]? = some array)
      fun _ _ => True := by
  have there : (session.arrays.insert name array)[name]? = some array :=
    Std.TreeMap.getElem?_insert_self
  simp only [nameArray, Action.ends_bind, ends_current, ends_update]
  cases session.arrays[name]? with
  | none => exact ⟨Process.erases_of_heap rfl, there⟩
  | some earlier =>
      rw [retire, ends_ofProcess]
      exact (earlier.discard_erases session.process).mono (fun _ _ erases => ⟨erases, there⟩)
        fun _ _ _ => trivial

theorem relists_createArray (name source : String) (element : Layout) (length : Nat)
    (value : List UInt8) :
    session.Relisting (.createArray name source element length value) := by
  rw [Relisting, perform, Action.ends_bind]
  apply ((settled.building (array_builds element length value) (some source)).and
    (building_lists settled source element length value)).mono
  · intro array middle ends
    obtain ⟨⟨-, process, rfl, arranged, undisturbed⟩, made⟩ := ends
    have erases : Ends (nameArray name array) { session with process } _ _ :=
      nameArray_erases name array
    rw [nameArray_eq] at erases ⊢
    apply ((settled.occupied arranged undisturbed).and erases).bind fun _ _ failed => failed.1.elim
    intro _ later named
    obtain ⟨⟨follows, -⟩, erases, named⟩ := named
    -- The array that had the name is gone, and the new one still has the block that it was given.
    obtain ⟨block, found⟩ := follows.settled.block_array named
    have same := (erases _ _ found).trans found.symm
    constructor
    · intro refused
      cases refused
    · rw [follows.listing?_eq, listing?_of_named named, ← FlatArray.listing_congr same, made]
      rfl
  · intro failure later ends
    obtain ⟨⟨-, follows⟩, inside⟩ := ends
    refine ⟨?_, funext fun other => follows.leaves.listing? (Option.not_mem_none _)⟩
    intro refused
    exact inside (Except.error.inj refused)

theorem relists_dropArray (name : String) :
    session.Relisting (.dropArray name) := by
  have drops : perform (.dropArray name : Command K V) = vacate (.array name) :=
    perform_drop (.array name)
  rw [Relisting, drops]
  apply (settled.vacated _).mono ?_ fun _ _ none => none.elim
  intro answer later gone
  obtain ⟨follows, -, absent⟩ := gone
  refine ⟨trivial, follows.listing?_eq.trans ?_⟩
  rw [listing?, Option.map_eq_none_iff.mp absent]
  rfl

theorem relists_of_concerns (concerns : command.place? = some (.array name))
    (other : ∀ length value, command ≠ .resizeArray name length value) :
    session.Relisting command := by
  rcases Command.array_cases concerns with ⟨source, element, length, value, rfl⟩ |
    ⟨length, value, rfl⟩ | ⟨value, rfl⟩ | ⟨index, value, rfl⟩ | ⟨index, rfl⟩ | rfl | rfl
  · exact relists_createArray settled name source element length value
  · exact absurd rfl (other length value)
  · exact relists_fillArray settled name value
  · exact relists_setElement settled name index value
  · exact relists_getElement settled name index
  · exact relists_readArray settled name
  · exact relists_dropArray settled name

end Requests

end Session

namespace Event

variable {event : Event K V}

theorem Lawful.relists (lawful : event.Lawful)
    (other : ∀ name length value, event.command ≠ .resizeArray name length value) :
    event.before.Relists event.command event.outcome event.after := by
  by_cases concerns : ∃ name, event.command.place? = some (.array name)
  · obtain ⟨name, concerns⟩ := concerns
    exact lawful.ends (P := event.before.Relists event.command)
      (Session.relists_of_concerns lawful.settled concerns (other name))
  · have apart : ∀ name, event.command.place? ≠ some (.array name) := not_exists.mp concerns
    obtain ⟨answers, same⟩ :=
      Command.relisted_of_apart apart event.before.listing? event.outcome
    refine ⟨answers, Eq.trans (funext fun name => ?_) same.symm⟩
    exact lawful.follows.leaves.listing? (apart name)

theorem lists_of_settled
    (relists : event.before.Relists event.command event.outcome event.after)
    (settled : event.after.Settled event.claimed) : event.Lists event.before.listing? where
  answers := relists.1
  reads := relists.2
  holds name array listing named listed := by
    rw [← relists.2, Session.listing?_of_named named] at listed
    cases listed
    have length := array.length_toList event.after.process.heap
    have held := settled.holds_array named
    rw [← length] at held
    exact held
  accords := settled.accords

/-- From these lists on, all requests are answered as by the lists and do to the arrays what they do
to the lists, up to a change of the length that cannot be counted. -/
def Listed : Listings → List (Event K V) → Prop
  | _, [] => True
  | listings, event :: events => event.Overcounts ∨
      event.Lists listings ∧ Listed (event.command.relisted listings event.outcome) events

end Event

namespace Session

variable {session : Session K V} {direct : Multiset Extent} {command : Command K V}

/-- A client without blocks of its own is proper, unless a change of a length cannot be counted. -/
theorem proper_of_apart (apart : command.target? = none)
    (other : ∀ name length value, command ≠ .resizeArray name length value) :
    session.Proper command where
  apart := by
    rw [apart]
    exact nofun
  countable := by
    cases command with
    | reallocate | reallocateArray => cases apart
    | resizeArray name length value => exact absurd rfl (other name length value)
    | _ => exact nofun
  given := by
    rw [apart]
    exact fun _ _ _ _ => nofun

theorem outcome_resizeArray {name : String} {length : Nat} {value : List UInt8} {array : FlatArray}
    {failure : Failure} {after : FlatArray × Process}
    (named : session.arrays[name]? = some array)
    (ran : (FlatArray.resize length value).runFrom (array, session.process) =
      (.error failure, after)) :
    (session.event direct (.resizeArray name length value)).outcome = .error failure := by
  have stops : Ends (onArray name (FlatArray.resize length value)) session (fun _ _ => False)
      fun told _ => told = failure := by
    apply ends_within_named
    · intro none
      rw [named] at none
      cases none
    · intro inner there
      cases there.symm.trans named
      unfold Ends
      rw [ran]
  have fails : Ends (perform (.resizeArray name length value)) session (fun _ _ => False)
      fun told _ => told = failure :=
    stops.bind (fun _ _ same => same) fun _ _ none => none.elim
  rcases result : (perform (.resizeArray name length value)).runFrom session with
    ⟨told | answer, last⟩
  · rw [event, result, fails.of_error result]
  · exact (fails.of_ok result).elim

theorem Settled.lists (settled : session.Settled direct) (apart : command.target? = none) :
    (session.event direct command).Overcounts ∨
      (session.event direct command).Lists session.listing? ∧
        (session.event direct command).after.Settled (session.event direct command).claimed := by
  -- A manager that can count no further allocation may still refuse to resize, as the lists say.
  by_cases resizes : ∃ name length value, command = .resizeArray name length value
  · obtain ⟨name, length, value, rfl⟩ := resizes
    by_cases uncounted : (session.event direct (.resizeArray name length value)).Overcounts
    · exact .inl uncounted
    · have counted (array : FlatArray) (named : session.arrays[name]? = some array) :
          array.Counted session.process length value := by
        intro after ran exhausted
        exact uncounted ⟨name, length, value, array, rfl, named, outcome_resizeArray named ran,
          exhausted⟩
      have fulfils : session.Fulfils direct (.resizeArray name length value) :=
        fulfils_resizeArray settled counted
      obtain ⟨relists, there⟩ := (Action.ends_outcome (P := fun outcome later =>
        session.Relists (.resizeArray name length value) outcome later ∧ later.Settled
          (Event.claimed ⟨session, direct, .resizeArray name length value, outcome, later⟩))).mp
            ((Ends.and (relists_resizeArray settled counted) fulfils).mono
              (fun _ _ both => ⟨both.1, both.2.settled⟩)
              fun _ _ both => ⟨both.1, both.2.2.settled⟩)
      exact .inr ⟨Event.lists_of_settled relists there, there⟩
  · have other : ∀ name length value, command ≠ .resizeArray name length value :=
      fun name length value same => resizes ⟨name, length, value, same⟩
    have lawful := settled.lawful_event (proper_of_apart apart other)
    exact .inr ⟨Event.lists_of_settled (lawful.relists other) lawful.follows.settled,
      lawful.follows.settled⟩

/-- From a settled session on, the arrays go on as their lists do. -/
theorem Settled.listed {commands : List (Command K V)} (settled : session.Settled direct)
    (apart : ∀ command ∈ commands, command.target? = none) :
    Event.Listed session.listing? (session.history direct commands) := by
  induction commands generalizing session direct with
  | nil => trivial
  | cons command commands ih =>
      rw [history_cons]
      rcases settled.lists (apart command List.mem_cons_self) with uncounted | ⟨lists, there⟩
      · exact .inl uncounted
      · refine .inr ⟨lists, ?_⟩
        have rest := ih there fun other member => apart other (List.mem_cons_of_mem command member)
        rw [lists.reads] at rest
        exact rest

/-- In every run from the start, with arrays of any elements on managers of any kind and limit,
tracked or raw, whatever the allocator decides and whatever else is done in between: after every
request every array reads back as the list to which the same requests were made, each of them for its
own array alone, and no write to an array leaves its block. A request for an element, or for all, is
answered as by the list. A change of the length keeps the elements that stay and adds copies of the
new one, or there is no memory, as always if the bytes cannot be counted, and then the list is as it
was. The live bytes of a tracked manager are those of its arrays, the length times the size of an
element for each, and of the other structures. A run ends where the system resizes an array when
2⁶⁴ − 1 allocations were counted. -/
theorem arrays_are_lists {allocator : Allocator} (lawful : allocator.Lawful) (journal : Journal)
    (config : Config) {commands : List (Command K V)}
    (apart : ∀ command ∈ commands, command.target? = none) :
    Event.Listed (fun _ => none) ((start journal config allocator).history 0 commands) := by
  have none : (start journal config allocator : Session K V).listing? = fun _ => none := by
    funext name
    rw [listing?, start, Std.TreeMap.getElem?_emptyc]
    rfl
  rw [← none]
  exact (settled_start lawful journal config).listed apart

/-- Three arrays under a limit of 40 bytes, one of them of elements without bytes. They grow, shrink
to nothing and come back, and two of the requests find no memory. -/
def sampleArrays : List (Command Nat Nat) :=
  [.createManager "m" (Config.tracked.withByteLimit 40), .createArray "a" "m" ⟨4, 4⟩ 2 [1],
    .createArray "b" "m" ⟨0, 1⟩ 3 [], .createArray "c" "m" ⟨2, 2⟩ 4 [5], .setElement "a" 1 [9],
    .resizeArray "a" 4 [2], .resizeArray "a" 1 [3], .resizeArray "a" 3 [4],
    .resizeArray "a" 9 [6], .resizeArray "a" (2 ^ 62) [6], .fillArray "c" [8],
    .resizeArray "c" 0 [], .resizeArray "c" 2 [7], .readArray "a"]

theorem arrays_are_lists_sampleArrays :
    (∀ command ∈ sampleArrays, command.target? = none) ∧
    ((start {} {} .ascending).history 0 sampleArrays).map (fun event => event.outcome.isOk) =
      [true, true, true, true, true, true, true, true, false, false, true, true, true, true] ∧
    (performAll (start {} {} .ascending) sampleArrays).2.listing? "a" =
      some ⟨⟨4, 4⟩, [[1, 0, 0, 0], [4, 0, 0, 0], [4, 0, 0, 0]]⟩ ∧
    (performAll (start {} {} .ascending) sampleArrays).2.listing? "b" =
      some ⟨⟨0, 1⟩, [[], [], []]⟩ ∧
    (performAll (start {} {} .ascending) sampleArrays).2.listing? "c" =
      some ⟨⟨2, 2⟩, [[7, 0], [7, 0]]⟩ ∧
    Event.Listed (fun _ => none) ((start {} {} .ascending).history 0 sampleArrays) := by
  have apart : ∀ command ∈ sampleArrays, command.target? = none := by decide
  exact ⟨apart, by decide +kernel, by decide +kernel, by decide +kernel, by decide +kernel,
    arrays_are_lists Allocator.ascending_lawful {} {} apart⟩

end Session

end SymbolStore
