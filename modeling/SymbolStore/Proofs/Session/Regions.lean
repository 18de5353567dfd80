import SymbolStore.Proofs.Session.History

/-!
Regions in runs of requests. A region is as it was, except that bytes may have been added, until it
is reset; every reset counts its generation up; and another region never has its number.
-/

namespace SymbolStore

open SymbolStore.Action (Ends)

variable {K V : Type}

namespace Command

theorem region_cases {command : Command K V} {name : String}
    (concerns : command.place? = some (.region name)) :
    (∃ source chunkSize, command = .createRegion name source chunkSize) ∨
      (∃ range content, command = .storeRange name range content) ∨
      (∃ bytes label, command = .storeBytes name bytes label) ∨
      command = .resetRegion name ∨ command = .dropRegion name := by
  cases command with
  | createRegion _ source chunkSize =>
      cases concerns
      exact .inl ⟨source, chunkSize, rfl⟩
  | storeRange _ range content =>
      cases concerns
      exact .inr (.inl ⟨range, content, rfl⟩)
  | storeBytes _ bytes label =>
      cases concerns
      exact .inr (.inr (.inl ⟨bytes, label, rfl⟩))
  | resetRegion =>
      cases concerns
      exact .inr (.inr (.inr (.inl rfl)))
  | dropRegion =>
      cases concerns
      exact .inr (.inr (.inr (.inr rfl)))
  | _ => cases concerns

end Command

namespace Event

def resets (event : Event K V) (id : Nat) : Bool :=
  match event.command with
  | .resetRegion name => (event.before.regions[name]?).any fun region => region.id = id
  | _ => false

/-- The request makes a region of this name, or takes one out of existence. -/
def renews (event : Event K V) (name : String) : Bool :=
  match event.command, event.outcome with
  | .createRegion other .., .ok _ | .dropRegion other, _ => other = name
  | _, _ => false

def resetCount (events : List (Event K V)) (id : Nat) : Nat :=
  events.countP fun event => event.resets id

theorem resetCount_cons (event : Event K V) (events : List (Event K V)) (id : Nat) :
    resetCount (event :: events) id = (event.resets id).toNat + resetCount events id := by
  rw [resetCount, List.countP_cons, Nat.add_comm]
  cases event.resets id <;> rfl

theorem resetCount_append (earlier later : List (Event K V)) (id : Nat) :
    resetCount (earlier ++ later) id = resetCount earlier id + resetCount later id :=
  List.countP_append

theorem resetCount_eq_zero {events : List (Event K V)} {id : Nat} :
    resetCount events id = 0 ↔ ∀ event ∈ events, event.resets id = false := by
  simp only [resetCount, List.countP_eq_zero, Bool.not_eq_true]

/-- How a region comes to be under its name after a request. -/
inductive Yields (event : Event K V) (name : String) (region : Region) : Prop
  | fresh (renewed : event.renews name = true)
      (new : event.before.process.nextRegion ≤ region.id) (first : region.generation = 0)
  | lasting (earlier : Region) (still : event.renews name = false)
      (asked : ∀ other, event.command = .resetRegion other → other ≠ name)
      (named : event.before.regions[name]? = some earlier)
      (lasts : earlier.Lasts event.before.process (region, event.after.process))
  | reset (earlier : Region) (asked : event.command = .resetRegion name)
      (named : event.before.regions[name]? = some earlier) (id : region.id = earlier.id)
      (generation : region.generation = earlier.generation + 1 ∨
        region.generation = earlier.generation ∧ wordLimit ≤ earlier.generation + 1)

variable {event : Event K V} {name : String} {region : Region}

theorem Lawful.ends (lawful : event.Lawful)
    {P : Except Failure (Answer K V) → Session K V → Prop}
    (ends : Ends (Session.perform event.command) event.before
      (fun answer later => P (.ok answer) later) fun failure later => P (.error failure) later) :
    P event.outcome event.after := by
  have outcomes := Action.ends_outcome.mp ends
  rw [lawful.performed] at outcomes
  exact outcomes

theorem place?_of_renews (renewed : event.renews name = true) :
    event.command.place? = some (.region name) := by
  unfold renews at renewed
  split at renewed
  · rename_i asked _
    rw [asked, ← of_decide_eq_true renewed]
    rfl
  · rename_i asked
    rw [asked, ← of_decide_eq_true renewed]
    rfl
  · cases renewed

end Event

namespace Session

variable {session later : Session K V} {name : String} {region : Region}

theorem regions_of_find? (found : session.find? (.region name) = some (.region region)) :
    session.regions[name]? = some region := by
  obtain ⟨other, named, same⟩ := Option.map_eq_some_iff.mp found
  cases same
  exact named

theorem Leaves.lasts {touched : Place → Prop} (leaves : session.Leaves later touched)
    (apart : ¬ touched (.region name)) (named : later.regions[name]? = some region) :
    session.regions[name]? = some region ∧
      region.Lasts session.process (region, later.process) := by
  have found := (leaves.found _ apart).symm.trans (find?_region named)
  refine ⟨regions_of_find? found, .intact rfl ?_⟩
  intro block member
  obtain ⟨extent, belongs, rfl⟩ := Multiset.mem_map.mp (Region.mem_holdings member)
  exact leaves.intact _ _ apart found extent belongs

end Session

namespace Event

variable {event : Event K V} {name : String} {region : Region}

theorem yields_of_leaves {touched : Place → Prop} (leaves : event.before.Leaves event.after touched)
    (apart : ¬ touched (.region name)) (still : event.renews name = false)
    (asked : event.command ≠ .resetRegion name)
    (named : event.after.regions[name]? = some region) : event.Yields name region := by
  obtain ⟨before, lasts⟩ := leaves.lasts apart named
  exact .lasting region still (fun other same equal => asked (equal ▸ same)) before lasts

end Event

namespace Session

variable {session later : Session K V} {direct : Multiset Extent} {command : Command K V}
  {name : String} {region : Region}

def Yielding (session : Session K V) (direct : Multiset Extent) (command : Command K V)
    (name : String) : Prop :=
  Ends (perform command) session
    (fun answer later => ∀ region, later.regions[name]? = some region →
      Event.Yields ⟨session, direct, command, .ok answer, later⟩ name region)
    fun failure later => ∀ region, later.regions[name]? = some region →
      Event.Yields ⟨session, direct, command, .error failure, later⟩ name region

theorem yields_of_failed {failure : Failure} (asked : command ≠ .resetRegion name)
    (still : Event.renews ⟨session, direct, command, .error failure, later⟩ name = false)
    (named : later.regions[name]? = some region)
    (failed : later = session ∨ ∃ earlier after, session.find? (.region name) = some (.region earlier) ∧
      later.find? (.region name) = some (.region after) ∧
      earlier.Misses session.process (after, later.process)) :
    Event.Yields ⟨session, direct, command, .error failure, later⟩ name region := by
  have other : ∀ other, command = .resetRegion other → other ≠ name :=
    fun other same equal => asked (equal ▸ same)
  rcases failed with rfl | ⟨earlier, after, before, found, misses⟩
  · exact .lasting region still other named (.intact rfl fun _ _ => rfl)
  · cases (regions_of_find? found).symm.trans named
    exact .lasting earlier still other (regions_of_find? before) (.misses misses)

section Requests

variable (settled : session.Settled direct)
include settled

theorem yielding_createRegion (name : String) (source : Option String) (chunkSize : Nat) :
    session.Yielding direct (.createRegion name source chunkSize) name := by
  apply (settled.creates (region_builds chunkSize) (fun _ => rfl) (nameRegion_eq name) source).mono
  · intro answer later made region named
    obtain ⟨-, -, fresh, found, ⟨-, first⟩, new⟩ := made
    cases (regions_of_find? found).symm.trans named
    exact .fresh (decide_eq_true rfl) (new _ rfl) first
  · intro failure later failed region named
    exact Event.yields_of_leaves failed.2.leaves (Option.not_mem_none _) rfl nofun named

theorem yielding_storeRange (name : String) (range : Layout) (content : Nat → UInt8) :
    session.Yielding direct (.storeRange name range content) name := by
  apply ((onRegion_acts settled fun _ there => stepping_store range content
    (manager_mem_holders (find?_region there))).answers _).mono
  · intro answer later stored region named
    obtain ⟨-, -, earlier, _, before, found, _, -, place, -, writes⟩ := stored
    cases (regions_of_find? found).symm.trans named
    exact .lasting earlier rfl nofun (regions_of_find? before) (.writes _ _ _ writes)
  · intro failure later failed region named
    exact yields_of_failed nofun rfl named failed.2.2.2

theorem storeBytes_ends (name : String) (bytes : List UInt8) (label : Option String) :
    Ends (perform (.storeBytes name bytes label)) session
      (fun answer later => ∃ earlier after place,
        answer = .handle (earlier.handleFor place bytes.length) ∧
        session.regions[name]? = some earlier ∧ later.regions[name]? = some after ∧
        earlier.Writes session.process { size := bytes.length, align := 1 } bytes place
          (after, later.process))
      fun _ later => later = session ∨ ∃ earlier after,
        session.find? (.region name) = some (.region earlier) ∧
        later.find? (.region name) = some (.region after) ∧
        earlier.Misses session.process (after, later.process) := by
  rw [perform, Action.ends_bind]
  apply Ends.mono (onRegion_acts settled fun _ there => stepping_storeBytes bytes
    (manager_mem_holders (find?_region there)))
  · intro handle later stored
    obtain ⟨-, -, earlier, after, before, found, place, rfl, writes⟩ := stored
    cases label with
    | none | some =>
        exact ⟨earlier, after, place, rfl, regions_of_find? before, regions_of_find? found, writes⟩
  · exact fun _ _ failed => failed.2.2.2

theorem yielding_storeBytes (name : String) (bytes : List UInt8) (label : Option String) :
    session.Yielding direct (.storeBytes name bytes label) name := by
  apply (storeBytes_ends settled name bytes label).mono
  · intro answer later stored region named
    obtain ⟨earlier, after, place, -, before, there, writes⟩ := stored
    cases there.symm.trans named
    exact .lasting earlier rfl nofun before (.writes _ _ _ writes)
  · intro failure later failed region named
    exact yields_of_failed nofun rfl named failed

theorem yielding_resetRegion (name : String) :
    session.Yielding direct (.resetRegion name) name := by
  rw [Yielding, perform, Action.ends_bind]
  apply ends_within_named
  · intro absent region named
    rw [absent] at named
    cases named
  · intro earlier there
    have located : Structure.place name (.region earlier : Structure K V) = .region name := rfl
    apply (settled.step (find?_region there) located stepping_reset).mono
    · intro _ after ran region named
      cases Std.TreeMap.getElem?_insert_self.symm.trans named
      rw [ran.2]
      exact .reset earlier rfl there rfl (.inl rfl)
    · intro failure after failed region named
      obtain ⟨-, -, last, rewound⟩ := failed
      cases Std.TreeMap.getElem?_insert_self.symm.trans named
      rw [rewound]
      exact .reset earlier rfl there rfl (.inr ⟨rfl, last⟩)

theorem yielding_dropRegion (name : String) :
    session.Yielding direct (.dropRegion name) name := by
  have drops : perform (.dropRegion name : Command K V) = vacate (.region name) :=
    perform_drop (.region name)
  rw [Yielding, drops]
  apply (settled.vacated _).mono ?_ fun _ _ none => none.elim
  intro answer later gone region named
  rw [find?_region named] at gone
  cases gone.2.2

theorem yielding_of_concerns (concerns : command.place? = some (.region name)) :
    session.Yielding direct command name := by
  rcases Command.region_cases concerns with ⟨source, chunkSize, rfl⟩ | ⟨range, content, rfl⟩ |
    ⟨bytes, label, rfl⟩ | rfl | rfl
  · exact yielding_createRegion settled name source chunkSize
  · exact yielding_storeRange settled name range content
  · exact yielding_storeBytes settled name bytes label
  · exact yielding_resetRegion settled name
  · exact yielding_dropRegion settled name

end Requests

end Session

theorem Event.Lawful.yields {event : Event K V} {name : String} {region : Region}
    (lawful : event.Lawful) (named : event.after.regions[name]? = some region) :
    event.Yields name region := by
  by_cases concerns : event.command.place? = some (.region name)
  · obtain ⟨before, direct, command, outcome, after⟩ := event
    exact lawful.ends (P := fun outcome later => ∀ region, later.regions[name]? = some region →
      Yields ⟨before, direct, command, outcome, later⟩ name region)
      (Session.yielding_of_concerns lawful.settled concerns) region named
  · refine yields_of_leaves lawful.follows.leaves (fun same => concerns same) ?_ ?_ named
    · exact Bool.eq_false_iff.mpr fun renewed => concerns (place?_of_renews renewed)
    · intro asked
      exact concerns (asked ▸ rfl)

end SymbolStore
