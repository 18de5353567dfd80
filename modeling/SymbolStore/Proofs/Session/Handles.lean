import SymbolStore.Proofs.Session.Regions

/-!
Handles in runs of requests: they resolve to the bytes that were stored until their region is reset,
are stale from then on, and belong to no other region.
-/

namespace SymbolStore

open SymbolStore.Action (Ends)

variable {K V : Type}

namespace Session

variable {session : Session K V} {direct : Multiset Extent} {name : String} {region : Region}
  {events later : List (Event K V)} {handle : Region.Handle} {bytes : List UInt8} {resets : Nat}
  {isThere : Bool}

theorem Settled.name_of_region {other : String} {region' : Region} (settled : session.Settled direct)
    (named : session.regions[name]? = some region)
    (there : session.regions[other]? = some region') (same : region'.id = region.id) :
    other = name := by
  have places := settled.place_eq (find?_region named) (find?_region there) rfl
    (congrArg some same)
  exact Place.region.inj places

theorem Settled.region_sound (settled : session.Settled direct)
    (named : session.regions[name]? = some region) : region.SoundIn session.process := by
  obtain ⟨account, stocked⟩ := settled.stocked (mem_structures.mpr ⟨_, find?_region named⟩)
  exact Region.Stocked.soundIn stocked

def Counts (session : Session K V) (count : Nat → Nat) : Prop :=
  ∀ (name : String) (region : Region), session.regions[name]? = some region →
    region.generation ≤ count region.id

/-- The session honours a handle to a region of this name, which is still there or not and has been
reset so many times since: no other region takes it for its own, and the region itself has the bytes
unless it was reset. -/
structure Honours (session : Session K V) (name : String) (handle : Region.Handle)
    (bytes : List UInt8) (resets : Nat) (isThere : Bool) : Prop where
  issued : handle.region < session.process.nextRegion
  own : ∀ (other : String) (region : Region), session.regions[other]? = some region →
    (region.id = handle.region ↔ other = name ∧ isThere = true)
  generation : ∀ region : Region, session.regions[name]? = some region → region.id = handle.region →
    region.generation = handle.generation + resets
  stores : ∀ region : Region, session.regions[name]? = some region → region.id = handle.region →
    resets = 0 → region.Stores session.process.heap handle bytes

end Session

namespace Event

open Session

variable {event : Event K V} {name : String} {region : Region} {handle : Region.Handle}
  {bytes : List UInt8} {resets : Nat} {isThere : Bool} {count : Nat → Nat}

theorem resets_of_asked (asked : event.command = .resetRegion name)
    (named : event.before.regions[name]? = some region) : event.resets region.id = true := by
  rw [resets, asked]
  simp only [named, Option.any_some, decide_true]

theorem Lawful.counts (lawful : event.Lawful) (counts : event.before.Counts count) :
    event.after.Counts fun id => count id + (event.resets id).toNat := by
  intro name region named
  show region.generation ≤ count region.id + (event.resets region.id).toNat
  cases lawful.yields named with
  | fresh renewed new first =>
      rw [first]
      exact Nat.zero_le _
  | lasting earlier still asked before lasts =>
      rw [lasts.generation_eq, lasts.id_eq]
      exact Nat.le_trans (counts name earlier before) (Nat.le_add_right _ _)
  | reset earlier asked before id generation =>
      have bound := counts name earlier before
      rw [id, resets_of_asked asked before]
      rcases generation with up | ⟨same, -⟩
      · rw [up]
        exact Nat.add_le_add_right bound 1
      · rw [same]
        exact Nat.le_trans bound (Nat.le_succ _)

theorem not_resets (honours : event.before.Honours name handle bytes resets isThere)
    (asked : ∀ other, event.command = .resetRegion other → other ≠ name) :
    event.resets handle.region = false := by
  rw [Event.resets]
  split
  · rename_i other same
    rw [Option.any_eq_false]
    intro region there
    rw [decide_eq_false_iff_not]
    intro own
    exact asked other same ((honours.own other region there).mp own).1
  · rfl

theorem Lawful.honours (lawful : event.Lawful)
    (honours : event.before.Honours name handle bytes resets isThere)
    (bounded : handle.generation + (resets + (event.resets handle.region).toNat) < wordLimit) :
    event.after.Honours name handle bytes (resets + (event.resets handle.region).toNat)
      (isThere && !event.renews name) where
  issued := Nat.lt_of_lt_of_le honours.issued lawful.follows.nextRegion
  own := by
    intro other region named
    have kept (same : event.renews other = false) (earlier : Region) (id : region.id = earlier.id)
        (before : event.before.regions[other]? = some earlier) : region.id = handle.region ↔
          other = name ∧ (isThere && !event.renews name) = true := by
      rw [id, honours.own other earlier before]
      constructor
      · intro there
        rw [← there.1, same, there.2]
        exact ⟨rfl, rfl⟩
      · intro there
        exact ⟨there.1, (Bool.and_eq_true_iff.mp there.2).1⟩
    cases lawful.yields named with
    | fresh renewed new first =>
        constructor
        · intro same
          exact absurd honours.issued (Nat.not_lt.mpr (same ▸ new))
        · intro there
          rw [← there.1, renewed, Bool.not_true, Bool.and_false] at there
          exact absurd there.2 Bool.false_ne_true
    | lasting earlier still asked before lasts => exact kept still earlier lasts.id_eq before
    | reset earlier asked before id generation =>
        refine kept ?_ earlier id before
        rw [renews, asked]
  generation := by
    intro region named same
    cases lawful.yields named with
    | fresh renewed new first =>
        exact absurd honours.issued (Nat.not_lt.mpr (same ▸ new))
    | lasting earlier still asked before lasts =>
        rw [not_resets honours asked, lasts.generation_eq]
        exact honours.generation earlier before (lasts.id_eq.symm.trans same)
    | reset earlier asked before id generation =>
        have own := id.symm.trans same
        have counted := honours.generation earlier before own
        have hit := resets_of_asked asked before
        rw [own] at hit
        rw [hit, Bool.toNat_true] at bounded ⊢
        rcases generation with up | ⟨-, last⟩ <;> omega
  stores := by
    intro region named same none
    cases lawful.yields named with
    | fresh renewed new first =>
        exact absurd honours.issued (Nat.not_lt.mpr (same ▸ new))
    | lasting earlier still asked before lasts =>
        have own := lasts.id_eq.symm.trans same
        exact (honours.stores earlier before own (Nat.eq_zero_of_add_eq_zero_right none)).lasts
          (lawful.settled.region_sound before) lasts
    | reset earlier asked before id generation =>
        have hit := resets_of_asked asked before
        rw [id.symm.trans same] at hit
        rw [hit, Bool.toNat_true] at none
        exact absurd none (Nat.succ_ne_zero resets)

/-- A region has handed out a handle, and it had not been reset more often than the handle says. -/
theorem Lawful.stored (lawful : event.Lawful) {label : Option String} {owner : Region}
    (asked : event.command = .storeBytes name bytes label)
    (answered : event.outcome = .ok (.handle handle))
    (named : event.after.regions[name]? = some owner)
    (few : owner.chunks.length ≤ Region.indexLimit) :
    (∃ earlier, event.before.regions[name]? = some earlier ∧ earlier.id = handle.region ∧
      earlier.generation = handle.generation) ∧
      handle.region = owner.id ∧ event.after.Honours name handle bytes 0 true := by
  obtain ⟨before, direct, command, outcome, after⟩ := event
  cases asked
  have settled := lawful.follows.settled
  have ends := lawful.ends (P := fun outcome later => ∀ answer, outcome = .ok answer →
    ∃ earlier after place, answer = .handle (earlier.handleFor place bytes.length) ∧
      before.regions[name]? = some earlier ∧ later.regions[name]? = some after ∧
      earlier.Writes before.process { size := bytes.length, align := 1 } bytes place
        (after, later.process))
    ((storeBytes_ends lawful.settled name bytes label).mono
      (fun _ _ stored _ same => by cases same; exact stored) fun _ _ _ => nofun)
  obtain ⟨earlier, _, place, issued, there, after, writes⟩ := ends _ answered
  cases after.symm.trans named
  cases issued
  have id : earlier.id = owner.id := writes.takes.id_eq.symm
  refine ⟨⟨earlier, there, rfl, rfl⟩, id, ?_⟩
  constructor
  · show earlier.id < _
    rw [id]
    exact settled.known_of_find? (find?_region named) rfl
  · intro other region present
    constructor
    · intro same
      exact ⟨settled.name_of_region named present (same.trans id), rfl⟩
    · intro here
      cases named.symm.trans (here.1 ▸ present)
      exact id.symm
  · intro region present _
    cases named.symm.trans present
    exact writes.takes.generation_eq
  · intro region present _ _
    cases named.symm.trans present
    exact writes.stores few

end Event

namespace Session

variable {session : Session K V} {direct : Multiset Extent} {name : String} {region owner : Region}
  {earlier later events : List (Event K V)} {storing : Event K V} {handle : Region.Handle}
  {bytes : List UInt8} {resets : Nat} {isThere : Bool} {count : Nat → Nat}

theorem counts_start (journal : Journal) (config : Config) (allocator : Allocator) :
    (start journal config allocator : Session K V).Counts fun _ => 0 := by
  intro name region named
  rw [start, Std.TreeMap.getElem?_emptyc] at named
  cases named

/-- How often a region was reset in a run bounds its generation. -/
theorem Runs.counts (runs : session.Runs events) (counts : session.Counts count) :
    (session.through events).Counts fun id => count id + Event.resetCount events id := by
  induction runs generalizing count with
  | nil => exact counts
  | cons starts lawful _ ih =>
      intro name region named
      have bound := ih (lawful.counts (starts ▸ counts)) name region named
      show region.generation ≤ count region.id + Event.resetCount (_ :: _) region.id
      rw [Event.resetCount_cons, ← Nat.add_assoc]
      exact bound

theorem Runs.honours (runs : session.Runs events)
    (honours : session.Honours name handle bytes resets isThere)
    (bounded : handle.generation + (resets + Event.resetCount events handle.region) < wordLimit) :
    (session.through events).Honours name handle bytes
      (resets + Event.resetCount events handle.region)
      (isThere && events.all fun event => !event.renews name) := by
  induction runs generalizing resets isThere with
  | nil =>
      rw [List.all_nil, Bool.and_true]
      exact honours
  | @cons session event events starts lawful _ ih =>
      rw [Event.resetCount_cons, ← Nat.add_assoc resets] at bounded ⊢
      rw [List.all_cons, ← Bool.and_assoc]
      exact ih (lawful.honours (starts ▸ honours) (by omega)) bounded

theorem Honours.resolve {other : String} (settled : session.Settled direct)
    (honours : session.Honours name handle bytes resets isThere)
    (named : session.regions[other]? = some region) :
    region.resolve session.process.heap handle =
      if other = name ∧ isThere = true then
        if resets = 0 then .ok bytes
        else .error (.error (.staleHandle handle.generation region.generation))
      else .error (.error (.invalidArgument "region handle does not belong to this region")) := by
  by_cases own : other = name ∧ isThere = true
  · rw [if_pos own]
    have same := (honours.own other region named).mpr own
    have here := named
    rw [own.1] at here
    by_cases fresh : resets = 0
    · rw [if_pos fresh]
      exact (honours.stores region here same fresh).resolve (settled.region_sound named)
    · rw [if_neg fresh, Region.resolve_stale _ same.symm]
      have counted := honours.generation region here same
      omega
  · rw [if_neg own, Region.resolve_foreign]
    exact fun same => own ((honours.own other region named).mp same.symm)

/-- A handle that a region gave out for bytes, in a run from the start. However often other things
were asked meanwhile, the region answers with the bytes until it is reset, and then that the handle
is stale; every other region answers that the handle is not its own. -/
theorem history_resolves {allocator : Allocator} (lawful : allocator.Lawful) (journal : Journal)
    (config : Config) {commands : List (Command K V)}
    (proper : ∀ event ∈ (start journal config allocator).history 0 commands,
      event.before.Proper event.command)
    (split : (start journal config allocator).history 0 commands = earlier ++ storing :: later)
    {label : Option String} (asked : storing.command = .storeBytes name bytes label)
    (answered : storing.outcome = .ok (.handle handle))
    (stored : storing.after.regions[name]? = some owner)
    (few : owner.chunks.length ≤ Region.indexLimit)
    (bounded : Event.resetCount (earlier ++ later) owner.id < wordLimit)
    {other : String} (named : (storing.after.through later).regions[other]? = some region) :
    region.resolve (storing.after.through later).process.heap handle =
      if other = name ∧ ∀ event ∈ later, event.renews name = false then
        if ∀ event ∈ later, event.resets owner.id = false then .ok bytes
        else .error (.error (.staleHandle handle.generation region.generation))
      else .error (.error (.invalidArgument "region handle does not belong to this region")) := by
  have settled := settled_start (K := K) (V := V) lawful journal config
  have runs := settled.runs proper
  rw [split] at runs
  obtain ⟨before, rest⟩ := runs.split
  cases rest with
  | cons starts stores after =>
      obtain ⟨⟨young, there, same, generation⟩, own, honours⟩ :=
        stores.stored asked answered stored few
      rw [starts] at there
      have counts := before.counts (counts_start journal config allocator) name young there
      change young.generation ≤ 0 + Event.resetCount earlier young.id at counts
      rw [Event.resetCount_append] at bounded
      rw [generation, same, own, Nat.zero_add] at counts
      have kept := after.honours honours (by rw [own]; omega)
      obtain ⟨direct, settled⟩ := after.settled stores.follows.settled
      rw [kept.resolve settled named, Nat.zero_add, own, Bool.true_and]
      refine if_congr (and_congr_right' ?_) (if_congr Event.resetCount_eq_zero rfl rfl) rfl
      simp only [List.all_eq_true, Bool.not_eq_true']

/-- A run in which bytes are stored in a region, which then grows while another one is reset and
blocks come and go. -/
def handleRun : List (Event Nat Nat) :=
  (start {} {} .ascending).history 0
    [.createManager "m" .tracked, .createRegion "r" (some "m") 256,
      .createRegion "q" (some "m") 256, .storeBytes "r" [1, 2, 3] (some "h"),
      .allocate "m" "b" ⟨24, 8⟩, .storeRange "r" ⟨400, 16⟩ fun _ => 7, .free "m" "b",
      .storeBytes "q" [9] none, .resetRegion "q", .storeBytes "r" [4, 5, 6] none]

def answeredHandle? (event : Event Nat Nat) : Option Region.Handle :=
  match event.outcome with
  | .ok (.handle answer) => some answer
  | _ => none

theorem outcome_of_answeredHandle? {event : Event Nat Nat} {handle : Region.Handle}
    (given : answeredHandle? event = some handle) : event.outcome = .ok (.handle handle) := by
  rw [answeredHandle?] at given
  split at given
  · rename_i answer same
    rw [same, Option.some.inj given]
  · cases given

def handleStored : Event Nat Nat := handleRun.get ⟨3, by decide +kernel⟩

theorem handleRun_resolves : ∃ region other,
    (handleStored.after.through (handleRun.drop 4)).regions["r"]? = some region ∧
    (handleStored.after.through (handleRun.drop 4)).regions["q"]? = some other ∧
    region.resolve (handleStored.after.through (handleRun.drop 4)).process.heap ⟨1, 0, 0, 0, 3⟩ =
      .ok [1, 2, 3] ∧
    other.resolve (handleStored.after.through (handleRun.drop 4)).process.heap ⟨1, 0, 0, 0, 3⟩ =
      .error (.error (.invalidArgument "region handle does not belong to this region")) := by
  have split : handleRun = handleRun.take 3 ++ handleStored :: handleRun.drop 4 := by
    rw [handleStored, List.get_eq_getElem, ← List.drop_eq_getElem_cons, List.take_append_drop]
  have answered : handleStored.outcome = .ok (.handle ⟨1, 0, 0, 0, 3⟩) :=
    outcome_of_answeredHandle? (by decide +kernel)
  have stored : handleStored.after.regions["r"]? =
      some ⟨1, ⟨0⟩, [⟨65552, 3, 256⟩], 0, 256, 0, 3⟩ := by decide +kernel
  obtain ⟨region, named⟩ : ∃ region, (handleStored.after.through (handleRun.drop 4)).regions["r"]? =
      some region := Option.isSome_iff_exists.mp (by decide +kernel)
  obtain ⟨other, present⟩ : ∃ other, (handleStored.after.through (handleRun.drop 4)).regions["q"]? =
      some other := Option.isSome_iff_exists.mp (by decide +kernel)
  have proper : ∀ event ∈ handleRun, event.before.Proper event.command := by decide +kernel
  have few : Event.resetCount (handleRun.take 3 ++ handleRun.drop 4) 1 < wordLimit := by
    decide +kernel
  refine ⟨region, other, named, present, ?_, ?_⟩
  · rw [history_resolves Allocator.ascending_lawful {} {} proper split rfl answered stored
      (by decide) few named, if_pos (by decide +kernel), if_pos (by decide +kernel)]
  · rw [history_resolves Allocator.ascending_lawful {} {} proper split rfl answered stored
      (by decide) few present, if_neg (by decide)]

end Session

end SymbolStore
