import SymbolStore.Proofs.Session.Answers
import SymbolStore.Proofs.Session.History

/-!
Structures on one manager without a limit do not get in each other's way: whatever becomes of the
others, a structure answers as it does alone.
-/

namespace SymbolStore

open SymbolStore.Action (Ends Lockstep)
open SymbolStore.Process (Twins)

variable {K V : Type}

/-- Requests to no structure but that at the place give the label. -/
def Label.OwnedBy (place : Place) (commands : List (Command K V)) (label : Label) : Prop :=
  ∀ command ∈ commands, command.gives? = some label → command.concerns place = true

instance (place : Place) (commands : List (Command K V)) (label : Label) :
    Decidable (label.OwnedBy place commands) :=
  inferInstanceAs (Decidable (∀ command ∈ commands, _ → _))

/-- The same was asked. What was answered, and afterwards what there is at the place and what its labels
mean, are the same but for addresses and the numbers of regions, which nothing that the structure there
shows depends on. -/
structure Event.Alike (own : Label → Prop) (place : Place) (names : Renaming)
    (event other : Event K V) : Prop where
  command : other.command = event.command
  outcome : other.outcome = event.outcome.map (Answer.rename names)
  state : other.after.find? place = (event.after.find? place).map (Structure.rename names)
  view : (other.after.find? place).map (Structure.view other.after.process.heap) =
    (event.after.find? place).map (Structure.view event.after.process.heap)
  handles (name : String) : own (.handle name) →
    other.after.handles[name]? = (event.after.handles[name]?).map (Region.Handle.rename names)
  symbols (name : String) : own (.symbol name) →
    Option.Rel (Symbol.Alike names ((event.after.find? place).bind Structure.internerId?))
      event.after.symbols[name]? other.after.symbols[name]?

namespace Session

variable {allocator : Allocator} {grants : Nat → Bool} {own : Label → Prop} {place : Place}
  {names later : Renaming} {bound room more a b a' b' : Nat} {s t : Session K V}
  {direct direct' : Multiset Extent} {command : Command K V} {manager : String}
  {commands : List (Command K V)}

section Requests

theorem makesManager_of_isOn (on : command.isOn manager = true) : command.makesManager = false := by
  cases command with
  | createManager => cases on
  | createRegion name source chunkSize =>
      obtain rfl := of_decide_eq_true on
      rfl
  | createInterner name source capacity value hasher =>
      obtain ⟨rfl, -⟩ := of_decide_eq_true on
      rfl
  | createDictionary name source capacity rule node =>
      obtain rfl := of_decide_eq_true on
      rfl
  | _ => rfl

theorem subject?_of_place? (concerns : command.place? = some place) :
    command.subject? = some place := by
  cases command with
  | resolveHandle => cases concerns
  | _ => exact concerns

theorem place?_ne_manager (on : command.isOn manager = true) (name : String) :
    command.place? ≠ some (.manager name) := by
  intro concerns
  cases command with
  | createManager | shareManager | dropManager => cases on
  | _ => cases concerns

/-- A request to a structure leaves the client's own blocks alone, and can be counted. -/
theorem proper_of_isOn (on : command.isOn manager = true)
    (ample : s.process.Ample allocator (room + 1)) : s.Proper command where
  apart name is := by
    cases command with
    | reallocate | reallocateArray | free | writeBlock => cases on
    | _ => cases is
  countable manager is := ample.not_exhausted manager
  given manager is exhausted := absurd exhausted (ample.not_exhausted manager)

theorem perform_ample (command : Command K V) (older : command.makesManager = false)
    (ample : s.process.Ample allocator (room + 128)) :
    ((perform command).runFrom s).2.process.Ample allocator room := by
  have related : Abreast (fun _ => True) (fun room p q => q = p ∧ p.Ample allocator room)
      (room + 127) s s := ⟨rfl, fun _ object _ => object.known_any, rfl, ample.less (Nat.le_succ _)⟩
  have outcomes := (perform_respects (Process.ample_congruent allocator) command older room s s
    related).outcomes fun _ _ => id
  obtain ⟨-, left, less, -, -, -, after⟩ := outcomes
  exact after.less less

end Requests

namespace Alone

theorem further (alone : Alone allocator own place a b names room s t) (here : a ≤ a')
    (there : b ≤ b') : Alone allocator own place a' b' names room s t :=
  { alone with
    labelled := { alone.labelled with
      known := fun name handle mine named => by
        obtain ⟨small, small'⟩ := alone.labelled.known name handle mine named
        exact ⟨Nat.lt_of_lt_of_le small here, Nat.lt_of_lt_of_le small' there⟩ } }

/-- Regions that there are not yet may have any number. -/
theorem renumbered (here : s.Settled direct) (there : t.Settled direct')
    (alone : Alone allocator own place s.process.nextRegion t.process.nextRegion names room s t)
    (block : later.block = names.block)
    (numbers : ∀ id, id < s.process.nextRegion → names.region id < t.process.nextRegion →
      later.region id = names.region id) :
    Alone allocator own place s.process.nextRegion t.process.nextRegion later room s t where
  managers := alone.managers
  same := by
    rw [alone.same]
    refine Option.map_congr fun object found => Eq.symm ?_
    refine Structure.rename_eq block fun id number => ?_
    obtain ⟨small, small'⟩ :=
      alone.number_lt here there (Option.bind_eq_some_iff.mpr ⟨object, found, number⟩)
    exact numbers id small small'
  level object found := (alone.level object found).renumbered block
  twins := alone.twins.renumbered block
  labelled := by
    have labelled := alone.labelled
    refine ⟨fun name mine => ?_, fun name handle mine named => ?_, fun name mine => ?_⟩
    · rw [labelled.handles name mine]
      refine Option.map_congr fun handle named => ?_
      obtain ⟨small, small'⟩ := labelled.known name handle mine named
      rw [Region.Handle.rename, Region.Handle.rename, numbers _ small small']
    · obtain ⟨small, small'⟩ := labelled.known name handle mine named
      rw [numbers _ small small']
      exact ⟨small, small'⟩
    · have related := labelled.symbols name mine
      generalize found : s.symbols[name]? = symbol? at related ⊢
      generalize found' : t.symbols[name]? = other? at related ⊢
      cases related with
      | none => exact .none
      | some alike =>
          have small := (here.issued name _ found).1
          have small' := (there.issued name _ found').1
          rw [alike.interner] at small'
          refine .some ⟨?_, alike.generation, fun matters => ?_⟩
          · rw [alike.interner, numbers _ small small']
          · rw [alike.entry matters, Pointer.rename, Pointer.rename, block]

theorem view (alone : Alone allocator own place a b names room s t) :
    (t.find? place).map (Structure.view t.process.heap) =
      (s.find? place).map (Structure.view s.process.heap) := by
  rw [alone.same, Option.map_map]
  refine Option.map_congr fun object found => ?_
  have twins := alone.twins
  rw [occupied_of_find? found, ← add_zero (Structure.holdings _)] at twins
  exact Structure.view_rename ⟨rfl, alone.level object found, twins⟩

/-- A request to another structure concerns neither the one at the place nor its labels. -/
theorem passed (here : s.Settled direct)
    (alone : Alone allocator own place a b names (room + 128) s t)
    (on : command.isOn manager = true) (elsewhere : command.concerns place = false)
    (others : ∀ label ∈ command.gives?, ¬ own label) :
    Alone allocator own place a b names room (s.event direct command).after t := by
  have follows := (here.lawful_event (proper_of_isOn on alone.twins.here)).follows
  have ample : (s.event direct command).after.process.Ample allocator room :=
    perform_ample command (makesManager_of_isOn on) alone.twins.here
  have untouched : ¬ place ∈ command.place? := by
    intro is
    rw [Command.concerns_iff.mpr (subject?_of_place? is)] at elsewhere
    cases elsewhere
  have found : (s.event direct command).after.find? place = s.find? place :=
    follows.leaves.found place untouched
  have kept (label : Label) (mine : own label) :
      (s.event direct command).after.meaning label = s.meaning label :=
    perform_spares command (fun gives => others label gives mine) s
  have handles (name : String) (mine : own (.handle name)) :
      (s.event direct command).after.handles[name]? = s.handles[name]? :=
    Option.map_injective Sum.inl_injective (kept (.handle name) mine)
  have symbols (name : String) (mine : own (.symbol name)) :
      (s.event direct command).after.symbols[name]? = s.symbols[name]? :=
    Option.map_injective Sum.inr_injective (kept (.symbol name) mine)
  refine ⟨fun name => ?_, ?_, ?_, ?_, fun name mine => ?_, fun name handle mine named => ?_,
    fun name mine => ?_⟩
  · have same := follows.leaves.found (.manager name) (place?_ne_manager on name)
    rw [managers_eq_of_find? same]
    exact alone.managers name
  · rw [found]
    exact alone.same
  · rw [found]
    exact alone.level
  · rw [occupied, found]
    refine (alone.twins.less (Nat.le_add_right room 128)).kept ample
      (alone.twins.there.less (Nat.le_add_right room 128)) fun extent member paired => ?_
    cases present : s.find? place with
    | none =>
        rw [occupied_of_none present] at member
        exact absurd member (Multiset.notMem_zero extent)
    | some object =>
        rw [occupied_of_find? present] at member
        have intact := follows.leaves.intact place object untouched present extent member
        obtain ⟨block, here, there⟩ := paired.same
        have held := follows.settled.houses.held
          (Multiset.mem_add.mpr (.inl (mem_holdings (found.trans present) member)))
        exact ⟨⟨block, intact.trans here, there⟩, held, paired.there⟩
  · rw [handles name mine]
    exact alone.labelled.handles name mine
  · rw [handles name mine] at named
    exact alone.labelled.known name handle mine named
  · rw [symbols name mine, found]
    exact alone.labelled.symbols name mine

end Alone

theorem Echoes.event (echoes : Echoes allocator own place names room bound command s t)
    (roomy : ¬ (s.event direct command).after.process.Spent bound)
    (roomy' : ¬ (t.event direct' command).after.process.Spent bound) :
    ∃ later : Renaming, later.region = names.region ∧
      Alone allocator own place s.process.nextRegion t.process.nextRegion later room
        (s.event direct command).after (t.event direct' command).after ∧
      (t.event direct' command).outcome = (s.event direct command).outcome.map (Answer.rename later) ∧
      ∀ answer, (s.event direct command).outcome = .ok answer → answer.Of (s.numberAt place) := by
  rcases echoes.cases (fun _ _ => roomy) fun _ _ => roomy' with
    ⟨answer, other, here, there, later, region, alone, same, of⟩ |
      ⟨failure, here, there, later, region, alone, -⟩
  · refine ⟨later, region, alone, ?_, fun known is => ?_⟩
    · show ((perform command).runFrom t).1 = ((perform command).runFrom s).1.map _
      rw [here, there, same]
      rfl
    · obtain rfl := Except.ok.inj (here.symm.trans is)
      exact of
  · refine ⟨later, region, alone, ?_, fun known is => ?_⟩
    · show ((perform command).runFrom t).1 = ((perform command).runFrom s).1.map _
      rw [here, there]
      rfl
    · cases here.symm.trans is

theorem Alone.answered (bySize : allocator.BySize grants bound) (here : s.Settled direct)
    (there : t.Settled direct')
    (alone : Alone allocator own place s.process.nextRegion t.process.nextRegion names (room + 128) s
      t)
    (on : command.isOn manager = true) (concerns : command.concerns place = true)
    (mine : ∀ label ∈ command.reads?, own label)
    (roomy : ¬ (s.event direct command).after.process.Spent bound)
    (roomy' : ¬ (t.event direct' command).after.process.Spent bound) :
    ∃ later : Renaming,
      (∀ id, id < s.process.nextRegion → names.region id < t.process.nextRegion →
        later.region id = names.region id) ∧
      Alone allocator own place (s.event direct command).after.process.nextRegion
        (t.event direct' command).after.process.nextRegion later room
        (s.event direct command).after (t.event direct' command).after ∧
      ∀ region : Equiv.Perm Nat,
        (∀ id, id < (s.event direct command).after.process.nextRegion →
          later.region id < (t.event direct' command).after.process.nextRegion →
            region id = later.region id) →
        Event.Alike own place ⟨later.block, region⟩ (s.event direct command)
          (t.event direct' command) := by
  have given (id : Nat) (small : id < s.process.nextRegion)
      (small' : names.region id < t.process.nextRegion) :
      (names.number s.process.nextRegion t.process.nextRegion).region id = names.region id :=
    Renaming.region_number_of_ne (Nat.ne_of_lt small) (Nat.ne_of_lt small')
  have next : Alone allocator own place _ _
      (names.number s.process.nextRegion t.process.nextRegion) (room + 128) s t :=
    alone.renumbered here there rfl given
  have echoes := perform_echoes bySize here there next (Renaming.region_number names _ _) command
    concerns on mine
  obtain ⟨later, region, after, outcome, of⟩ := echoes.event roomy roomy'
  have follows := (here.lawful_event (proper_of_isOn on alone.twins.here)).follows
  have follows' := (there.lawful_event (proper_of_isOn on alone.twins.there)).follows
  have after := after.further follows.nextRegion follows'.nextRegion
  rw [← region] at given
  refine ⟨later, given, after, fun last agrees => ?_⟩
  have final : Alone allocator own place _ _ ⟨later.block, last⟩ room _ _ :=
    after.renumbered follows.settled follows'.settled rfl agrees
  refine ⟨rfl, ?_, final.same, final.view, final.labelled.handles, final.labelled.symbols⟩
  rw [outcome]
  cases answered : (s.event direct command).outcome with
  | error failure => rfl
  | ok answer =>
      refine congrArg Except.ok (Eq.symm ?_)
      refine Answer.rename_congr (of answer answered) rfl fun id is => ?_
      obtain ⟨small, small'⟩ := alone.number_lt here there is
      refine agrees id (Nat.lt_of_lt_of_le small follows.nextRegion) ?_
      rw [given id small small']
      exact Nat.lt_of_lt_of_le small' follows'.nextRegion

/-- A run of requests beside the run of those to the structure at the place. The numbers of regions are
the same throughout as they are at the start, for those regions that there are then. -/
theorem Alone.history (bySize : allocator.BySize grants bound) (here : s.Settled direct)
    (there : t.Settled direct')
    (alone : Alone allocator own place s.process.nextRegion t.process.nextRegion names
      (128 * commands.length) s t)
    (on : ∀ command ∈ commands, command.isOn manager = true)
    (mine : ∀ command ∈ commands, command.concerns place = true →
      ∀ label ∈ command.reads?, own label)
    (others : ∀ command ∈ commands, command.concerns place = false →
      ∀ label ∈ command.gives?, ¬ own label)
    (roomy : ∀ event ∈ s.history direct commands, ¬ event.after.process.Spent bound)
    (roomy' : ∀ event ∈ t.history direct' (commands.filter (Command.concerns place)),
      ¬ event.after.process.Spent bound) :
    ∃ region : Equiv.Perm Nat,
      (∀ id, id < s.process.nextRegion → names.region id < t.process.nextRegion →
        region id = names.region id) ∧
      List.Forall₂ (fun event other => ∃ block, Event.Alike own place ⟨block, region⟩ event other)
        ((s.history direct commands).filter fun event => event.command.concerns place)
        (t.history direct' (commands.filter (Command.concerns place))) := by
  induction commands generalizing s t names direct direct' with
  | nil => exact ⟨names.region, fun _ _ _ => rfl, .nil⟩
  | cons command commands ih =>
      rw [List.length_cons, Nat.mul_succ] at alone
      have on' := on command List.mem_cons_self
      have follows := (here.lawful_event (proper_of_isOn on' alone.twins.here)).follows
      have rest {P : Command K V → Prop} (all : ∀ other ∈ command :: commands, P other) :
          ∀ other ∈ commands, P other := fun other member => all other (List.mem_cons_of_mem _ member)
      rw [history_cons] at roomy ⊢
      cases concerns : command.concerns place with
      | true =>
        rw [List.filter_cons_of_pos concerns, history_cons] at roomy'
        rw [List.filter_cons_of_pos (a := s.event direct command) concerns,
          List.filter_cons_of_pos concerns, history_cons]
        obtain ⟨later, numbers, after, alike⟩ := alone.answered bySize here there on' concerns
          (mine command List.mem_cons_self concerns) (roomy _ List.mem_cons_self)
          (roomy' _ List.mem_cons_self)
        have follows' := (there.lawful_event (proper_of_isOn on' alone.twins.there)).follows
        obtain ⟨region, agrees, all⟩ := ih follows.settled follows'.settled after (rest on)
          (rest mine) (rest others) (fun event member => roomy event (List.mem_cons_of_mem _ member))
          fun event member => roomy' event (List.mem_cons_of_mem _ member)
        have same (id : Nat) (small : id < s.process.nextRegion)
            (small' : names.region id < t.process.nextRegion) : region id = names.region id := by
          rw [← numbers id small small']
          refine agrees id (Nat.lt_of_lt_of_le small follows.nextRegion) ?_
          rw [numbers id small small']
          exact Nat.lt_of_lt_of_le small' follows'.nextRegion
        exact ⟨region, same, .cons ⟨later.block, alike region agrees⟩ all⟩
      | false =>
        have other : ¬ command.concerns place = true := by rw [concerns]; decide
        rw [List.filter_cons_of_neg other] at roomy'
        rw [List.filter_cons_of_neg (a := s.event direct command) other,
          List.filter_cons_of_neg other]
        have after := alone.passed here on' concerns (others command List.mem_cons_self concerns)
        obtain ⟨region, agrees, all⟩ := ih follows.settled there
          (after.further follows.nextRegion (Nat.le_refl _)) (rest on) (rest mine) (rest others)
          (fun event member => roomy event (List.mem_cons_of_mem _ member)) roomy'
        exact ⟨region, fun id small small' =>
          agrees id (Nat.lt_of_lt_of_le small follows.nextRegion) small', all⟩

section Opening

def opened (journal : Journal) (config : Config) (allocator : Allocator) (manager : String)
    (shared : Config) : Session K V :=
  ((start journal config allocator).event 0 (.createManager manager shared)).after

variable (lawful : allocator.Lawful) (journal : Journal) (config : Config) (manager : String)
  (shared : Config)

theorem opened_eq : (opened journal config allocator manager shared : Session K V) =
    { start journal config allocator with
      process := ((Manager.create shared).runFrom { journal, config, allocator }).2
      managers := ({} : Names Manager).insert manager ⟨0⟩ } := rfl

include lawful

theorem settled_opened :
    (opened journal config allocator manager shared : Session K V).Settled 0 := by
  refine ((settled_start lawful journal config).lawful_event ⟨?_, ?_, ?_⟩).follows.settled
  · intro name is
    cases is
  · intro other is
    cases is
  · intro other is
    cases is

theorem ample_opened (unlimited : shared.byteLimit = none) (small : room + 1 < wordLimit) :
    (opened journal config allocator manager shared : Session K V).process.Ample allocator room := by
  have ledger (other : Manager) : other.ledgerIn
      (opened journal config allocator manager shared : Session K V).process =
        if 0 = other.id then { config := shared } else .closed := by
    rw [opened_eq, Manager.ledgerIn_create, Manager.ledgerIn, Std.TreeMap.getD_emptyc]
  have houses := (settled_opened (K := K) (V := V) lawful journal config manager shared).houses
  refine ⟨houses.sound, houses.powers, rfl, fun other => ?_, fun other => ?_⟩
  · rw [ledger]
    split
    · exact unlimited
    · rfl
  · rw [ledger]
    split <;> exact (Nat.zero_add room).symm ▸ small

omit lawful in
theorem find?_opened :
    (opened journal config allocator manager shared : Session K V).find? place = none ∨
      ∃ inner, (opened journal config allocator manager shared : Session K V).find? place =
        some (.holder inner) := by
  cases place with
  | manager name =>
      rw [find?]
      cases (opened journal config allocator manager shared : Session K V).managers[name]? with
      | none => exact .inl rfl
      | some inner => exact .inr ⟨inner, rfl⟩
  | array | region | interner | dictionary =>
      rw [find?, opened_eq, start, Std.TreeMap.getElem?_emptyc]
      exact .inl rfl

theorem alone_opened (unlimited : shared.byteLimit = none) (small : room + 1 < wordLimit) :
    Alone allocator own place a b names room
      (opened journal config allocator manager shared : Session K V)
      (opened journal config allocator manager shared) := by
  have ample := ample_opened (K := K) (V := V) lawful journal config manager shared unlimited small
  have kinds : (opened journal config allocator manager shared : Session K V).find? place = none ∨
      ∃ inner, (opened journal config allocator manager shared : Session K V).find? place =
        some (.holder inner) := find?_opened journal config manager shared
  have vacant : (opened journal config allocator manager shared : Session K V).occupied place = 0 := by
    rcases kinds with absent | ⟨inner, found⟩
    · exact occupied_of_none absent
    · exact occupied_of_find? found
  refine ⟨fun _ => rfl, ?_, fun object found => ?_, ?_, fun name _ => ?_, fun name handle _ named => ?_,
    fun name _ => ?_⟩
  · rcases kinds with same | ⟨inner, same⟩ <;> rw [same] <;> rfl
  · rcases kinds with same | ⟨inner, same⟩ <;> rw [same] at found <;> cases found
    trivial
  · rw [vacant]
    exact ⟨ample, ample, fun _ member => absurd member (Multiset.notMem_zero _), Multiset.nodup_zero⟩
  · rw [opened_eq, start, Std.TreeMap.getElem?_emptyc]
    rfl
  · rw [opened_eq, start, Std.TreeMap.getElem?_emptyc] at named
    cases named
  · rw [opened_eq, start, Std.TreeMap.getElem?_emptyc]
    exact .none

end Opening

/-- Structures on a manager without a limit do not get in each other's way, where the system grants
blocks by size alone and has the addresses for it. Of a run of requests, those to one structure are
answered as they are in the run of these requests alone, and what there is of it and of its labels
afterwards is the same, but for addresses, which differ from request to request, and for the numbers of
regions, which do not. Labels that the structure's requests read are given by no others; there are fewer
requests than could exhaust a counter. -/
theorem history_undisturbed (lawful : allocator.Lawful) (bySize : allocator.BySize grants bound)
    (journal : Journal) (config : Config) (manager : String) (shared : Config)
    (unlimited : shared.byteLimit = none) (place : Place) (commands : List (Command K V))
    (on : ∀ command ∈ commands, command.isOn manager = true)
    (labels : ∀ command ∈ commands, command.concerns place = true → ∀ label ∈ command.reads?,
      label.OwnedBy place commands)
    (few : 128 * commands.length < wordLimit)
    (roomy : ∀ event ∈ (opened journal config allocator manager shared).history 0 commands,
      ¬ event.after.process.Spent bound)
    (roomy' : ∀ event ∈ (opened journal config allocator manager shared).history 0
        (commands.filter (Command.concerns place)), ¬ event.after.process.Spent bound) :
    ∃ region : Equiv.Perm Nat,
      List.Forall₂ (fun event other => ∃ block,
          Event.Alike (Label.OwnedBy place commands) place ⟨block, region⟩ event other)
        (((opened journal config allocator manager shared).history 0 commands).filter
          fun event => event.command.concerns place)
        ((opened journal config allocator manager shared).history 0
          (commands.filter (Command.concerns place))) := by
  have settled := settled_opened (K := K) (V := V) lawful journal config manager shared
  have small : 128 * commands.length + 1 < wordLimit := by
    unfold wordLimit at few ⊢
    omega
  have alone (next : Nat) : Alone allocator (Label.OwnedBy place commands) place next next
      ⟨.refl Nat, .refl Nat⟩ (128 * commands.length)
      (opened journal config allocator manager shared : Session K V)
      (opened journal config allocator manager shared) :=
    alone_opened lawful journal config manager shared unlimited small
  have others : ∀ other ∈ commands, other.concerns place = false →
      ∀ label ∈ other.gives?, ¬ label.OwnedBy place commands := by
    intro other member elsewhere label gives owned
    rw [owned other member gives] at elsewhere
    cases elsewhere
  obtain ⟨region, -, alike⟩ :=
    (alone _).history bySize settled settled on labels others roomy roomy'
  exact ⟨region, alike⟩

/-- Structures of every kind whose requests take turns. -/
def crowd : List (Command Nat Nat) :=
  [.createRegion "r" (some "m") 256, .createArray "a" "m" ⟨4, 4⟩ 2 [1],
    .createInterner "i" (some "m") 4 ⟨8, 8⟩ fun _ => 0, .storeBytes "r" [1, 2, 3] (some "h"),
    .createDictionary "d" (some "m") 4 ⟨fun _ => 0, (· == ·)⟩ ⟨32, 8⟩, .insert "i" [1] [5] (some "s"),
    .resizeArray "a" 500 [2], .setKey "d" 1 2, .storeRange "r" ⟨8, 4096⟩ fun _ => 7,
    .insert "i" [2] [6] none, .resolveHandle "r" "h", .setKey "d" 2 3, .valueOf "i" "s",
    .resetRegion "r", .removeKey "d" 1, .resolveHandle "r" "h", .clearInterner "i",
    .listDictionary "d", .dropDictionary "d", .insert "i" [2] [4] (some "s"), .listInterner "i",
    .readArray "a"]

theorem crowd_undisturbed :
    (∀ event ∈ (opened {} {} .ascending "m" .tracked).history 0 crowd,
      ¬ event.after.process.Spent Allocator.refusedSize) ∧
    ∃ region : Equiv.Perm Nat,
      List.Forall₂ (fun event other => ∃ block,
          Event.Alike (Label.OwnedBy (.interner "i") crowd) (.interner "i") ⟨block, region⟩ event other)
        (((opened {} {} .ascending "m" .tracked).history 0 crowd).filter
          fun event => event.command.concerns (.interner "i"))
        ((opened {} {} .ascending "m" .tracked).history 0
          (crowd.filter (Command.concerns (.interner "i")))) := by
  have roomy : ∀ event ∈ (opened {} {} .ascending "m" .tracked).history 0 crowd,
      ¬ event.after.process.Spent Allocator.refusedSize := by
    unfold Process.Spent
    decide +kernel
  refine ⟨roomy, history_undisturbed Allocator.ascending_lawful Allocator.ascending_bySize {} {} "m"
    .tracked rfl (.interner "i") crowd ?_ ?_ ?_ roomy ?_⟩
  · decide +kernel
  · decide +kernel
  · decide +kernel
  · unfold Process.Spent
    decide +kernel

end Session

end SymbolStore
