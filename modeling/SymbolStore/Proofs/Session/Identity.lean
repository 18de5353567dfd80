import SymbolStore.Proofs.Session.Interners

/-!
Symbols in runs of requests. Until their interner is cleared, symbols of it are equal exactly if
their strings are, and each stands for its string and the value last stored for that; from then on,
and for any other interner, they stand for nothing.
-/

namespace SymbolStore

variable {K V : Type}

namespace Event

def stored (event : Event K V) (id : Nat) (content : List UInt8) : Option (List UInt8) :=
  match event.command.place? with
  | some (.interner name) =>
    (event.before.interners[name]?).bind fun interner =>
      if interner.region.id = id then
        (event.change? name).bind fun request =>
          request.stores interner.value (interner.toList event.before.process.heap) content
      else none
  | _ => none

/-- The value that these requests last stored for a string in the interner with this number. -/
def lastStored (events : List (Event K V)) (id : Nat) (content : List UInt8) :
    Option (List UInt8) :=
  events.reverse.findSome? fun event => event.stored id content

theorem lastStored_concat (events : List (Event K V)) (event : Event K V) (id : Nat)
    (content : List UInt8) :
    lastStored (events ++ [event]) id content =
      (event.stored id content).or (lastStored events id content) := by
  rw [lastStored, List.reverse_append, List.reverse_singleton, List.singleton_append,
    List.findSome?_cons]
  cases event.stored id content <;> rfl

theorem clearCount_append (earlier later : List (Event K V)) (id : Nat) :
    clearCount (earlier ++ later) id = clearCount earlier id + clearCount later id :=
  List.countP_append

theorem few_of_append {earlier later : List (Event K V)}
    (few : ∀ id, clearCount (earlier ++ later) id < wordLimit) (id : Nat) :
    clearCount earlier id < wordLimit := by
  have bound := few id
  rw [clearCount_append] at bound
  exact Nat.lt_of_le_of_lt (Nat.le_add_right _ _) bound

theorem clearCount_cons (event : Event K V) (events : List (Event K V)) (id : Nat) :
    clearCount (event :: events) id = (event.clears id).toNat + clearCount events id := by
  rw [clearCount, List.countP_cons, Nat.add_comm]
  cases event.clears id <;> rfl

theorem clearCount_eq_zero {events : List (Event K V)} {id : Nat} :
    clearCount events id = 0 ↔ ∀ event ∈ events, event.clears id = false := by
  simp only [clearCount, List.countP_eq_zero, Bool.not_eq_true]

end Event

namespace Session

variable {session : Session K V} {direct : Multiset Extent} {name : String} {interner : Interner}

theorem Settled.name_of_interner {other : String} {interner' : Interner}
    (settled : session.Settled direct) (named : session.interners[name]? = some interner)
    (there : session.interners[other]? = some interner')
    (same : interner'.region.id = interner.region.id) : other = name :=
  Place.interner.inj (settled.place_eq (find?_interner named) (find?_interner there) rfl
    (congrArg some same))

/-- The session vouches for a symbol of a string in the interner of this name, which is still there
or not and has been cleared so many times since: no other interner takes the symbol for its own, and
the interner itself has the string under it unless it was cleared. -/
structure Vouches (session : Session K V) (name : String) (symbol : Symbol) (content : List UInt8)
    (clears : Nat) (isThere : Bool) : Prop where
  issued : symbol.interner < session.process.nextRegion
  own : ∀ (other : String) (interner : Interner), session.interners[other]? = some interner →
    (interner.region.id = symbol.interner ↔ other = name ∧ isThere = true)
  generation : ∀ interner : Interner, session.interners[name]? = some interner →
    interner.region.id = symbol.interner →
    interner.region.generation = symbol.generation + clears
  listed : ∀ interner : Interner, session.interners[name]? = some interner →
    interner.region.id = symbol.interner → clears = 0 →
    ∃ value, (symbol, content, value) ∈ interner.toList session.process.heap

/-- After these requests every interner is in order and has for every string the value that was last
stored, and every symbol that is named is vouched for. -/
structure Tidy (session : Session K V) (past : List (Event K V)) : Prop where
  valid : ∀ (name : String) (interner : Interner), session.interners[name]? = some interner →
    interner.Valid session.process.heap
  align : ∀ (name : String) (interner : Interner), session.interners[name]? = some interner →
    isPowerOfTwo interner.value.align = true
  generation : ∀ (name : String) (interner : Interner), session.interners[name]? = some interner →
    interner.region.generation ≤ Event.clearCount past interner.region.id
  values : ∀ (name : String) (interner : Interner), session.interners[name]? = some interner →
    ∀ record ∈ interner.toList session.process.heap,
      Event.lastStored past interner.region.id record.2.1 = some record.2.2
  symbols : ∀ (label : String) (symbol : Symbol), session.symbols[label]? = some symbol →
    ∃ name content clears isThere, session.Vouches name symbol content clears isThere

theorem Tidy.orderly {past : List (Event K V)} (tidy : session.Tidy past) : session.Orderly where
  valid := tidy.valid
  align := tidy.align
  knows := by
    intro label other symbol interner kept named entry resolved
    obtain ⟨name, content, clears, isThere, vouches⟩ := tidy.symbols label symbol kept
    cases Interner.resolve?_eq_some.mp resolved
    have here := (vouches.own other interner named).mp rfl
    rw [here.1] at named
    have generation : interner.region.generation = interner.region.generation + clears :=
      vouches.generation interner named rfl
    obtain ⟨value, member⟩ := vouches.listed interner named rfl (by omega)
    obtain ⟨listed, there, same⟩ := List.mem_map.mp member
    exact Interner.symbol_injective (congrArg Prod.fst same) ▸ there

theorem Settled.vouches {symbol : Symbol} {content value : List UInt8}
    (settled : session.Settled direct) (named : session.interners[name]? = some interner)
    (member : (symbol, content, value) ∈ interner.toList session.process.heap) :
    session.Vouches name symbol content 0 true := by
  obtain ⟨entry, -, same⟩ := List.mem_map.mp member
  have symbols := congrArg Prod.fst same
  change interner.symbol entry = symbol at symbols
  subst symbols
  constructor
  · exact settled.known_of_find? (find?_interner named) rfl
  · intro other interner' there
    constructor
    · exact fun same => ⟨settled.name_of_interner named there same, rfl⟩
    · intro here
      rw [here.1, named] at there
      cases there
      rfl
  · intro interner' there _
    cases named.symm.trans there
    rfl
  · intro interner' there _ _
    cases named.symm.trans there
    exact ⟨value, member⟩

end Session

namespace Event

open Session

variable {event : Event K V} {name : String} {interner later : Interner} {symbol : Symbol}
  {content : List UInt8} {clears : Nat} {isThere : Bool} {past : List (Event K V)}

theorem clears_of_asked (asked : event.command = .clearInterner name)
    (named : event.before.interners[name]? = some interner) :
    event.clears interner.region.id = true := by
  rw [Event.clears, asked]
  simp only [named, Option.any_some, decide_true]

theorem not_clears (vouches : event.before.Vouches name symbol content clears isThere)
    (asked : ∀ other, event.command = .clearInterner other → other ≠ name) :
    event.clears symbol.interner = false := by
  rw [Event.clears]
  split
  · rename_i other same
    rw [Option.any_eq_false]
    intro interner there
    rw [decide_eq_false_iff_not]
    intro own
    exact asked other same ((vouches.own other interner there).mp own).1
  · rfl

theorem Obtains.leaves (obtains : event.Obtains name symbol content) (other : String) (id : Nat) :
    event.refounds other = false ∧ event.clears id = false := by
  cases obtains with
  | insert _ _ _ asked | intern _ _ _ asked | lookup _ _ asked | entry _ _ asked | listed _ _ asked =>
      rw [refounds, clears, asked]
      exact ⟨rfl, rfl⟩

theorem isClear_of_change {request : Interner.Request}
    (changes : event.change? name = some request) : request.isClear = false := by
  have asked : event.command.change? event.before = some request := by
    rw [change?] at changes
    cases answered : event.outcome with
    | error failure =>
        rw [answered] at changes
        cases changes
    | ok answer =>
        rw [answered] at changes
        exact (Option.ite_none_right_eq_some.mp changes).2
  unfold Command.change? at asked
  split at asked
  · cases asked
    rfl
  · cases asked
    rfl
  · obtain ⟨symbol, -, rfl⟩ := Option.map_eq_some_iff.mp asked
    rfl
  · cases asked

theorem change?_of_apart (apart : event.command.place? ≠ some (.interner name)) :
    event.change? name = none := by
  rw [change?]
  cases event.outcome with
  | ok _ => exact if_neg apart
  | error _ => rfl

theorem stored_eq {direct : Multiset Extent} (settled : event.before.Settled direct)
    (named : event.before.interners[name]? = some interner) (content : List UInt8) :
    event.stored interner.region.id content = (event.change? name).bind fun request =>
      request.stores interner.value (interner.toList event.before.process.heap) content := by
  by_cases concerns : event.command.place? = some (.interner name)
  · rw [stored, concerns]
    simp only [named, Option.bind_some, if_pos]
  · rw [change?_of_apart concerns, stored]
    split
    · rename_i other place
      cases there : event.before.interners[other]? with
      | none => rfl
      | some interner' =>
          rw [Option.bind_some, if_neg, Option.bind_none]
          intro same
          exact concerns (settled.name_of_interner named there same ▸ place)
    · rfl

section Lasting

variable {fresh : Symbol} {direct : Multiset Extent} (settled : event.before.Settled direct)
  (named : event.before.interners[name]? = some interner)
  (sound : interner.Valid event.before.process.heap)
  (continues : interner.Continues interner.region.generation (event.records name interner fresh)
    (later, event.after.process))
include continues

/-- Strings keep their symbols until the interner is cleared. -/
theorem listed_of_lasting {value : List UInt8}
    (member : (symbol, content, value) ∈ interner.toList event.before.process.heap) :
    ∃ value, (symbol, content, value) ∈ later.toList event.after.process.heap := by
  have perm := continues.records
  rw [records] at perm
  cases changes : event.change? name with
  | none =>
      rw [changes] at perm
      exact ⟨value, perm.mem_iff.mpr member⟩
  | some request =>
      rw [changes] at perm
      obtain ⟨value, there⟩ : ∃ value, (symbol, content, value) ∈
          (request.onMap interner.value fresh (interner.toList event.before.process.heap)).2 :=
        Interner.onMap_keeps (isClear_of_change changes) member
      exact ⟨value, perm.mem_iff.mpr there⟩

include settled named sound in
theorem value_of_lasting {record : Interner.Record}
    (member : record ∈ later.toList event.after.process.heap) :
    event.stored interner.region.id record.2.1 = some record.2.2 ∨
      event.stored interner.region.id record.2.1 = none ∧
        record ∈ interner.toList event.before.process.heap := by
  have there := continues.records.mem_iff.mp member
  rw [stored_eq settled named]
  rw [records] at there
  cases changes : event.change? name with
  | none =>
      rw [changes] at there
      exact .inr ⟨rfl, there⟩
  | some request =>
      rw [changes] at there
      exact Interner.onMap_stores sound.distinct_toList (isClear_of_change changes) there

end Lasting

theorem room_of_few {rest : List (Event K V)} (tidy : event.before.Tidy past)
    (few : ∀ id, clearCount (past ++ event :: rest) id < wordLimit) (name : String)
    (asked : event.command = .clearInterner name) (earlier : Interner)
    (named : event.before.interners[name]? = some earlier) :
    earlier.region.generation + 1 < wordLimit := by
  have bound := tidy.generation name earlier named
  have total := few earlier.region.id
  rw [clearCount_append, clearCount_cons, clears_of_asked asked named, Bool.toNat_true] at total
  omega

variable (lawful : event.Lawful) (tidy : event.before.Tidy past)
  (typed : event.command.isTyped = true)
  (room : ∀ name, event.command = .clearInterner name → ∀ earlier : Interner,
    event.before.interners[name]? = some earlier → earlier.region.generation + 1 < wordLimit)
include lawful tidy typed room

theorem Lawful.vouches (vouches : event.before.Vouches name symbol content clears isThere) :
    event.after.Vouches name symbol content (clears + (event.clears symbol.interner).toNat)
      (isThere && !event.refounds name) where
  issued := Nat.lt_of_lt_of_le vouches.issued lawful.follows.nextRegion
  own := by
    intro other interner named
    have kept (same : event.refounds other = false) (earlier : Interner)
        (id : interner.region.id = earlier.region.id)
        (before : event.before.interners[other]? = some earlier) :
        interner.region.id = symbol.interner ↔
          other = name ∧ (isThere && !event.refounds name) = true := by
      rw [id, vouches.own other earlier before]
      constructor
      · intro there
        rw [← there.1, same, there.2]
        exact ⟨rfl, rfl⟩
      · intro there
        exact ⟨there.1, (Bool.and_eq_true_iff.mp there.2).1⟩
    cases lawful.offers tidy.orderly typed (room other) named with
    | fresh renewed new first empty valid align =>
        constructor
        · intro same
          exact absurd vouches.issued (Nat.not_lt.mpr (same ▸ new))
        · intro there
          rw [← there.1, renewed, Bool.not_true, Bool.and_false] at there
          exact absurd there.2 Bool.false_ne_true
    | lasting earlier fresh still asked before continues =>
        exact kept still earlier continues.id before
    | cleared earlier asked before continues =>
        refine kept ?_ earlier continues.id before
        rw [refounds, asked]
  generation := by
    intro interner named same
    cases lawful.offers tidy.orderly typed (room name) named with
    | fresh renewed new first empty valid align =>
        exact absurd vouches.issued (Nat.not_lt.mpr (same ▸ new))
    | lasting earlier fresh still asked before continues =>
        have id : interner.region.id = earlier.region.id := continues.id
        rw [not_clears vouches asked]
        exact continues.generation.trans (vouches.generation earlier before (id.symm.trans same))
    | cleared earlier asked before continues =>
        have id : interner.region.id = earlier.region.id := continues.id
        have own := id.symm.trans same
        have hit := clears_of_asked asked before
        rw [own] at hit
        rw [hit, Bool.toNat_true, ← Nat.add_assoc, ← vouches.generation earlier before own]
        exact continues.generation
  listed := by
    intro interner named same none
    cases lawful.offers tidy.orderly typed (room name) named with
    | fresh renewed new first empty valid align =>
        exact absurd vouches.issued (Nat.not_lt.mpr (same ▸ new))
    | lasting earlier fresh still asked before continues =>
        have id : interner.region.id = earlier.region.id := continues.id
        obtain ⟨value, member⟩ := vouches.listed earlier before (id.symm.trans same)
          (Nat.eq_zero_of_add_eq_zero_right none)
        exact listed_of_lasting continues member
    | cleared earlier asked before continues =>
        have id : interner.region.id = earlier.region.id := continues.id
        have hit := clears_of_asked asked before
        rw [id.symm.trans same] at hit
        rw [hit, Bool.toNat_true] at none
        exact absurd none (Nat.succ_ne_zero clears)

theorem Lawful.obtained (obtains : event.Obtains name symbol content) :
    ∃ later value, event.after.interners[name]? = some later ∧
      (symbol, content, value) ∈ later.toList event.after.process.heap :=
  (lawful.keeps tidy.orderly typed (room name) obtains.concerns).obtains symbol content obtains

theorem Lawful.tidies : event.after.Tidy (past ++ [event]) := by
  have counted (id : Nat) : clearCount (past ++ [event]) id =
      clearCount past id + (event.clears id).toNat := by
    rw [clearCount_append, clearCount_cons]
    rfl
  constructor
  · intro name interner named
    cases lawful.offers tidy.orderly typed (room name) named with
    | fresh renewed new first empty valid align => exact valid
    | lasting earlier fresh still asked before continues => exact continues.sound.valid
    | cleared earlier asked before continues => exact continues.sound.valid
  · intro name interner named
    cases lawful.offers tidy.orderly typed (room name) named with
    | fresh renewed new first empty valid align => exact align
    | lasting earlier fresh still asked before continues => exact continues.sound.align
    | cleared earlier asked before continues => exact continues.sound.align
  · intro name interner named
    rw [counted]
    cases lawful.offers tidy.orderly typed (room name) named with
    | fresh renewed new first empty valid align =>
        rw [first]
        exact Nat.zero_le _
    | lasting earlier fresh still asked before continues =>
        have id : interner.region.id = earlier.region.id := continues.id
        have generation : interner.region.generation = earlier.region.generation :=
          continues.generation
        rw [id, generation]
        exact Nat.le_trans (tidy.generation name earlier before) (Nat.le_add_right _ _)
    | cleared earlier asked before continues =>
        have id : interner.region.id = earlier.region.id := continues.id
        have generation : interner.region.generation = earlier.region.generation + 1 :=
          continues.generation
        rw [id, generation, clears_of_asked asked before]
        exact Nat.add_le_add_right (tidy.generation name earlier before) 1
  · intro name interner named record member
    rw [lastStored_concat]
    cases lawful.offers tidy.orderly typed (room name) named with
    | fresh renewed new first empty valid align =>
        rw [Interner.toList_eq, empty] at member
        cases member
    | lasting earlier fresh still asked before continues =>
        have id : interner.region.id = earlier.region.id := continues.id
        rw [id]
        rcases value_of_lasting lawful.settled before (tidy.valid name earlier before) continues
          member with now | ⟨silent, there⟩
        · rw [now]
          rfl
        · rw [silent]
          exact tidy.values name earlier before record there
    | cleared earlier asked before continues =>
        exact absurd (continues.records.mem_iff.mp member) List.not_mem_nil
  · intro label symbol kept
    rcases lawful.symbols tidy.orderly typed room kept with old | ⟨name, content, obtains⟩
    · obtain ⟨name, content, clears, isThere, vouches⟩ := tidy.symbols label symbol old
      exact ⟨name, content, _, _, lawful.vouches tidy typed room vouches⟩
    · obtain ⟨later, value, named, member⟩ := lawful.obtained tidy typed room obtains
      exact ⟨name, content, 0, true, lawful.follows.settled.vouches named member⟩

end Event

namespace Session

open Event

variable {session : Session K V} {direct : Multiset Extent} {name : String} {interner : Interner}
  {symbol : Symbol} {content : List UInt8} {clears : Nat} {isThere : Bool}
  {past earlier later events : List (Event K V)}

theorem tidy_start (journal : Journal) (config : Config) (allocator : Allocator) :
    (start journal config allocator : Session K V).Tidy [] := by
  have unnamed (name : String) (interner : Interner) :
      (start journal config allocator : Session K V).interners[name]? ≠ some interner := by
    simp [start]
  constructor
  · exact fun name interner named => absurd named (unnamed name interner)
  · exact fun name interner named => absurd named (unnamed name interner)
  · exact fun name interner named => absurd named (unnamed name interner)
  · exact fun name interner named => absurd named (unnamed name interner)
  · intro label symbol kept
    rw [start, Std.TreeMap.getElem?_emptyc] at kept
    cases kept

theorem Runs.tidy (runs : session.Runs events) (tidy : session.Tidy past)
    (typed : ∀ event ∈ events, event.command.isTyped = true)
    (few : ∀ id, clearCount (past ++ events) id < wordLimit) :
    (session.through events).Tidy (past ++ events) := by
  induction runs generalizing past with
  | nil =>
      rw [List.append_nil]
      exact tidy
  | cons starts lawful _ ih =>
      rw [← starts] at tidy
      have next := lawful.tidies tidy (typed _ List.mem_cons_self) (room_of_few tidy few)
      rw [List.append_cons] at few ⊢
      exact ih next (fun event member => typed event (List.mem_cons_of_mem _ member)) few

theorem Runs.vouches (runs : session.Runs events) (tidy : session.Tidy past)
    (typed : ∀ event ∈ events, event.command.isTyped = true)
    (few : ∀ id, clearCount (past ++ events) id < wordLimit)
    (vouches : session.Vouches name symbol content clears isThere) :
    (session.through events).Vouches name symbol content
      (clears + clearCount events symbol.interner)
      (isThere && events.all fun event => !event.refounds name) := by
  induction runs generalizing past clears isThere with
  | nil =>
      rw [List.all_nil, Bool.and_true]
      exact vouches
  | cons starts lawful _ ih =>
      rw [← starts] at tidy vouches
      have room := room_of_few tidy few
      have now := typed _ List.mem_cons_self
      rw [clearCount_cons, ← Nat.add_assoc, List.all_cons, ← Bool.and_assoc]
      rw [List.append_cons] at few
      exact ih (lawful.tidies tidy now room)
        (fun event member => typed event (List.mem_cons_of_mem _ member)) few
        (lawful.vouches tidy now room vouches)

theorem Vouches.resolves {other : String} (tidy : session.Tidy past)
    (vouches : session.Vouches name symbol content clears isThere)
    (named : session.interners[other]? = some interner) :
    ((other = name ∧ isThere = true) ∧ clears = 0 →
      ∃ value, lastStored past symbol.interner content = some value ∧
        interner.Resolves session.process.heap symbol content value) ∧
      (¬ ((other = name ∧ isThere = true) ∧ clears = 0) →
        interner.Rejects session.process symbol) := by
  have own := vouches.own other interner named
  constructor
  · intro current
    obtain ⟨here, fresh⟩ := current
    have same := own.mpr here
    rw [here.1] at named
    obtain ⟨value, member⟩ := vouches.listed interner named same fresh
    have last := tidy.values name interner named _ member
    rw [same] at last
    exact ⟨value, last, Interner.resolves_of_mem member⟩
  · intro gone
    apply Interner.rejects_of_foreign
    intro current
    have here := own.mp current.1.symm
    rw [here.1] at named
    have counted := vouches.generation interner named current.1.symm
    exact gone ⟨here, by omega⟩

theorem Vouches.same_iff {symbol' : Symbol} {content' value' : List UInt8}
    (settled : session.Settled direct) (tidy : session.Tidy past)
    (vouches : session.Vouches name symbol content 0 true)
    (named : session.interners[name]? = some interner)
    (member : (symbol', content', value') ∈ interner.toList session.process.heap) :
    (symbol' = symbol ↔ content' = content) ∧ (symbol.same symbol' = true ↔ content' = content) := by
  have own := (vouches.own name interner named).mpr ⟨rfl, rfl⟩
  obtain ⟨value, there⟩ := vouches.listed interner named own rfl
  exact (tidy.orderly.sound settled named).same_iff there member

theorem Runs.vouches_still (runs : session.Runs events) (tidy : session.Tidy past)
    (typed : ∀ event ∈ events, event.command.isTyped = true)
    (few : ∀ id, clearCount (past ++ events) id < wordLimit)
    (still : ∀ event ∈ events, event.refounds name = false ∧ event.clears symbol.interner = false)
    (vouches : session.Vouches name symbol content 0 true) :
    (session.through events).Vouches name symbol content 0 true := by
  have kept := runs.vouches tidy typed few vouches
  have uncleared := clearCount_eq_zero.mpr fun event member => (still event member).2
  have present : events.all (fun event => !event.refounds name) = true :=
    List.all_eq_true.mpr fun event member => by rw [(still event member).1, Bool.not_false]
  rwa [uncleared, present] at kept

/-- What the client comes by, from an interner of which it has a symbol, is this symbol exactly if
it is for the same string. -/
theorem Runs.same_iff {obtaining second : Event K V} {middle rest : List (Event K V)}
    {symbol' : Symbol} {content' : List UInt8} (runs : session.Runs (obtaining :: later))
    (tidy : session.Tidy past)
    (typed : ∀ event ∈ obtaining :: later, event.command.isTyped = true)
    (few : ∀ id, clearCount (past ++ obtaining :: later) id < wordLimit)
    (obtains : obtaining.Obtains name symbol content)
    (split : obtaining :: later = middle ++ second :: rest)
    (still : ∀ event ∈ middle, event.refounds name = false ∧ event.clears symbol.interner = false)
    (again : second.Obtains name symbol' content') :
    (symbol' = symbol ↔ content' = content) ∧ (symbol.same symbol' = true ↔ content' = content) := by
  cases runs with
  | cons starts lawful following =>
      rw [← starts] at tidy
      have room := room_of_few tidy few
      have now := typed _ List.mem_cons_self
      obtain ⟨owner, value, named, member⟩ := lawful.obtained tidy now room obtains
      have tidied := lawful.tidies tidy now room
      have vouches := lawful.follows.settled.vouches named member
      cases middle with
      | nil =>
          cases split
          obtain ⟨other, value', there, member'⟩ := lawful.obtained tidy now room again
          exact vouches.same_iff lawful.follows.settled tidied there member'
      | cons first middle =>
          cases split
          have few : ∀ id, clearCount (past ++ [obtaining] ++ middle ++ second :: rest) id <
              wordLimit := by
            rw [List.append_cons] at few
            intro id
            rw [List.append_assoc]
            exact few id
          have typed : ∀ event ∈ middle ++ second :: rest, event.command.isTyped = true :=
            fun event member => typed event (List.mem_cons_of_mem _ member)
          obtain ⟨before, after⟩ := following.split
          have sooner := before.tidy tidied
            (fun event member => typed event (List.mem_append_left _ member))
            (few_of_append few)
          cases after with
          | cons starts' lawful' last =>
              rw [← starts'] at sooner
              have room := room_of_few sooner few
              have now := typed _ (List.mem_append_right _ List.mem_cons_self)
              have present := before.vouches_still tidied
                (fun event member => typed event (List.mem_append_left _ member))
                (few_of_append few)
                (fun event member => still event (List.mem_cons_of_mem _ member)) vouches
              rw [← starts'] at present
              have kept := lawful'.vouches sooner now room present
              rw [(again.leaves name symbol.interner).1, (again.leaves name symbol.interner).2]
                at kept
              obtain ⟨other, value', there, member'⟩ := lawful'.obtained sooner now room again
              exact kept.same_iff lawful'.follows.settled (lawful'.tidies sooner now room) there
                member'

/-- A symbol that the client comes by in a run from the start. Until its interner is cleared,
dropped or replaced it stands for its string and the value last stored for that; from then on, and
for every other interner, it stands for nothing. Whatever else the client comes by from the interner
until then is the same symbol exactly if it is for the same string, also where only the addresses of
the entries are compared. -/
theorem history_symbols {allocator : Allocator} (lawful : allocator.Lawful) (journal : Journal)
    (config : Config) {commands : List (Command K V)}
    (proper : ∀ event ∈ (start journal config allocator).history 0 commands,
      event.before.Proper event.command)
    (typed : ∀ event ∈ (start journal config allocator).history 0 commands,
      event.command.isTyped = true)
    (few : ∀ id, clearCount ((start journal config allocator).history 0 commands) id < wordLimit)
    {obtaining : Event K V}
    (split : (start journal config allocator).history 0 commands = earlier ++ obtaining :: later)
    (obtains : obtaining.Obtains name symbol content) :
    (∀ other interner, (obtaining.after.through later).interners[other]? = some interner →
      ((other = name ∧ ∀ event ∈ later, event.refounds name = false) ∧
          (∀ event ∈ later, event.clears symbol.interner = false) →
        ∃ value, lastStored (earlier ++ obtaining :: later) symbol.interner content = some value ∧
          interner.Resolves (obtaining.after.through later).process.heap symbol content value) ∧
      (¬ ((other = name ∧ ∀ event ∈ later, event.refounds name = false) ∧
          ∀ event ∈ later, event.clears symbol.interner = false) →
        interner.Rejects (obtaining.after.through later).process symbol)) ∧
    ∀ middle second rest symbol' content', obtaining :: later = middle ++ second :: rest →
      (∀ event ∈ middle, event.refounds name = false ∧ event.clears symbol.interner = false) →
      second.Obtains name symbol' content' → (symbol' = symbol ↔ content' = content) ∧
        (symbol.same symbol' = true ↔ content' = content) := by
  have runs := (settled_start lawful journal config).runs proper
  rw [split] at runs typed few
  obtain ⟨before, rest⟩ := runs.split
  have tidy := before.tidy (tidy_start journal config allocator)
    (fun event member => typed event (List.mem_append_left _ member)) (few_of_append few)
  have typed : ∀ event ∈ obtaining :: later, event.command.isTyped = true :=
    fun event member => typed event (List.mem_append_right _ member)
  constructor
  · intro other interner named
    cases rest with
    | cons starts lawful' after =>
        rw [List.nil_append, ← starts] at tidy
        have room := room_of_few tidy few
        have now := typed _ List.mem_cons_self
        obtain ⟨owner, value, there, member⟩ := lawful'.obtained tidy now room obtains
        have tidied := lawful'.tidies tidy now room
        have typed : ∀ event ∈ later, event.command.isTyped = true :=
          fun event member => typed event (List.mem_cons_of_mem _ member)
        rw [List.append_cons] at few ⊢
        have vouches := after.vouches tidied typed few
          (lawful'.follows.settled.vouches there member)
        have final := after.tidy tidied typed few
        have resolves := vouches.resolves final named
        rw [Nat.zero_add, clearCount_eq_zero, Bool.true_and, List.all_eq_true] at resolves
        simpa only [Bool.not_eq_true'] using resolves
  · intro middle second rest' symbol' content' again still obtained
    exact rest.same_iff tidy typed few obtains again still obtained

/-- A run in which an interner grows while another one is cleared, and a string is put in again. -/
def symbolRun : List (Event Nat Nat) :=
  (start {} {} .ascending).history 0
    [.createManager "m" .tracked, .createInterner "i" (some "m") 4 ⟨8, 8⟩ fun _ => 0,
      .createInterner "j" (some "m") 4 ⟨8, 8⟩ fun _ => 0, .insert "i" [1] [5] (some "s"),
      .insert "i" [2] [] none, .insert "i" [3] [] none, .insert "i" [4] [] none,
      .setValue "i" "s" [9], .insert "j" [1] [] none, .clearInterner "j",
      .insert "i" [1] [7] (some "t")]

def answeredNew (event : Event Nat Nat) : Bool :=
  match event.outcome with
  | .ok (.inserted isNew) => isNew
  | _ => false

theorem outcome_of_answeredNew {event : Event Nat Nat} (given : answeredNew event = true) :
    event.outcome = .ok (.inserted true) := by
  rw [answeredNew] at given
  split at given
  · rename_i same
    rw [same, given]
  · cases given

def symbolFirst : Event Nat Nat := symbolRun.get ⟨3, by decide +kernel⟩

def symbolAgain : Event Nat Nat := symbolRun.get ⟨10, by decide +kernel⟩

theorem symbolRun_symbols : ∃ interner other,
    (symbolFirst.after.through (symbolRun.drop 4)).interners["i"]? = some interner ∧
    (symbolFirst.after.through (symbolRun.drop 4)).interners["j"]? = some other ∧
    interner.Resolves (symbolFirst.after.through (symbolRun.drop 4)).process.heap
      ⟨1, 0, ⟨69648, 0⟩⟩ [1] [9, 0, 0, 0, 0, 0, 0, 0] ∧
    other.Rejects (symbolFirst.after.through (symbolRun.drop 4)).process ⟨1, 0, ⟨69648, 0⟩⟩ ∧
    ∀ symbol, symbolAgain.Obtains "i" symbol [1] → symbol = ⟨1, 0, ⟨69648, 0⟩⟩ := by
  have split : symbolRun = symbolRun.take 3 ++ symbolFirst :: symbolRun.drop 4 := by
    rw [symbolFirst, List.get_eq_getElem, ← List.drop_eq_getElem_cons, List.take_append_drop]
  have again : symbolFirst :: symbolRun.drop 4 =
      (symbolFirst :: (symbolRun.drop 4).take 6) ++ symbolAgain :: [] := by
    have last : (symbolRun.drop 4).drop 6 = [symbolAgain] := by
      rw [symbolAgain, List.get_eq_getElem, List.drop_drop, List.drop_eq_getElem_cons (by decide +kernel),
        List.drop_eq_nil_of_le (by decide +kernel)]
    rw [List.cons_append, ← last, List.take_append_drop]
  have answered : symbolFirst.outcome = .ok (.inserted true) :=
    outcome_of_answeredNew (by decide +kernel)
  have obtains : symbolFirst.Obtains "i" ⟨1, 0, ⟨69648, 0⟩⟩ [1] :=
    .insert [5] "s" true rfl answered (by decide +kernel)
  obtain ⟨interner, named⟩ : ∃ interner,
      (symbolFirst.after.through (symbolRun.drop 4)).interners["i"]? = some interner :=
    Option.isSome_iff_exists.mp (by decide +kernel)
  obtain ⟨other, present⟩ : ∃ other,
      (symbolFirst.after.through (symbolRun.drop 4)).interners["j"]? = some other :=
    Option.isSome_iff_exists.mp (by decide +kernel)
  have proper : ∀ event ∈ symbolRun, event.before.Proper event.command := by decide +kernel
  have typed : ∀ event ∈ symbolRun, event.command.isTyped = true := by decide +kernel
  have few (id : Nat) : clearCount symbolRun id < wordLimit :=
    Nat.lt_of_le_of_lt List.countP_le_length (by decide +kernel)
  obtain ⟨stands, same⟩ :=
    history_symbols Allocator.ascending_lawful {} {} proper typed few split obtains
  obtain ⟨value, last, resolves⟩ := (stands "i" interner named).1 (by decide +kernel)
  have foreign := (stands "j" other present).2 (by decide)
  have stored : lastStored (symbolRun.take 3 ++ symbolFirst :: symbolRun.drop 4) 1 [1] =
      some [9, 0, 0, 0, 0, 0, 0, 0] := by decide +kernel
  rw [stored] at last
  rw [← Option.some.inj last] at resolves
  refine ⟨interner, other, named, present, resolves, foreign, ?_⟩
  intro symbol obtained
  exact (same _ symbolAgain [] symbol [1] again (by decide +kernel) obtained).1.mpr rfl

end Session

end SymbolStore
