import SymbolStore.Proofs.Interner.Values
import SymbolStore.Proofs.Session.Regions

/-!
Interners in runs of requests. Every request to an interner does to its records what it would do to
those of a map; requests to others leave them; and symbols are named only as they are obtained.
-/

namespace SymbolStore

open SymbolStore.Action (Ends)

variable {K V : Type}

namespace Command

def issues : Command K V → Bool
  | insert .. | intern .. | lookup .. | listInterner _ | nameEntry .. => true
  | _ => false

def isTyped : Command K V → Bool
  | createInterner _ _ _ value _ => isPowerOfTwo value.align
  | _ => true

def change? (session : Session K V) : Command K V → Option Interner.Request
  | insert _ content value _ => some (.insert content value)
  | intern _ text default _ => some (.intern text default)
  | setValue _ label value => (session.symbols[label]?).map (Interner.Request.setValue · value)
  | _ => none

end Command

namespace Session

/-- The interners of a session are in order, and the symbols that are named are their own if they
are current. -/
structure Orderly (session : Session K V) : Prop where
  valid : ∀ (name : String) (interner : Interner), session.interners[name]? = some interner →
    interner.Valid session.process.heap
  align : ∀ (name : String) (interner : Interner), session.interners[name]? = some interner →
    isPowerOfTwo interner.value.align = true
  knows : ∀ (label name : String) (symbol : Symbol) (interner : Interner),
    session.symbols[label]? = some symbol → session.interners[name]? = some interner →
    interner.Knows symbol

variable {session later : Session K V} {direct : Multiset Extent} {name : String}
  {interner : Interner}

theorem interners_of_find? (found : session.find? (.interner name) = some (.interner interner)) :
    session.interners[name]? = some interner := by
  obtain ⟨other, named, same⟩ := Option.map_eq_some_iff.mp found
  cases same
  exact named

theorem Orderly.sound (orderly : session.Orderly) (settled : session.Settled direct)
    (named : session.interners[name]? = some interner) : interner.SoundIn session.process := by
  obtain ⟨account, stocked⟩ := settled.stocked (mem_structures.mpr ⟨_, find?_interner named⟩)
  exact Interner.Stocked.soundIn stocked (orderly.valid name interner named)
    (orderly.align name interner named)

end Session

namespace Event

def clears (event : Event K V) (id : Nat) : Bool :=
  match event.command with
  | .clearInterner name =>
    (event.before.interners[name]?).any fun interner => interner.region.id = id
  | _ => false

def clearCount (events : List (Event K V)) (id : Nat) : Nat :=
  events.countP fun event => event.clears id

/-- The request makes an interner of this name, or takes one out of existence. -/
def refounds (event : Event K V) (name : String) : Bool :=
  match event.command, event.outcome with
  | .createInterner other .., .ok _ | .dropInterner other, _ => other = name
  | _, _ => false

/-- The change of records that the request succeeded in asking of the interner with this name. -/
def change? (event : Event K V) (name : String) : Option Interner.Request :=
  match event.outcome with
  | .ok _ =>
    if event.command.place? = some (.interner name) then event.command.change? event.before
    else none
  | .error _ => none

/-- The records that an interner of this name has after the request, where a new string gets the
symbol `fresh`. -/
def records (event : Event K V) (name : String) (interner : Interner) (fresh : Symbol) :
    List Interner.Record :=
  match event.change? name with
  | some request =>
    (request.onMap interner.value fresh (interner.toList event.before.process.heap)).2
  | none => interner.toList event.before.process.heap

/-- The client comes by a symbol for a string from the interner with this name: it puts the string
in, looks it up, or goes through the entries. -/
inductive Obtains (event : Event K V) (name : String) (symbol : Symbol) (content : List UInt8) :
    Prop
  | insert (value : List UInt8) (label : String) (isNew : Bool)
      (asked : event.command = .insert name content value (some label))
      (answered : event.outcome = .ok (.inserted isNew))
      (kept : event.after.symbols[label]? = some symbol)
  | intern (text : String) (default : List UInt8) (label : String)
      (asked : event.command = .intern name text default (some label))
      (answered : event.outcome = .ok .done) (same : content = text.toUTF8.toList)
      (kept : event.after.symbols[label]? = some symbol)
  | lookup (label : String) (bytes : List UInt8)
      (asked : event.command = .lookup name content (some label))
      (answered : event.outcome = .ok (.bytes (some bytes)))
      (kept : event.after.symbols[label]? = some symbol)
  | entry (index : Nat) (label : String)
      (asked : event.command = .nameEntry name index (some label))
      (answered : event.outcome = .ok (.bytes (some content)))
      (kept : event.after.symbols[label]? = some symbol)
  | listed (value : List UInt8) (entries : List Interner.Record)
      (asked : event.command = .listInterner name)
      (answered : event.outcome = .ok (.interned entries))
      (member : (symbol, content, value) ∈ entries)

theorem Obtains.issues {event : Event K V} {name : String} {symbol : Symbol} {content : List UInt8}
    (obtains : event.Obtains name symbol content) : event.command.issues = true := by
  cases obtains with
  | insert _ _ _ asked | intern _ _ _ asked | lookup _ _ asked | entry _ _ asked | listed _ _ asked =>
      rw [asked]
      rfl

theorem Obtains.concerns {event : Event K V} {name : String} {symbol : Symbol}
    {content : List UInt8} (obtains : event.Obtains name symbol content) :
    event.command.place? = some (.interner name) := by
  cases obtains with
  | insert _ _ _ asked | intern _ _ _ asked | lookup _ _ asked | entry _ _ asked | listed _ _ asked =>
      rw [asked]
      rfl

structure Served (event : Event K V) (name : String) (earlier later : Interner) (fresh : Symbol) :
    Prop where
  before : event.before.interners[name]? = some earlier
  after : event.after.interners[name]? = some later
  continues : earlier.Continues earlier.region.generation (event.records name earlier fresh)
    (later, event.after.process)
  obtains : ∀ symbol content, event.Obtains name symbol content →
    ∃ value, (symbol, content, value) ∈ later.toList event.after.process.heap
  symbols : ∀ (label : String) (symbol : Symbol), event.after.symbols[label]? = some symbol →
    event.before.symbols[label]? = some symbol ∨ ∃ content, event.Obtains name symbol content

inductive Offers (event : Event K V) (name : String) (later : Interner) : Prop
  | fresh (renewed : event.refounds name = true)
      (new : event.before.process.nextRegion ≤ later.region.id)
      (first : later.region.generation = 0) (empty : later.entries = [])
      (valid : later.Valid event.after.process.heap)
      (align : isPowerOfTwo later.value.align = true)
  | lasting (earlier : Interner) (fresh : Symbol) (still : event.refounds name = false)
      (asked : ∀ other, event.command = .clearInterner other → other ≠ name)
      (named : event.before.interners[name]? = some earlier)
      (continues : earlier.Continues earlier.region.generation (event.records name earlier fresh)
        (later, event.after.process))
  | cleared (earlier : Interner) (asked : event.command = .clearInterner name)
      (named : event.before.interners[name]? = some earlier)
      (continues : earlier.Continues (earlier.region.generation + 1) []
        (later, event.after.process))

/-- What a request to an interner leaves and gives out, be it to make, change, clear or drop it. -/
structure Keeps (event : Event K V) (name : String) : Prop where
  offers : ∀ later, event.after.interners[name]? = some later → event.Offers name later
  symbols : ∀ (label : String) (symbol : Symbol), event.after.symbols[label]? = some symbol →
    event.before.symbols[label]? = some symbol ∨ ∃ content, event.Obtains name symbol content
  obtains : ∀ symbol content, event.Obtains name symbol content →
    ∃ later value, event.after.interners[name]? = some later ∧
      (symbol, content, value) ∈ later.toList event.after.process.heap

theorem place?_of_refounds {event : Event K V} {name : String}
    (renewed : event.refounds name = true) : event.command.place? = some (.interner name) := by
  unfold refounds at renewed
  split at renewed
  · rename_i asked _
    rw [asked, ← of_decide_eq_true renewed]
    rfl
  · rename_i asked
    rw [asked, ← of_decide_eq_true renewed]
    rfl
  · cases renewed

section Records

variable {event : Event K V} {name : String} (interner : Interner) (fresh : Symbol)

theorem records_of_failed {failure : Failure} (failed : event.outcome = .error failure) :
    event.records name interner fresh = interner.toList event.before.process.heap := by
  rw [records, change?, failed]

/-- Only what a request asks of this interner changes its records. -/
theorem records_of_apart (apart : event.command.place? ≠ some (.interner name)) :
    event.records name interner fresh = interner.toList event.before.process.heap := by
  rw [records, change?]
  cases event.outcome with
  | ok _ => simp only [if_neg apart]
  | error _ => rfl

theorem records_of_inert (inert : event.command.change? event.before = none) :
    event.records name interner fresh = interner.toList event.before.process.heap := by
  rw [records, change?, inert]
  cases event.outcome with
  | ok _ => simp only [ite_self]
  | error _ => rfl

theorem records_of_change (request : Interner.Request) {answer : Answer K V}
    (answered : event.outcome = .ok answer)
    (concerns : event.command.place? = some (.interner name))
    (asked : event.command.change? event.before = some request) :
    event.records name interner fresh =
      (request.onMap interner.value fresh (interner.toList event.before.process.heap)).2 := by
  rw [records, change?, answered]
  simp only [if_pos concerns, asked]

end Records

end Event

namespace Session

variable {session later : Session K V} {direct : Multiset Extent} {command : Command K V}
  {name : String} {interner after : Interner} {symbol fresh : Symbol} {label : Option String}

def Serving (session : Session K V) (direct : Multiset Extent) (command : Command K V)
    (name : String) : Prop :=
  Ends (perform command) session
    (fun answer later => ∃ earlier after fresh,
      Event.Served ⟨session, direct, command, .ok answer, later⟩ name earlier after fresh)
    fun failure later => later.symbols = session.symbols ∧
      ∀ after, later.interners[name]? = some after → ∃ earlier fresh,
        Event.Served ⟨session, direct, command, .error failure, later⟩ name earlier after fresh

def naming (symbols : Names Symbol) (label : Option String) (symbol : Symbol) : Names Symbol :=
  match label with
  | some label => symbols.insert label symbol
  | none => symbols

@[simp] theorem ends_nameSymbol {done : Unit → Session K V → Prop}
    {failed : Failure → Session K V → Prop} :
    Ends (nameSymbol label symbol) session done failed ↔
      done () { session with symbols := naming session.symbols label symbol } := by
  cases label <;> rfl

theorem naming_self (symbols : Names Symbol) (label : String) (symbol : Symbol) :
    (naming symbols (some label) symbol)[label]? = some symbol := Std.TreeMap.getElem?_insert_self

theorem naming_cases {symbols : Names Symbol} {other : String} {found : Symbol}
    (named : (naming symbols label symbol)[other]? = some found) :
    symbols[other]? = some found ∨ label = some other ∧ found = symbol := by
  cases label with
  | none => exact .inl named
  | some label =>
      change (symbols.insert label symbol)[other]? = some found at named
      rw [Names.getElem?_insert] at named
      split at named
      · rename_i same
        cases named
        exact .inr ⟨congrArg some same, rfl⟩
      · exact .inl named

section Requests

variable (settled : session.Settled direct) (orderly : session.Orderly)

theorem not_obtains_of_failed {failure : Failure} {content : List UInt8}
    (obtains : Event.Obtains ⟨session, direct, command, .error failure, later⟩ name symbol content) :
    False := by
  cases obtains with
  | insert _ _ _ _ answered | intern _ _ _ _ answered | lookup _ _ _ answered
  | entry _ _ _ answered | listed _ _ _ answered => cases answered

include settled orderly

theorem continues_of_inert {answer : Answer K V} (inert : command.change? session = none)
    (named : session.interners[name]? = some after) (same : later.process = session.process) :
    after.Continues after.region.generation
      (Event.records ⟨session, direct, command, .ok answer, later⟩ name after fresh)
      (after, later.process) := by
  rw [Event.records_of_inert _ _ inert, same]
  exact (orderly.sound settled named).continues

theorem served_of_failed {failure : Failure} (symbols : later.symbols = session.symbols)
    (failed : later = session ∨ ∃ earlier after,
      session.find? (.interner name) = some (.interner earlier) ∧
      later.find? (.interner name) = some (.interner after) ∧
      earlier.Continues earlier.region.generation (earlier.toList session.process.heap)
        (after, later.process)) :
    later.symbols = session.symbols ∧ ∀ after, later.interners[name]? = some after →
      ∃ earlier fresh, Event.Served ⟨session, direct, command, .error failure, later⟩ name earlier
        after fresh := by
  refine ⟨symbols, ?_⟩
  intro after there
  have served {earlier : Interner} (before : session.interners[name]? = some earlier)
      (continues : earlier.Continues earlier.region.generation (earlier.toList session.process.heap)
        (after, later.process)) (fresh : Symbol) :
      Event.Served ⟨session, direct, command, .error failure, later⟩ name earlier after fresh :=
    { before
      after := there
      continues := by
        rw [Event.records_of_failed _ _ rfl]
        exact continues
      obtains := fun _ _ obtains => (not_obtains_of_failed obtains).elim
      symbols := fun label symbol named => .inl (symbols ▸ named) }
  rcases failed with rfl | ⟨earlier, same, before, found, continues⟩
  · exact ⟨after, after.symbol ⟨0, 0⟩, served there (orderly.sound settled there).continues _⟩
  · cases (interners_of_find? found).symm.trans there
    exact ⟨earlier, earlier.symbol ⟨0, 0⟩, served (interners_of_find? before) continues _⟩

theorem serving_of_reads {x : Action (Session K V) (Answer K V)}
    {done : Interner → Answer K V → Interner × Process → Prop}
    {failed : Interner → Failure → Interner × Process → Prop}
    (acts : session.Acts direct .interner (.interner name) x done failed)
    (performs : perform command = x)
    (reads : ∀ inner answer after, done inner answer after → after = (inner, session.process))
    (unread : ∀ inner failure after, failed inner failure after → after = (inner, session.process))
    (inert : command.change? session = none)
    (obtains : ∀ inner answer later, done inner answer (inner, session.process) →
      ∀ symbol content,
        Event.Obtains ⟨session, direct, command, .ok answer, later⟩ name symbol content →
        ∃ value, (symbol, content, value) ∈ inner.toList session.process.heap) :
    session.Serving direct command name := by
  rw [Serving, performs]
  apply Ends.mono acts
  · intro answer later ends
    obtain ⟨-, symbols, inner, after, before, found, did⟩ := ends
    have same := reads inner answer _ did
    obtain ⟨rfl, process⟩ := Prod.mk.inj same
    rw [process] at did
    have named := interners_of_find? before
    refine ⟨after, after, after.symbol ⟨0, 0⟩, named, interners_of_find? found,
      continues_of_inert settled orderly inert named process, ?_,
      fun label symbol named => .inl (symbols ▸ named)⟩
    intro symbol content obtained
    rw [process]
    exact obtains after answer later did symbol content obtained
  · intro failure later failed
    refine served_of_failed settled orderly failed.2.2.1 ?_
    rcases failed.2.2.2 with same | ⟨inner, after, before, found, did⟩
    · exact .inl same
    · refine .inr ⟨inner, after, before, found, ?_⟩
      rw [unread inner failure _ did]
      exact (orderly.sound settled (interners_of_find? before)).continues

theorem serving_valueFor (name : String) (content : List UInt8) :
    session.Serving direct (.valueFor name content) name :=
  serving_of_reads settled orderly (onInterner_acts settled fun _ _ => stepping_valueFor content)
    rfl (fun _ _ _ did => did.1) (fun _ _ _ did => did.1) rfl
    fun _ _ _ _ _ _ obtains => absurd obtains.issues Bool.false_ne_true

theorem serving_contains (name : String) (content : List UInt8) :
    session.Serving direct (.contains name content) name :=
  serving_of_reads settled orderly (onInterner_acts settled fun _ _ => stepping_contains content)
    rfl (fun _ _ _ did => did.1) (fun _ _ _ did => did.1) rfl
    fun _ _ _ _ _ _ obtains => absurd obtains.issues Bool.false_ne_true

theorem serving_tells {label : String} (tell : Interner → Heap → Symbol → Answer K V)
    (performs : perform command = do
      let _ ← named (← current).interners name
      let symbol ← Session.symbol label
      onInterner name do return tell (← Method.self) (← Method.heap) symbol)
    (inert : command.change? session = none)
    (silent : command.issues = false) : session.Serving direct command name := by
  apply serving_of_reads settled orderly (tells_acts settled name label tell) performs ?_ ?_ inert
  · intro _ _ _ _ _ _ obtains
    exact absurd (silent.symm.trans obtains.issues) Bool.false_ne_true
  · intro _ _ _ did
    obtain ⟨_, -, same, -⟩ := did
    exact same
  · intro _ _ _ did
    obtain ⟨_, -, same, -⟩ := did
    exact same

theorem serving_listInterner (name : String) :
    session.Serving direct (.listInterner name) name := by
  apply serving_of_reads settled orderly (onInterner_acts settled fun interner _ =>
    stepping_tells (.interner (.refl interner)) fun interner heap =>
      Answer.interned (interner.toList heap)) rfl (fun _ _ _ did => did.1) (fun _ _ _ did => did.1)
    rfl
  intro inner answer later did symbol content obtains
  cases obtains with
  | listed value entries asked answered member =>
      cases did.2.symm.trans (Except.ok.inj answered)
      exact ⟨value, member⟩
  | insert _ _ _ asked | intern _ _ _ asked | lookup _ _ asked | entry _ _ asked => cases asked

omit orderly settled in
theorem served_named {answer : Answer K V} {earlier : Interner} {content : List UInt8}
    (symbols : later.symbols = session.symbols)
    (before : session.interners[name]? = some earlier)
    (there : later.interners[name]? = some after)
    (continues : earlier.Continues earlier.region.generation
      (Event.records ⟨session, direct, command, .ok answer, later⟩ name earlier fresh)
      (after, later.process))
    (member : ∃ value, (symbol, content, value) ∈ after.toList later.process.heap)
    (obtains : ∀ final found other,
      Event.Obtains ⟨session, direct, command, .ok answer, final⟩ name found other →
      other = content ∧ ∃ label', label = some label' ∧ final.symbols[label']? = some found)
    (issues : ∀ (final : Session K V) label', label = some label' →
      final.symbols[label']? = some symbol →
      Event.Obtains ⟨session, direct, command, .ok answer, final⟩ name symbol content) :
    Event.Served ⟨session, direct, command, .ok answer,
      { later with symbols := naming later.symbols label symbol }⟩ name earlier after fresh where
  before := before
  after := there
  continues := continues
  obtains := by
    intro found other obtained
    obtain ⟨rfl, label', same, kept⟩ := obtains _ found other obtained
    change (naming later.symbols label symbol)[label']? = some found at kept
    rw [same, naming_self] at kept
    cases kept
    exact member
  symbols := by
    intro label' found kept
    rcases naming_cases kept with old | ⟨same, rfl⟩
    · exact .inl (symbols ▸ old)
    · exact .inr ⟨content, issues _ label' same kept⟩

theorem serving_lookup (name : String) (content : List UInt8) (label : Option String) :
    session.Serving direct (.lookup name content label) name := by
  rw [Serving, perform, Action.ends_bind]
  apply Ends.mono (onInterner_acts settled fun _ _ => stepping_lookup content)
  · intro answer later ends
    obtain ⟨-, symbols, inner, after, before, found, same, symbol?, rfl, searched, -⟩ := ends
    obtain ⟨rfl, process⟩ := Prod.mk.inj same
    have named := interners_of_find? before
    have there := interners_of_find? found
    have sound := orderly.sound settled named
    cases symbol? with
    | none =>
        refine ⟨after, after, after.symbol ⟨0, 0⟩, named, there,
          continues_of_inert settled orderly rfl named process, ?_,
          fun _ _ kept => .inl (symbols ▸ kept)⟩
        intro _ _ obtains
        cases obtains with
        | lookup label bytes asked answered => cases answered
        | insert _ _ _ asked | intern _ _ _ asked | entry _ _ asked | listed _ _ asked => cases asked
    | some symbol =>
        rw [Interner.lookup_eq sound.valid] at searched
        obtain ⟨record, held, rfl⟩ := Option.map_eq_some_iff.mp (Except.ok.inj searched)
        have member := List.mem_of_find?_eq_some held
        have same : record.2.1 = content := by simpa using List.find?_some held
        have bytes := (Interner.resolves_of_mem member).bytes
        have listed : ∃ value, (record.1, content, value) ∈ after.toList later.process.heap := by
          rw [process, ← same]
          exact ⟨record.2.2, member⟩
        simp only [Option.map_some, bytes, Action.ends_bind, ends_nameSymbol, Action.ends_pure]
        refine ⟨after, after, after.symbol ⟨0, 0⟩, served_named symbols named there
          (continues_of_inert settled orderly rfl named process) listed ?_
          fun final label' same kept => ?_⟩
        · intro final found other obtains
          cases obtains with
          | lookup label' bytes asked answered kept =>
              cases asked
              exact ⟨rfl, label', rfl, kept⟩
          | insert _ _ _ asked | intern _ _ _ asked | entry _ _ asked | listed _ _ asked =>
              cases asked
        · cases same
          exact .lookup label' record.2.1 rfl rfl kept
  · intro failure later failed
    refine served_of_failed settled orderly failed.2.2.1 ?_
    rcases failed.2.2.2 with same | ⟨_, _, _, _, -, none⟩
    · exact .inl same
    · exact none.elim

theorem serving_nameEntry (name : String) (index : Nat) (label : Option String) :
    session.Serving direct (.nameEntry name index label) name := by
  rw [Serving, perform, Action.ends_bind]
  apply Ends.mono (onInterner_acts settled fun _ _ => stepping_entryAt index)
  · intro answer later ends
    obtain ⟨-, symbols, inner, after, before, found, same, listed, -⟩ := ends
    obtain ⟨rfl, process⟩ := Prod.mk.inj same
    have named := interners_of_find? before
    have there := interners_of_find? found
    cases answer with
    | none =>
        refine ⟨after, after, after.symbol ⟨0, 0⟩, named, there,
          continues_of_inert settled orderly rfl named process, ?_,
          fun _ _ kept => .inl (symbols ▸ kept)⟩
        intro _ _ obtains
        cases obtains with
        | entry _ label asked answered => cases answered
        | insert _ _ _ asked | intern _ _ _ asked | lookup _ _ asked | listed _ _ asked => cases asked
    | some pair =>
        obtain ⟨record, present, rfl⟩ := Option.map_eq_some_iff.mp listed.symm
        have member := List.mem_of_getElem? present
        have inside : ∃ value, (record.1, record.2.1, value) ∈ after.toList later.process.heap := by
          rw [process]
          exact ⟨record.2.2, member⟩
        simp only [Action.ends_bind, ends_nameSymbol, Action.ends_pure]
        refine ⟨after, after, after.symbol ⟨0, 0⟩, served_named symbols named there
          (continues_of_inert settled orderly rfl named process) inside ?_
          fun final label' same kept => ?_⟩
        · intro final found other obtains
          cases obtains with
          | entry _ label' asked answered kept =>
              cases asked
              cases answered
              exact ⟨rfl, label', rfl, kept⟩
          | insert _ _ _ asked | intern _ _ _ asked | lookup _ _ asked | listed _ _ asked =>
              cases asked
        · cases same
          exact .entry index label' rfl rfl kept
  · intro failure later failed
    refine served_of_failed settled orderly failed.2.2.1 ?_
    rcases failed.2.2.2 with same | ⟨_, _, _, _, -, none⟩
    · exact .inl same
    · exact none.elim

theorem serving_insert (name : String) (content value : List UInt8) (label : Option String) :
    session.Serving direct (.insert name content value label) name := by
  rw [Serving, perform, Action.ends_bind]
  apply Ends.mono (onInterner_acts settled fun interner named =>
    (stepping_insert content value (manager_mem_holders (find?_interner named))).and
      (Interner.insert_ends content value (orderly.sound settled named)))
  · intro answer later ends
    obtain ⟨-, symbols, inner, after, before, found, -, fresh, rfl, continues⟩ := ends
    obtain ⟨stored, member⟩ := Interner.put_listed (inner.toList session.process.heap) fresh content
      (inner.value.fit value)
    have inside := continues.records.mem_iff.mpr member
    have records (later : Session K V) (isNew : Bool) :
        Event.records ⟨session, direct, .insert name content value label,
          .ok (.inserted isNew), later⟩ name inner fresh =
        (Interner.put fresh content (inner.value.fit value)
          (inner.toList session.process.heap)).2 :=
      Event.records_of_change inner fresh (.insert content value) rfl rfl rfl
    simp only [Action.ends_bind, ends_nameSymbol, Action.ends_pure]
    refine ⟨inner, after, fresh, served_named symbols (interners_of_find? before)
      (interners_of_find? found) ?_ ⟨stored, inside⟩ ?_ fun final label' same kept => ?_⟩
    · rw [records]
      exact continues
    · intro final found other obtains
      cases obtains with
      | insert _ label' _ asked answered kept =>
          cases asked
          exact ⟨rfl, label', rfl, kept⟩
      | intern _ _ _ asked | lookup _ _ asked | entry _ _ asked | listed _ _ asked => cases asked
    · cases same
      exact .insert value label' _ rfl rfl kept
  · intro failure later failed
    refine served_of_failed settled orderly failed.2.2.1 ?_
    rcases failed.2.2.2 with same | ⟨inner, after, before, found, -, -, -, continues⟩
    · exact .inl same
    · exact .inr ⟨inner, after, before, found, continues⟩

theorem serving_intern (name text : String) (default : List UInt8)
    (label : Option String) :
    session.Serving direct (.intern name text default label) name := by
  rw [Serving, perform, Action.ends_bind]
  apply Ends.mono (onInterner_acts settled fun interner named =>
    (stepping_intern text default (manager_mem_holders (find?_interner named))).and
      (Interner.intern_ends text default (orderly.sound settled named)))
  · intro symbol later ends
    obtain ⟨-, symbols, inner, after, before, found, -, fresh, rfl, continues⟩ := ends
    obtain ⟨stored, member⟩ := Interner.put_listed (inner.toList session.process.heap) fresh
      text.toUTF8.toList (inner.value.fit default)
    have inside := continues.records.mem_iff.mpr member
    have records (later : Session K V) :
        Event.records ⟨session, direct, .intern name text default label, .ok .done, later⟩ name inner fresh =
        (Interner.put fresh text.toUTF8.toList (inner.value.fit default)
          (inner.toList session.process.heap)).2 :=
      Event.records_of_change inner fresh (.intern text default) rfl rfl rfl
    simp only [Action.ends_bind, ends_nameSymbol, Action.ends_pure]
    refine ⟨inner, after, fresh, served_named symbols (interners_of_find? before)
      (interners_of_find? found) ?_ ⟨stored, inside⟩ ?_ fun final label' same kept => ?_⟩
    · rw [records]
      exact continues
    · intro final found other obtains
      cases obtains with
      | intern _ _ label' asked answered same kept =>
          cases asked
          exact ⟨same, label', rfl, kept⟩
      | insert _ _ _ asked | lookup _ _ asked | entry _ _ asked | listed _ _ asked => cases asked
    · cases same
      exact .intern text default label' rfl rfl rfl kept
  · intro failure later failed
    refine served_of_failed settled orderly failed.2.2.1 ?_
    rcases failed.2.2.2 with same | ⟨inner, after, before, found, -, -, -, continues⟩
    · exact .inl same
    · exact .inr ⟨inner, after, before, found, continues⟩

theorem serving_setValue (name label : String) (value : List UInt8) :
    session.Serving direct (.setValue name label value) name := by
  apply Ends.mono (settled.acts_symbol fun symbol kept =>
    (onInterner_acts settled fun interner there =>
      (stepping_setValue value fun names => (settled.issued label symbol kept).2 interner
        (mem_structures.mpr ⟨_, find?_interner there⟩) names).and
      (Interner.setValue_ends value (orderly.sound settled there)
        (orderly.knows label name symbol interner kept there))).answers _)
  · intro answer later ends
    obtain ⟨-, symbols, inner, after, before, found, symbol, kept, isGood, rfl, -, -, continues⟩ :=
      ends
    have records : Event.records ⟨session, direct, .setValue name label value,
        .ok (.truth isGood), later⟩ name inner (inner.symbol ⟨0, 0⟩) =
        Interner.revalue symbol (inner.value.fit value) (inner.toList session.process.heap) := by
      refine Event.records_of_change inner _ (.setValue symbol value) rfl rfl ?_
      rw [Command.change?, kept]
      rfl
    refine ⟨inner, after, inner.symbol ⟨0, 0⟩, interners_of_find? before, interners_of_find? found,
      ?_, fun _ _ obtains => absurd obtains.issues Bool.false_ne_true,
      fun label symbol named => .inl (symbols ▸ named)⟩
    rw [records]
    exact continues
  · intro failure later failed
    refine served_of_failed settled orderly failed.2.2.1 ?_
    rcases failed.2.2.2 with same | ⟨_, _, _, _, _, -, -, none⟩
    · exact .inl same
    · exact none.elim

theorem serving_of_concerns (concerns : command.place? = some (.interner name)) :
    (session.Serving direct command name ∧
      (∀ outcome later,
        Event.refounds ⟨session, direct, command, outcome, later⟩ name = false) ∧
      ∀ other, command ≠ .clearInterner other) ∨
      command = .clearInterner name ∨ command = .dropInterner name ∨
      ∃ source capacity value hasher, command = .createInterner name source capacity value hasher := by
  cases command with
  | insert _ content value label =>
      cases concerns
      exact .inl ⟨serving_insert settled orderly name content value label, fun _ _ => rfl, nofun⟩
  | intern _ text default label =>
      cases concerns
      exact .inl ⟨serving_intern settled orderly name text default label, fun _ _ => rfl, nofun⟩
  | lookup _ content label =>
      cases concerns
      exact .inl ⟨serving_lookup settled orderly name content label, fun _ _ => rfl, nofun⟩
  | valueFor _ content =>
      cases concerns
      exact .inl ⟨serving_valueFor settled orderly name content, fun _ _ => rfl, nofun⟩
  | contains _ content =>
      cases concerns
      exact .inl ⟨serving_contains settled orderly name content, fun _ _ => rfl, nofun⟩
  | valueOf _ label =>
      cases concerns
      exact .inl ⟨serving_tells settled orderly (fun interner heap symbol =>
        .bytes (interner.valueOf heap symbol)) rfl rfl rfl, fun _ _ => rfl, nofun⟩
  | setValue _ label value =>
      cases concerns
      exact .inl ⟨serving_setValue settled orderly name label value, fun _ _ => rfl, nofun⟩
  | bytesOf _ label =>
      cases concerns
      exact .inl ⟨serving_tells settled orderly (fun interner heap symbol =>
        .bytes (interner.bytesOf heap symbol)) rfl rfl rfl, fun _ _ => rfl, nofun⟩
  | textOf _ label =>
      cases concerns
      exact .inl ⟨serving_tells settled orderly (fun interner heap symbol =>
        .text (interner.textOf heap symbol)) rfl rfl rfl, fun _ _ => rfl, nofun⟩
  | listInterner =>
      cases concerns
      exact .inl ⟨serving_listInterner settled orderly name, fun _ _ => rfl, nofun⟩
  | nameEntry _ index label =>
      cases concerns
      exact .inl ⟨serving_nameEntry settled orderly name index label, fun _ _ => rfl, nofun⟩
  | clearInterner =>
      cases concerns
      exact .inr (.inl rfl)
  | dropInterner =>
      cases concerns
      exact .inr (.inr (.inl rfl))
  | createInterner _ source capacity value hasher =>
      cases concerns
      exact .inr (.inr (.inr ⟨source, capacity, value, hasher, rfl⟩))
  | _ => cases concerns

theorem clearInterner_ends (name : String)
    (room : ∀ earlier : Interner, session.interners[name]? = some earlier →
      earlier.region.generation + 1 < wordLimit) :
    Ends (perform (.clearInterner name)) session
      (fun _ later => later.symbols = session.symbols ∧ ∃ earlier after,
        session.interners[name]? = some earlier ∧ later.interners[name]? = some after ∧
        earlier.Continues (earlier.region.generation + 1) [] (after, later.process))
      fun _ later => later = session ∧ session.interners[name]? = none := by
  rw [perform, Action.ends_bind]
  apply ends_within_named
  · exact fun absent => ⟨rfl, absent⟩
  · intro earlier there
    apply (Interner.clear_ends (orderly.sound settled there)).mono
    · intro _ after continues
      exact ⟨rfl, earlier, after.1, there, Std.TreeMap.getElem?_insert_self, continues⟩
    · intro _ after last
      exact absurd (room earlier there) (Nat.not_lt.mpr last)

omit settled orderly in
theorem keeping_of_serving (serving : session.Serving direct command name)
    (still : ∀ outcome later,
      Event.refounds ⟨session, direct, command, outcome, later⟩ name = false)
    (asked : ∀ other, command ≠ .clearInterner other) :
    Ends (perform command) session
      (fun answer later => Event.Keeps ⟨session, direct, command, .ok answer, later⟩ name)
      fun failure later => Event.Keeps ⟨session, direct, command, .error failure, later⟩ name := by
  apply Ends.mono serving
  · intro answer later ends
    obtain ⟨earlier, after, fresh, served⟩ := ends
    refine ⟨?_, served.symbols, ?_⟩
    · intro last there
      cases served.after.symm.trans there
      exact .lasting earlier fresh (still _ _) (fun other same => absurd same (asked other))
        served.before served.continues
    · intro symbol content obtains
      obtain ⟨value, member⟩ := served.obtains symbol content obtains
      exact ⟨after, value, served.after, member⟩
  · intro _ later failed
    obtain ⟨symbols, served⟩ := failed
    refine ⟨?_, fun label symbol kept => .inl (symbols ▸ kept), ?_⟩
    · intro after there
      obtain ⟨earlier, fresh, served⟩ := served after there
      exact .lasting earlier fresh (still _ _) (fun other same => absurd same (asked other))
        served.before served.continues
    · exact fun _ _ obtains => (not_obtains_of_failed obtains).elim

omit orderly in
theorem keeping_createInterner (name : String) (source : Option String) (capacity : Nat)
    (value : Layout) (hasher : List UInt8 → UInt64) (typed : isPowerOfTwo value.align = true) :
    Ends (perform (.createInterner name source capacity value hasher)) session
      (fun answer later => Event.Keeps ⟨session, direct, .createInterner name source capacity value
        hasher, .ok answer, later⟩ name)
      fun _ later => later.symbols = session.symbols ∧
        session.Leaves later (· ∈ (none : Option Place)) := by
  apply (settled.creates (interner_builds capacity value hasher) (fun _ => rfl)
    (nameInterner_eq name) source).mono
  · intro answer later made
    obtain ⟨-, symbols, interner, found, ⟨layout, empty, valid, first⟩, new⟩ := made
    refine ⟨?_, fun label symbol kept => .inl (symbols ▸ kept),
      fun _ _ obtains => absurd obtains.issues Bool.false_ne_true⟩
    intro after there
    cases (interners_of_find? found).symm.trans there
    exact .fresh (decide_eq_true rfl) (new _ rfl) first empty (valid _) (layout ▸ typed)
  · intro _ later failed
    exact ⟨failed.2.symbols fun name => Option.not_mem_none _, failed.2.leaves⟩

theorem keeping_clearInterner (name : String)
    (room : ∀ earlier : Interner, session.interners[name]? = some earlier →
      earlier.region.generation + 1 < wordLimit) :
    Ends (perform (.clearInterner name)) session
      (fun answer later => Event.Keeps ⟨session, direct, .clearInterner name, .ok answer, later⟩ name)
      fun failure later => Event.Keeps ⟨session, direct, .clearInterner name, .error failure, later⟩
        name := by
  apply (clearInterner_ends settled orderly name room).mono
  · intro answer later ends
    obtain ⟨symbols, earlier, after, before, there, continues⟩ := ends
    refine ⟨?_, fun label symbol kept => .inl (symbols ▸ kept),
      fun _ _ obtains => absurd obtains.issues Bool.false_ne_true⟩
    intro last named
    cases there.symm.trans named
    exact .cleared earlier rfl before continues
  · intro failure later failed
    obtain ⟨rfl, absent⟩ := failed
    refine ⟨?_, fun _ _ kept => .inl kept,
      fun _ _ obtains => absurd obtains.issues Bool.false_ne_true⟩
    intro last named
    cases absent.symm.trans named

omit orderly in
theorem keeping_dropInterner (name : String) :
    Ends (perform (.dropInterner name)) session
      (fun answer later => Event.Keeps ⟨session, direct, .dropInterner name, .ok answer, later⟩ name)
      fun _ _ => False := by
  have drops : perform (.dropInterner name : Command K V) = vacate (.interner name) :=
    perform_drop (.interner name)
  rw [drops]
  apply (settled.vacated _).mono ?_ fun _ _ none => none
  intro answer later gone
  obtain ⟨-, symbols, absent⟩ := gone
  refine ⟨?_, fun label symbol kept => .inl (symbols ▸ kept),
    fun _ _ obtains => absurd obtains.issues Bool.false_ne_true⟩
  intro last named
  rw [find?_interner named] at absent
  cases absent

end Requests

end Session

namespace Event

open Session

variable {event : Event K V} {name : String} {later : Interner} {direct direct' : Multiset Extent}

theorem offers_of_leaves {touched : Place → Prop} (orderly : event.before.Orderly)
    (settled : event.before.Settled direct) (there : event.after.Settled direct')
    (leaves : event.before.Leaves event.after touched) (apart : ¬ touched (.interner name))
    (still : event.refounds name = false) (asked : event.command ≠ .clearInterner name)
    (same : ∀ interner fresh,
      event.records name interner fresh = interner.toList event.before.process.heap)
    (named : event.after.interners[name]? = some later) : event.Offers name later := by
  have found := (leaves.found _ apart).symm.trans (find?_interner named)
  have before := interners_of_find? found
  have sound := orderly.sound settled before
  have keeps : ∀ entry ∈ later.entries, event.before.process.heap.Keeps event.after.process.heap
      entry (later.span event.before.process.heap entry) := by
    intro entry member
    obtain ⟨extent, belongs, address⟩ := Multiset.mem_map.mp
      (Interner.mem_holdings (sound.mem_blocks member))
    have intact := leaves.intact _ _ apart found extent belongs
    rw [address] at intact
    exact Heap.keeps_of_find? intact
  obtain ⟨account, stocked⟩ := there.stocked (mem_structures.mpr ⟨_, find?_interner named⟩)
  refine .lasting later (later.symbol ⟨0, 0⟩) still (fun other equal names => asked (names ▸ equal))
    before ⟨Interner.Stocked.soundIn stocked (sound.valid.keeps sound.positive keeps) sound.align,
      rfl, rfl, rfl, rfl, rfl, ?_⟩
  rw [same, Interner.toList_keeps sound.positive keeps]

theorem Lawful.keeps (lawful : event.Lawful) (orderly : event.before.Orderly)
    (typed : event.command.isTyped = true)
    (room : event.command = .clearInterner name → ∀ earlier : Interner,
      event.before.interners[name]? = some earlier → earlier.region.generation + 1 < wordLimit)
    (concerns : event.command.place? = some (.interner name)) : event.Keeps name := by
  have settled := lawful.settled
  have after := lawful.follows.settled
  have ends {P : Except Failure (Answer K V) → Session K V → Prop} := lawful.ends (P := P)
  obtain ⟨before, direct, command, outcome, later⟩ := event
  rcases serving_of_concerns settled orderly concerns with ⟨serving, still, asked⟩ | rfl | rfl |
    ⟨source, capacity, value, hasher, rfl⟩
  · exact ends (P := fun outcome later => Keeps ⟨before, direct, command, outcome, later⟩ name)
      (keeping_of_serving serving still asked)
  · exact ends (P := fun outcome later => Keeps ⟨before, direct, _, outcome, later⟩ name)
      (keeping_clearInterner settled orderly name (room rfl))
  · exact ends (P := fun outcome later => Keeps ⟨before, direct, _, outcome, later⟩ name)
      ((keeping_dropInterner settled name).mono (fun _ _ keeps => keeps) fun _ _ none => none.elim)
  · have cases := ends (P := fun outcome later => Keeps ⟨before, direct, .createInterner name source
        capacity value hasher, outcome, later⟩ name ∨ (∃ failure, outcome = .error failure) ∧
          later.symbols = before.symbols ∧ before.Leaves later (· ∈ (none : Option Place)))
      ((keeping_createInterner settled name source capacity value hasher typed).mono
        (fun _ _ keeps => .inl keeps) fun failure _ failed => .inr ⟨⟨failure, rfl⟩, failed⟩)
    rcases cases with keeps | ⟨⟨failure, rfl⟩, symbols, leaves⟩
    · exact keeps
    · refine ⟨?_, fun label symbol kept => .inl (symbols ▸ kept),
        fun _ _ obtains => (not_obtains_of_failed obtains).elim⟩
      intro last named
      exact offers_of_leaves orderly settled after leaves (Option.not_mem_none _) rfl nofun
        (fun _ _ => records_of_failed _ _ rfl) named

theorem Lawful.offers (lawful : event.Lawful) (orderly : event.before.Orderly)
    (typed : event.command.isTyped = true)
    (room : event.command = .clearInterner name → ∀ earlier : Interner,
      event.before.interners[name]? = some earlier → earlier.region.generation + 1 < wordLimit)
    (named : event.after.interners[name]? = some later) : event.Offers name later := by
  by_cases concerns : event.command.place? = some (.interner name)
  · exact (lawful.keeps orderly typed room concerns).offers later named
  · refine offers_of_leaves orderly lawful.settled lawful.follows.settled lawful.follows.leaves
      (fun same => concerns same) ?_ ?_ (records_of_apart · · concerns) named
    · exact Bool.eq_false_iff.mpr fun renewed => concerns (place?_of_refounds renewed)
    · intro asked
      exact concerns (asked ▸ rfl)

/-- Symbols are named only as they are obtained. -/
theorem Lawful.symbols (lawful : event.Lawful) (orderly : event.before.Orderly)
    (typed : event.command.isTyped = true)
    (room : ∀ name, event.command = .clearInterner name → ∀ earlier : Interner,
      event.before.interners[name]? = some earlier → earlier.region.generation + 1 < wordLimit)
    {label : String} {symbol : Symbol} (kept : event.after.symbols[label]? = some symbol) :
    event.before.symbols[label]? = some symbol ∨
      ∃ name content, event.Obtains name symbol content := by
  by_cases concerns : ∃ name, event.command.place? = some (.interner name)
  · obtain ⟨name, concerns⟩ := concerns
    rcases (lawful.keeps orderly typed (room name) concerns).symbols label symbol kept with
      old | ⟨content, obtains⟩
    · exact .inl old
    · exact .inr ⟨name, content, obtains⟩
  · have same := lawful.follows.symbols fun name member => concerns ⟨name, member⟩
    exact .inl (same ▸ kept)

end Event

end SymbolStore
