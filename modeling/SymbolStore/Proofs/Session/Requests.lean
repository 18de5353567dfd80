import SymbolStore.Proofs.Session.Steps

/-!
What a request should do: which structure it concerns, and which blocks the client has after it.
Requests to structures do this.
-/

namespace SymbolStore

open SymbolStore.Action (Ends)

variable {K V : Type}

namespace Command

def place? : Command K V → Option Place
  | createManager name _ | shareManager name _ | dropManager name => some (.manager name)
  | createArray name .. | resizeArray name .. | fillArray name _ | setElement name ..
  | getElement name _ | readArray name | dropArray name => some (.array name)
  | createRegion name .. | storeRange name .. | storeBytes name .. | resetRegion name
  | dropRegion name => some (.region name)
  | createInterner name .. | insert name .. | intern name .. | lookup name .. | valueFor name _
  | contains name _ | valueOf name _ | setValue name .. | bytesOf name _ | textOf name _
  | listInterner name | nameEntry name .. | clearInterner name
  | dropInterner name => some (.interner name)
  | createDictionary name .. | setKey name .. | getKey name _ | modifyKey name .. | hasKey name _
  | removeKey name _ | deleteKey name _ | listDictionary name | clearDictionary name
  | dropDictionary name => some (.dictionary name)
  | _ => none

def isDirect : Command K V → Bool
  | allocate .. | allocateArray .. | reallocate .. | reallocateArray .. | free .. | writeBlock ..
  | readBlock .. => true
  | _ => false

def claims (session : Session K V) (answer : Answer K V) (direct : Multiset Extent) :
    Command K V → Multiset Extent
  | allocate source _ payload =>
    match session.managers[source]?, answer with
    | some manager, .address address => { manager, address, size := payload.size } ::ₘ direct
    | _, _ => direct
  | allocateArray source _ element count =>
    match session.managers[source]?, answer with
    | some manager, .address address =>
      { manager, address, size := element.size * count } ::ₘ direct
    | _, _ => direct
  | reallocate source name _ newSize =>
    match session.managers[source]?, session.blocks[name]?, answer with
    | some manager, some old, .address address =>
      { manager, address, size := newSize } ::ₘ direct.filter fun extent => extent.address ≠ old
    | _, _, _ => direct
  | reallocateArray source name element _ newCount =>
    match session.managers[source]?, session.blocks[name]?, answer with
    | some manager, some old, .address address =>
      { manager, address, size := element.size * newCount } ::ₘ
        direct.filter fun extent => extent.address ≠ old
    | _, _, _ => direct
  | free _ name =>
    match session.blocks[name]? with
    | some old => direct.filter fun extent => extent.address ≠ old
    | none => direct
  | _ => direct

end Command

namespace Session

variable {α O : Type} {session : Session K V} {direct : Multiset Extent} {name : String}
  {command : Command K V} {place : Place} {make : O → Structure K V}

/-- The request does what it should, and fails for nobody's misuse of a block unless it is one for a
block of the client. -/
def Fulfils (session : Session K V) (direct : Multiset Extent) (command : Command K V) : Prop :=
  Ends (perform command) session
    (fun answer later =>
      session.Follows direct (command.claims session answer direct) command.place? later)
    fun failure later => (command.isDirect = false → failure.isMisuse = false) ∧
      session.Follows direct direct command.place? later

theorem Acts.fulfils {x : Action (Session K V) (Answer K V)}
    {done : O → Answer K V → O × Process → Prop} {failed : O → Failure → O × Process → Prop}
    (acts : session.Acts direct make place x done failed) (performs : perform command = x)
    (concerns : command.place? = some place)
    (claims : ∀ answer, command.claims session answer direct = direct) :
    session.Fulfils direct command := by
  rw [Fulfils, performs, concerns]
  apply acts.mono
  · intro a later ends
    rw [claims]
    exact ends.1
  · intro failure later spares
    exact ⟨fun _ => spares.1, spares.2.1⟩

theorem Acts.answers {β : Type} {x : Action (Session K V) α} {done : O → α → O × Process → Prop}
    {failed : O → Failure → O × Process → Prop}
    (acts : session.Acts direct make place x done failed) (answer : α → β) :
    session.Acts direct make place (x >>= fun a => pure (answer a))
      (fun inner b after => ∃ a, b = answer a ∧ done inner a after) failed := by
  rw [Acts, Action.ends_bind]
  apply Ends.mono acts
  · intro a later ends
    obtain ⟨follows, symbols, inner, after, before, there, did⟩ := ends
    exact ⟨follows, symbols, inner, after, before, there, a, rfl, did⟩
  · exact fun _ _ spares => spares

theorem fulfils_of_done {command : Command K V} {P : Session K V → Prop}
    (ends : Ends (perform command) session
      (fun _ later => session.Follows direct direct command.place? later ∧ P later)
      fun failure later => failure.isMisuse = false ∧ session.Follows direct direct none later)
    (claims : ∀ answer, command.claims session answer direct = direct) :
    session.Fulfils direct command := by
  apply ends.mono
  · intro answer later ends
    rw [claims]
    exact ends.1
  · exact fun _ _ failed => ⟨fun _ => failed.1, failed.2.widen _⟩

theorem stepping_of_reads {x : Method O α} {inner : O} {done : α → Prop} {failed : Failure → Prop}
    (same : (make inner).Same (make inner))
    (reads : ∀ others : Account, (make inner).Stocked session.process others →
      Ends x (inner, session.process)
        (fun a after => after = (inner, session.process) ∧ done a)
        fun failure after => after = (inner, session.process) ∧ failure.isMisuse = false ∧
          failed failure) :
    session.Stepping make x inner
      (fun a after => after = (inner, session.process) ∧ done a)
      fun failure after => after = (inner, session.process) ∧ failed failure := by
  intro others _ stocked
  apply (reads others stocked).mono
  · intro a after ends
    obtain ⟨rfl, did⟩ := ends
    exact ⟨⟨rfl, did⟩, same, stocked⟩
  · intro failure after ends
    obtain ⟨rfl, blameless, did⟩ := ends
    exact ⟨⟨blameless, rfl, did⟩, same, stocked⟩

theorem stepping_tells {inner : O} (same : (make inner).Same (make inner)) (tell : O → Heap → α) :
    session.Stepping make
      (do
        let inner ← Method.self
        let heap ← Method.heap
        return tell inner heap)
      inner
      (fun a after => after = (inner, session.process) ∧ a = tell inner session.process.heap)
      fun _ after => after = (inner, session.process) ∧ False := by
  apply stepping_of_reads same
  intro others _
  exact ⟨rfl, rfl⟩

theorem stepping_asks {β : Type} {inner : O} {done : β → Prop}
    (same : (make inner).Same (make inner)) (question : O → Heap → Except Fault β)
    (tell : O → Heap → β → α)
    (answers : ∀ others : Account, (make inner).Stocked session.process others →
      ∃ b, question inner session.process.heap = .ok b ∧ done b) :
    session.Stepping make
      (do
        let inner ← Method.self
        let heap ← Method.heap
        let b ← question inner heap
        return tell inner heap b)
      inner
      (fun a after => after = (inner, session.process) ∧
        ∃ b, a = tell inner session.process.heap b ∧ done b)
      fun _ after => after = (inner, session.process) ∧ False := by
  apply stepping_of_reads same
  intro others stocked
  obtain ⟨b, answered, did⟩ := answers others stocked
  simp only [Action.ends_bind, Method.ends_self, Method.ends_heap, Action.ends_liftFault, answered]
  exact ⟨rfl, b, rfl, did⟩

section Arrays

variable {array : FlatArray} {length index : Nat} {value : List UInt8}

theorem stepping_resize (held : array.manager ∈ session.holders)
    (counted : array.Counted session.process length value) :
    session.Stepping .array (FlatArray.resize length value) array (fun _ _ => True)
      fun _ _ => True := by
  intro others holders houses
  rw [← holders] at held
  apply (FlatArray.resize_houses length value houses held counted).mono
  · intro _ after ends
    exact ⟨trivial, .array ends.1, ends.2.2⟩
  · intro failure after ends
    obtain ⟨same, spares⟩ := ends
    refine ⟨⟨spares.1, trivial⟩, ?_, ?_⟩
    · rw [same]
      exact .array (.refl array)
    · rw [same]
      exact spares.2

theorem stepping_fill :
    session.Stepping .array (FlatArray.fill value) array (fun _ _ => True) fun _ _ => True := by
  intro others holders houses
  apply (FlatArray.fill_houses value houses).mono
  · intro _ after ends
    rw [ends.1]
    exact ⟨trivial, .array (.refl array), ends.2⟩
  · intro failure after none
    exact none.elim

theorem stepping_set : session.Stepping .array (FlatArray.set index value) array
    (fun _ _ => True) fun _ _ => True := by
  intro others holders houses
  apply (FlatArray.set_houses index value houses).mono
  · intro _ after ends
    rw [ends.1]
    exact ⟨trivial, .array (.refl array), ends.2⟩
  · intro failure after ends
    obtain ⟨blameless, rfl⟩ := ends
    exact ⟨⟨blameless, trivial⟩, .array (.refl array), houses⟩

theorem stepping_get : session.Stepping .array (FlatArray.get index) array
    (fun _ after => after = (array, session.process) ∧ True)
    fun _ after => after = (array, session.process) ∧ True := by
  apply stepping_of_reads (.array (.refl array))
  intro others _
  simp only [FlatArray.get, Action.ends_bind, Method.ends_self]
  split
  · exact ⟨rfl, trivial⟩
  · exact ⟨rfl, rfl, trivial⟩

end Arrays

section Regions

variable {region : Region} {process : Process}

theorem stepping_store (range : Layout) (content : Nat → UInt8)
    (held : region.manager ∈ session.holders) :
    session.Stepping .region (Region.store range content) region
      (fun pointer after => ∃ place, pointer = after.1.pointer place ∧
        region.Writes session.process range ((List.range range.size).map content) place after)
      fun _ after => region.Misses session.process after := by
  intro others holders stocked
  rw [← holders] at held
  apply (Region.store_stocked range content stocked held).mono
  · intro pointer after ends
    obtain ⟨⟨place, pointed, writes⟩, there⟩ := ends
    exact ⟨⟨place, pointed, writes⟩, .region writes.takes.same, there⟩
  · intro failure after ends
    exact ⟨⟨ends.1, ends.2.1⟩, .region ends.2.1.same, ends.2.2⟩

theorem stepping_storeBytes (bytes : List UInt8) (held : region.manager ∈ session.holders) :
    session.Stepping .region (Region.storeBytes bytes) region
      (fun handle after => ∃ place, handle = region.handleFor place bytes.length ∧
        region.Writes session.process { size := bytes.length, align := 1 } bytes place after)
      fun _ after => region.Misses session.process after := by
  intro others holders stocked
  rw [← holders] at held
  apply (Region.storeBytes_stocked bytes stocked held).mono
  · intro handle after ends
    obtain ⟨⟨place, issued, writes⟩, there⟩ := ends
    exact ⟨⟨place, issued, writes⟩, .region writes.takes.same, there⟩
  · intro failure after ends
    exact ⟨⟨ends.1, ends.2.1⟩, .region ends.2.1.same, ends.2.2⟩

theorem stepping_reset :
    session.Stepping .region Region.reset region
      (fun _ after => after.1 = { region.rewound with generation := region.generation + 1 })
      fun _ after => wordLimit ≤ region.generation + 1 ∧ after.1 = region.rewound := by
  intro others _ stocked
  apply (Region.reset_stocked stocked).mono
  · intro _ after ends
    obtain ⟨rewound, there⟩ := ends
    refine ⟨rewound, ?_, there⟩
    rw [rewound]
    exact .region ⟨rfl, rfl⟩
  · intro failure after ends
    obtain ⟨rfl, last, rewound, there⟩ := ends
    refine ⟨⟨rfl, last, rewound⟩, ?_, there⟩
    rw [rewound]
    exact .region ⟨rfl, rfl⟩

end Regions

section Interners

variable {interner : Interner}

theorem stepping_of_keeps {x : Method Interner α} {done : α → Interner × Process → Prop}
    (held : interner.manager ∈ session.holders)
    (keeps : ∀ others : Account, interner.manager ∈ others.holders →
      interner.Stocked session.process others →
      Ends x (interner, session.process)
        (fun a after => interner.Keeps others after ∧ done a after) (interner.Spares others)) :
    session.Stepping .interner x interner done fun _ _ => True := by
  intro others holders stocked
  rw [← holders] at held
  apply (keeps others held stocked).mono
  · intro a after ends
    exact ⟨ends.2, .interner ends.1.same, ends.1.stocked⟩
  · intro failure after spares
    exact ⟨⟨spares.1, trivial⟩, .interner spares.2.same, spares.2.stocked⟩

theorem stepping_insert (content value : List UInt8) (held : interner.manager ∈ session.holders) :
    session.Stepping .interner (Interner.insert content value) interner
      (fun answer after => after.1.Issues answer.1) fun _ _ => True :=
  stepping_of_keeps held fun _ holder stocked =>
    Interner.insert_keeps content value stocked holder

theorem stepping_intern (text : String) (default : List UInt8)
    (held : interner.manager ∈ session.holders) :
    session.Stepping .interner (Interner.intern text default) interner
      (fun symbol after => after.1.Issues symbol) fun _ _ => True := by
  apply stepping_of_keeps held
  intro others holder stocked
  apply (Interner.insert_keeps text.toUTF8.toList default stocked holder).bind
    fun _ _ spares => spares
  intro answer after ends
  exact ends

theorem stepping_setValue {symbol : Symbol} (value : List UInt8)
    (issued : symbol.interner = interner.region.id → interner.Issues symbol) :
    session.Stepping .interner (Interner.setValue symbol value) interner
      (fun _ after => after.1 = interner) fun _ after => after = (interner, session.process) := by
  intro others _ stocked
  apply (Interner.setValue_keeps value stocked issued).mono
  · intro _ after ends
    obtain ⟨same, there⟩ := ends
    refine ⟨same, ?_⟩
    rw [same]
    exact ⟨.interner (.refl interner), there⟩
  · rintro _ _ ⟨rfl, rfl⟩
    exact ⟨⟨rfl, rfl⟩, .interner (.refl interner), stocked⟩

theorem stepping_clear :
    session.Stepping .interner Interner.clear interner
      (fun _ after => after.1.region.generation = interner.region.generation + 1)
      fun _ _ => wordLimit ≤ interner.region.generation + 1 := by
  intro others _ stocked
  apply (Interner.clear_keeps stocked).mono
  · intro _ after ends
    exact ⟨ends.2, .interner ends.1.same, ends.1.stocked⟩
  · intro failure after ends
    obtain ⟨rfl, last, keeps⟩ := ends
    exact ⟨⟨rfl, last⟩, .interner keeps.same, keeps.stocked⟩

theorem stepping_lookup (content : List UInt8) :
    session.Stepping .interner
      (do
        let interner ← Method.self
        let heap ← Method.heap
        let found ← interner.lookup heap content
        return found.map fun symbol => (symbol, interner.bytesOf heap symbol))
      interner
      (fun answer after => after = (interner, session.process) ∧ ∃ found,
        answer = found.map (fun symbol => (symbol, interner.bytesOf session.process.heap symbol)) ∧
        interner.lookup session.process.heap content = .ok found ∧
        ∀ symbol ∈ found, interner.Issues symbol)
      fun _ after => after = (interner, session.process) ∧ False := by
  apply stepping_asks (.interner (.refl interner))
  intro others stocked
  obtain ⟨found, searched, issued⟩ := Interner.Stocked.lookup_cases stocked content
  exact ⟨found, searched, searched, issued⟩

theorem stepping_valueFor (content : List UInt8) :
    session.Stepping .interner
      (do return .bytes (← (← Method.self).get (← Method.heap) content)) interner
      (fun (answer : Answer K V) after => after = (interner, session.process) ∧ ∃ found,
        answer = .bytes found ∧ interner.get session.process.heap content = .ok found)
      fun _ after => after = (interner, session.process) ∧ False := by
  apply stepping_asks (.interner (.refl interner))
  intro others stocked
  obtain ⟨found, searched, -⟩ := Interner.Stocked.find_cases stocked content
  have answered : interner.get session.process.heap content =
      .ok (found.map (Entry.value session.process.heap interner.value)) := by
    simp only [Interner.get, searched, bind, Except.bind, pure, Except.pure]
  exact ⟨_, answered, answered⟩

theorem stepping_contains (content : List UInt8) :
    session.Stepping .interner
      (do return .truth (← (← Method.self).contains (← Method.heap) content)) interner
      (fun (answer : Answer K V) after => after = (interner, session.process) ∧ ∃ found,
        answer = .truth found ∧ interner.contains session.process.heap content = .ok found)
      fun _ after => after = (interner, session.process) ∧ False := by
  apply stepping_asks (.interner (.refl interner))
  intro others stocked
  obtain ⟨found, searched, -⟩ := Interner.Stocked.lookup_cases stocked content
  have answered : interner.contains session.process.heap content = .ok found.isSome := by
    simp only [Interner.contains, searched, bind, Except.bind, pure, Except.pure]
  exact ⟨_, answered, answered⟩

theorem stepping_entryAt (index : Nat) :
    session.Stepping .interner (entryAt index) interner
      (fun answer after => after = (interner, session.process) ∧
        answer = ((interner.toList session.process.heap)[index]?).map
          (fun found => (found.1, found.2.1)) ∧
        ∀ found ∈ answer, interner.Issues found.1)
      fun _ after => after = (interner, session.process) ∧ False := by
  apply stepping_of_reads (.interner (.refl interner))
  intro others stocked
  refine ⟨rfl, rfl, ?_⟩
  intro found member
  obtain ⟨listed, present, rfl⟩ := Option.mem_map.mp member
  obtain ⟨entry, there, rfl⟩ := List.mem_map.mp (List.mem_of_getElem? present)
  exact Interner.Stocked.issues stocked there

end Interners

section Dictionaries

variable {dictionary : Dictionary K V}

theorem stepping_of_keys {x : Method (Dictionary K V) α}
    (keeps : ∀ others : Account, others.holders = session.holders →
      dictionary.Stocked session.process others →
      Ends x (dictionary, session.process) (fun _ after => dictionary.Keeps others after)
        (dictionary.Spares others)) :
    session.Stepping .dictionary x dictionary (fun _ _ => True) fun _ _ => True := by
  intro others holders stocked
  apply (keeps others holders stocked).mono
  · intro a after keeps
    exact ⟨trivial, .dictionary keeps.same, keeps.stocked⟩
  · intro failure after spares
    exact ⟨⟨spares.1, trivial⟩, .dictionary spares.2.same, spares.2.stocked⟩

theorem stepping_setKey (key : K) (value : V) (held : dictionary.manager ∈ session.holders) :
    session.Stepping .dictionary (Dictionary.set key value) dictionary (fun _ _ => True)
      fun _ _ => True :=
  stepping_of_keys fun _ holders stocked =>
    Dictionary.set_keeps key value stocked (holders ▸ held)

theorem stepping_modifyKey (key : K) (f : V → V) :
    session.Stepping .dictionary (Dictionary.modify key f) dictionary (fun _ _ => True)
      fun _ _ => True :=
  stepping_of_keys fun _ _ stocked =>
    (Dictionary.modify_keeps key f stocked).mono (fun _ _ keeps => keeps) fun _ _ none => none.elim

theorem stepping_removeKey (key : K) :
    session.Stepping .dictionary (Dictionary.remove key) dictionary (fun _ _ => True)
      fun _ _ => True :=
  stepping_of_keys fun _ _ stocked => Dictionary.remove_keeps key stocked

theorem stepping_deleteKey (key : K) :
    session.Stepping .dictionary (Dictionary.delete key) dictionary (fun _ _ => True)
      fun _ _ => True :=
  stepping_of_keys fun _ _ stocked => Dictionary.delete_keeps key stocked

theorem stepping_clearDictionary :
    session.Stepping .dictionary Dictionary.clear dictionary (fun _ _ => True) fun _ _ => True :=
  stepping_of_keys fun _ _ stocked =>
    (Dictionary.clear_keeps stocked).mono (fun _ _ keeps => keeps) fun _ _ none => none.elim

theorem stepping_listDictionary :
    session.Stepping .dictionary (do return .entries (← Method.self).toList) dictionary
      (fun (_ : Answer K V) after => after = (dictionary, session.process) ∧ True)
      fun _ after => after = (dictionary, session.process) ∧ False := by
  apply stepping_of_reads (.dictionary (.refl dictionary))
  intro others _
  exact ⟨rfl, trivial⟩

theorem stepping_getKey (key : K) :
    session.Stepping .dictionary (do return .value (← (← Method.self).get key)) dictionary
      (fun (_ : Answer K V) after => after = (dictionary, session.process) ∧ True)
      fun _ after => after = (dictionary, session.process) ∧ False := by
  apply stepping_of_reads (.dictionary (.refl dictionary))
  intro others stocked
  obtain ⟨found, searched, -⟩ := Dictionary.Stocked.find_cases stocked key
  simp only [Dictionary.get, Action.ends_bind, Method.ends_self, Action.ends_liftFault, searched]
  exact ⟨rfl, trivial⟩

theorem stepping_hasKey (key : K) :
    session.Stepping .dictionary (do return .truth (← (← Method.self).contains key)) dictionary
      (fun (_ : Answer K V) after => after = (dictionary, session.process) ∧ True)
      fun _ after => after = (dictionary, session.process) ∧ False := by
  apply stepping_of_reads (.dictionary (.refl dictionary))
  intro others stocked
  obtain ⟨found, searched, -⟩ := Dictionary.Stocked.find_cases stocked key
  simp only [Dictionary.contains, Action.ends_bind, Method.ends_self, Action.ends_liftFault,
    searched]
  exact ⟨rfl, trivial⟩

end Dictionaries

end Session

end SymbolStore
