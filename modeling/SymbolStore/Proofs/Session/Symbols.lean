import SymbolStore.Proofs.Session.Requests

/-! Requests that name the symbols of an interner, or take them by their names. -/

namespace SymbolStore

open SymbolStore.Action (Ends)

namespace Session

variable {K V α : Type} {session later : Session K V} {direct direct' : Multiset Extent}
  {name : String} {symbol : Symbol} {interner : Interner} {place : Place}

theorem Follows.nameSymbol {place : String}
    (follows : session.Follows direct direct' (some (.interner place)) later)
    (found : later.find? (.interner place) = some (.interner interner))
    (issues : interner.Issues symbol) (name : Option String) :
    Ends (nameSymbol name symbol) later
      (fun _ final => session.Follows direct direct' (some (.interner place)) final)
      fun _ _ => False := by
  cases name with
  | none => exact follows
  | some name => exact follows.named (mem_structures.mpr ⟨_, found⟩) issues name

section Naming

variable (settled : session.Settled direct)
include settled

theorem insert_acts (interner : String) (content value : List UInt8) :
    session.Acts direct .interner (.interner interner)
      (onInterner interner (Interner.insert content value))
      (fun _ answer after => after.1.Issues answer.1) fun _ _ _ => True :=
  onInterner_acts settled fun _ named =>
    stepping_insert content value (manager_mem_holders (find?_interner named))

theorem intern_acts (interner text : String) (default : List UInt8) :
    session.Acts direct .interner (.interner interner)
      (onInterner interner (Interner.intern text default))
      (fun _ symbol after => after.1.Issues symbol) fun _ _ _ => True :=
  onInterner_acts settled fun _ named =>
    stepping_intern text default (manager_mem_holders (find?_interner named))

theorem fulfils_insert (interner : String) (content value : List UInt8) (name : Option String) :
    session.Fulfils direct (.insert interner content value name) := by
  rw [Fulfils, perform, Action.ends_bind]
  apply Ends.mono (insert_acts settled interner content value)
  · intro answer later ends
    obtain ⟨symbol, isNew⟩ := answer
    obtain ⟨follows, -, -, after, -, found, issues⟩ := ends
    exact (follows.nameSymbol found issues name).bind (fun _ _ none => none.elim) fun _ _ ends => ends
  · intro failure later spares
    exact ⟨fun _ => spares.1, spares.2.1⟩

theorem fulfils_intern (interner text : String) (default : List UInt8) (name : Option String) :
    session.Fulfils direct (.intern interner text default name) := by
  rw [Fulfils, perform, Action.ends_bind]
  apply Ends.mono (intern_acts settled interner text default)
  · intro symbol later ends
    obtain ⟨follows, -, -, after, -, found, issues⟩ := ends
    exact (follows.nameSymbol found issues name).bind (fun _ _ none => none.elim) fun _ _ ends => ends
  · intro failure later spares
    exact ⟨fun _ => spares.1, spares.2.1⟩

theorem fulfils_lookup (interner : String) (content : List UInt8) (name : Option String) :
    session.Fulfils direct (.lookup interner content name) := by
  rw [Fulfils, perform, Action.ends_bind]
  apply Ends.mono (onInterner_acts settled fun _ _ => stepping_lookup content)
  · intro answer later ends
    obtain ⟨follows, -, inner, after, -, found, same, symbol?, rfl, -, issued⟩ := ends
    cases symbol? with
    | none => exact follows
    | some symbol =>
        have issues := issued symbol rfl
        obtain ⟨rfl, -⟩ := Prod.mk.inj same
        exact (follows.nameSymbol found issues name).bind (fun _ _ none => none.elim)
          fun _ _ ends => ends
  · intro failure later spares
    exact ⟨fun _ => spares.1, spares.2.1⟩

theorem fulfils_nameEntry (interner : String) (index : Nat) (name : Option String) :
    session.Fulfils direct (.nameEntry interner index name) := by
  rw [Fulfils, perform, Action.ends_bind]
  apply Ends.mono (onInterner_acts settled fun _ _ => stepping_entryAt index)
  · intro answer later ends
    obtain ⟨follows, -, inner, after, -, found, same, -, issued⟩ := ends
    cases answer with
    | none => exact follows
    | some listed =>
        have issues := issued listed rfl
        obtain ⟨rfl, -⟩ := Prod.mk.inj same
        exact (follows.nameSymbol found issues name).bind (fun _ _ none => none.elim)
          fun _ _ ends => ends
  · intro failure later spares
    exact ⟨fun _ => spares.1, spares.2.1⟩

end Naming

theorem Settled.acts_symbol {O : Type} {make : O → Structure K V} {interner : String}
    {x : Symbol → Action (Session K V) α} {done : Symbol → O → α → O × Process → Prop}
    {failed : Symbol → O → Failure → O × Process → Prop} (settled : session.Settled direct)
    (acts : ∀ symbol, session.symbols[name]? = some symbol →
      session.Acts direct make place (x symbol) (done symbol) (failed symbol)) :
    session.Acts direct make place
      (do
        let _ ← named (← current).interners interner
        let symbol ← Session.symbol name
        x symbol)
      (fun inner a after => ∃ symbol, session.symbols[name]? = some symbol ∧
        done symbol inner a after)
      fun inner failure after => ∃ symbol, session.symbols[name]? = some symbol ∧
        failed symbol inner failure after := by
  simp only [Acts, Session.symbol, Action.ends_bind, ends_current, ends_named]
  cases session.interners[interner]? with
  | none => exact ⟨rfl, settled.follows _, trivial, .inl trivial⟩
  | some _ =>
      cases named : session.symbols[name]? with
      | none => exact ⟨rfl, settled.follows _, trivial, .inl trivial⟩
      | some symbol =>
          apply Ends.mono (acts symbol named)
          · intro a later ends
            obtain ⟨follows, symbols, inner, after, before, there, did⟩ := ends
            exact ⟨follows, symbols, inner, after, before, there, symbol, rfl, did⟩
          · intro failure later spares
            refine ⟨spares.1, spares.2.1, spares.2.2.1, ?_⟩
            rcases spares.2.2.2 with same | ⟨inner, after, before, there, did⟩
            · exact .inl same
            · exact .inr ⟨inner, after, before, there, symbol, rfl, did⟩

theorem tells_acts (settled : session.Settled direct) (interner name : String)
    (tell : Interner → Heap → Symbol → α) :
    session.Acts direct .interner (.interner interner)
      (do
        let _ ← named (← current).interners interner
        let symbol ← Session.symbol name
        onInterner interner do return tell (← Method.self) (← Method.heap) symbol)
      (fun inner a after => ∃ symbol, session.symbols[name]? = some symbol ∧
        after = (inner, session.process) ∧ a = tell inner session.process.heap symbol)
      fun inner _ after => ∃ symbol, session.symbols[name]? = some symbol ∧
        after = (inner, session.process) ∧ False :=
  settled.acts_symbol fun symbol _ => onInterner_acts settled fun inner _ =>
    stepping_tells (.interner (.refl inner)) fun inner heap => tell inner heap symbol

theorem setValue_acts (settled : session.Settled direct) (interner name : String)
    (value : List UInt8) :
    session.Acts direct .interner (.interner interner)
      (do
        let _ ← named (← current).interners interner
        let symbol ← Session.symbol name
        let isGood ← onInterner interner (Interner.setValue symbol value)
        return (Answer.truth isGood : Answer K V))
      (fun inner answer after => ∃ symbol, session.symbols[name]? = some symbol ∧
        ∃ isGood, answer = .truth isGood ∧ after.1 = inner)
      fun inner _ after => ∃ symbol, session.symbols[name]? = some symbol ∧
        after = (inner, session.process) := by
  apply settled.acts_symbol
  intro symbol named
  refine (onInterner_acts settled ?_).answers _
  intro inner there
  apply stepping_setValue value
  intro names
  exact (settled.issued name symbol named).2 inner
    (mem_structures.mpr ⟨_, find?_interner there⟩) names

end Session

end SymbolStore
