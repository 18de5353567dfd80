import SymbolStore.Proofs.Session.Requests

/-!
Requests of the client for blocks of its own. It may give back, resize and write whatever it has an
address of; the structures are safe from it unless that is the address of a block of theirs.
-/

namespace SymbolStore

open SymbolStore.Action (Ends)

variable {K V : Type}

namespace Command

def target? : Command K V → Option String
  | reallocate _ name .. | reallocateArray _ name .. | free _ name | writeBlock name .. => some name
  | _ => none

def resizer? (session : Session K V) : Command K V → Option Manager
  | reallocate source .. | reallocateArray source .. => session.managers[source]?
  | resizeArray name .. => (session.arrays[name]?).map FlatArray.manager
  | _ => none

def freer? (session : Session K V) : Command K V → Option Manager
  | free source _ => session.managers[source]?
  | _ => none

end Command

namespace Session

variable {session : Session K V} {direct : Multiset Extent}

/-- The client keeps its hands off the blocks of structures, and a manager that resizes a block can
still count an allocation. One that cannot is asked to take back only what somebody was given. -/
structure Proper (session : Session K V) (command : Command K V) : Prop where
  apart : ∀ name ∈ command.target?, ∀ address ∈ session.blocks[name]?,
    ∀ extent ∈ session.holdings, extent.address ≠ address
  countable : ∀ manager ∈ command.resizer? session,
    ¬ (manager.ledgerIn session.process).Exhausted
  given : ∀ manager ∈ command.freer? session, (manager.ledgerIn session.process).Exhausted →
    ∀ name ∈ command.target?, ∀ address ∈ session.blocks[name]?,
      ∀ block ∈ session.process.heap.find? address, block.owner ≠ none

instance (command : Command K V) : Decidable (session.Proper command) :=
  decidable_of_iff
    ((∀ name ∈ command.target?, ∀ address ∈ session.blocks[name]?,
        ∀ extent ∈ session.holdings, extent.address ≠ address) ∧
      (∀ manager ∈ command.resizer? session, ¬ (manager.ledgerIn session.process).Exhausted) ∧
      ∀ manager ∈ command.freer? session, (manager.ledgerIn session.process).Exhausted →
        ∀ name ∈ command.target?, ∀ address ∈ session.blocks[name]?,
          ∀ block ∈ session.process.heap.find? address, block.owner ≠ none)
    ⟨fun all => ⟨all.1, all.2.1, all.2.2⟩,
      fun proper => ⟨proper.apart, proper.countable, proper.given⟩⟩

/-- The blocks of the client have an account of their own, and what becomes of them there becomes of
the session. -/
theorem Settled.client (settled : session.Settled direct) :
    ∃ account : Account, account.holders = session.holders ∧ account.extents = session.holdings ∧
      session.process.Houses direct account ∧
      ∀ (after : Process) (direct' : Multiset Extent), after.Houses direct' account →
        session.Follows direct direct' none { session with process := after } := by
  have houses : session.process.Houses (session.holdings + direct)
      (session.process.account session.holders) := settled.houses
  rw [add_comm] at houses
  obtain ⟨aside, left, mine⟩ := houses.frame
  refine ⟨_, rfl, ?_, mine, ?_⟩
  · rw [← left]
    exact congrArg (Multiset.map Extent.of) (add_zero aside)
  · intro after direct' ended
    have whole := ended.unframe
    rw [left, add_comm] at whole
    have nextRegion : after.nextRegion = session.process.nextRegion := whole.nextRegion
    have there : Settled { session with process := after } direct' :=
      { fit := settled.fit
        houses := whole.own rfl
        numbered := settled.numbered
        known := nextRegion ▸ settled.known
        issued := nextRegion ▸ settled.issued }
    refine ⟨there, ⟨?_, ?_⟩, ⟨[], settled.warns_none there (fun _ member => member) whole.warnings⟩,
      whole.level, fun _ => rfl, Nat.le_of_eq nextRegion.symm⟩
    · intro place _
      cases place <;> rfl
    · intro place object _ found extent member
      refine Process.intact_of_kept mine (Multiset.le_add_right aside _) ended
        (Multiset.le_add_right _ _) extent ?_
      rw [left]
      exact mem_holdings found member

section Requests

variable (settled : session.Settled direct)
include settled

theorem fulfils_allocate (source name : String) (payload : Layout) :
    session.Fulfils direct (.allocate source name payload) := by
  obtain ⟨account, holders, -, mine, back⟩ := settled.client
  simp only [Fulfils, perform, Session.manager, nameBlock, Action.ends_bind, ends_current,
    ends_named, ends_liftProcess, ends_update, Action.ends_pure]
  cases named : session.managers[source]? with
  | none => exact ⟨fun _ => rfl, settled.follows _⟩
  | some manager =>
      have held := manager_mem_holders (find?_manager named)
      rw [← holders] at held
      apply (mine.allocate held payload).mono
      · intro address after granted
        simp only [Command.claims, named]
        exact (back after _ granted).renamed _ session.handles
      · intro failure after spares
        exact ⟨fun _ => spares.1, back after direct spares.2⟩

theorem fulfils_allocateArray (source name : String) (element : Layout) (count : Nat) :
    session.Fulfils direct (.allocateArray source name element count) := by
  obtain ⟨account, holders, -, mine, back⟩ := settled.client
  simp only [Fulfils, perform, Session.manager, nameBlock, Action.ends_bind, ends_current,
    ends_named, ends_liftProcess, ends_update, Action.ends_pure]
  cases named : session.managers[source]? with
  | none => exact ⟨fun _ => rfl, settled.follows _⟩
  | some manager =>
      have held := manager_mem_holders (find?_manager named)
      rw [← holders] at held
      apply (mine.allocateArray held element count).mono
      · intro address after granted
        simp only [Command.claims, named]
        exact (back after _ granted).renamed _ session.handles
      · intro failure after spares
        exact ⟨fun _ => spares.1, back after direct spares.2⟩

omit settled in
theorem kept_apart {account : Account} {address : Nat} (extents : account.extents = session.holdings)
    (apart : ∀ extent ∈ session.holdings, extent.address ≠ address) :
    ∀ entry ∈ account.kept, entry.1 ≠ address := by
  intro entry member
  apply apart (Extent.of entry)
  rw [← extents]
  exact Multiset.mem_map_of_mem Extent.of member

theorem fulfils_free {source name : String} (proper : session.Proper (.free source name)) :
    session.Fulfils direct (.free source name) := by
  obtain ⟨account, -, extents, mine, back⟩ := settled.client
  simp only [Fulfils, perform, Session.manager, block, Action.ends_bind, ends_current,
    ends_named, ends_liftProcess, Action.ends_pure]
  cases named : session.managers[source]? with
  | none => exact ⟨fun _ => rfl, settled.follows _⟩
  | some manager =>
      cases known : session.blocks[name]? with
      | none => exact ⟨fun _ => rfl, settled.follows _⟩
      | some address =>
          have apart := kept_apart extents (proper.apart name rfl address known)
          have given : manager.Given session.process address := by
            by_cases exhausted : (manager.ledgerIn session.process).Exhausted
            · exact Manager.given_of_owned mine.sound
                (proper.given manager named exhausted name rfl address known)
            · exact Manager.given_of_countable mine.sound exhausted address
          apply (Manager.free_effect address mine.sound given).mono
          · intro _ after taken
            obtain ⟨size, taken⟩ := taken
            simp only [Command.claims, known]
            exact back after _ (mine.takenBack apart taken)
          · intro failure after rejected
            obtain ⟨rfl, -⟩ := rejected
            exact ⟨by simp [Command.isDirect], settled.follows _⟩

theorem fulfils_reallocate {source name : String} {oldSize newSize : Nat}
    (proper : session.Proper (.reallocate source name oldSize newSize)) :
    session.Fulfils direct (.reallocate source name oldSize newSize) := by
  obtain ⟨account, holders, extents, mine, back⟩ := settled.client
  simp only [Fulfils, perform, Session.manager, block, nameBlock, Action.ends_bind, ends_current,
    ends_named, ends_liftProcess, ends_update, Action.ends_pure]
  cases named : session.managers[source]? with
  | none => exact ⟨fun _ => rfl, settled.follows _⟩
  | some manager =>
      cases known : session.blocks[name]? with
      | none => exact ⟨fun _ => rfl, settled.follows _⟩
      | some address =>
          have apart := kept_apart extents (proper.apart name rfl address known)
          have held := manager_mem_holders (find?_manager named)
          rw [← holders] at held
          have given : manager.Given session.process address :=
            Manager.given_of_countable mine.sound (proper.countable manager named) address
          apply (Manager.reallocate_effect address oldSize newSize mine.sound given
            fun block found _ => mine.powers address block found).mono
          · intro newAddress after moves
            obtain ⟨block, -, moves⟩ := moves
            simp only [Command.claims, named, known]
            exact (back after _ (mine.moved held apart moves)).renamed _ session.handles
          · intro failure after failed
            refine ⟨by simp [Command.isDirect], ?_⟩
            rcases failed with ⟨rfl, -⟩ | ⟨-, ⟨-, remarks⟩ | ⟨-, -, exhausted, -⟩⟩
            · exact settled.follows _
            · exact back after direct (mine.remarked remarks)
            · exact absurd exhausted (proper.countable manager named)

theorem fulfils_reallocateArray {source name : String} {element : Layout} {oldCount newCount : Nat}
    (proper : session.Proper (.reallocateArray source name element oldCount newCount)) :
    session.Fulfils direct (.reallocateArray source name element oldCount newCount) := by
  obtain ⟨account, holders, extents, mine, back⟩ := settled.client
  simp only [Fulfils, perform, Session.manager, block, nameBlock, Action.ends_bind, ends_current,
    ends_named, ends_liftProcess, ends_update, Action.ends_pure]
  cases named : session.managers[source]? with
  | none => exact ⟨fun _ => rfl, settled.follows _⟩
  | some manager =>
      cases known : session.blocks[name]? with
      | none => exact ⟨fun _ => rfl, settled.follows _⟩
      | some address =>
          have apart := kept_apart extents (proper.apart name rfl address known)
          have held := manager_mem_holders (find?_manager named)
          rw [← holders] at held
          have given : manager.Given session.process address :=
            Manager.given_of_countable mine.sound (proper.countable manager named) address
          apply (Manager.reallocateArray_effect address element oldCount newCount mine.sound given
            fun block found _ => mine.powers address block found).mono
          · intro newAddress after moves
            obtain ⟨-, block, -, moves⟩ := moves
            simp only [Command.claims, named, known]
            exact (back after _ (mine.moved held apart moves)).renamed _ session.handles
          · intro failure after failed
            refine ⟨by simp [Command.isDirect], ?_⟩
            rcases failed with ⟨rfl, -⟩ | ⟨-, -, rfl⟩ | ⟨-, -, ⟨-, remarks⟩ | ⟨-, -, exhausted, -⟩⟩
            · exact settled.follows _
            · exact settled.follows _
            · exact back after direct (mine.remarked remarks)
            · exact absurd exhausted (proper.countable manager named)

theorem fulfils_writeBlock {name : String} {offset : Nat} {values : List UInt8}
    (proper : session.Proper (.writeBlock name offset values)) :
    session.Fulfils direct (.writeBlock name offset values) := by
  obtain ⟨account, -, extents, mine, back⟩ := settled.client
  simp only [Fulfils, perform, block, Action.ends_bind, ends_current, ends_named]
  cases known : session.blocks[name]? with
  | none => exact ⟨fun _ => rfl, settled.follows _⟩
  | some address =>
      have apart : ∀ entry ∈ account.kept, entry.1 ≠ (⟨address, offset⟩ : Pointer).block :=
        kept_apart extents (proper.apart name rfl address known)
      dsimp only
      cases session.process.heap.find? address with
      | none => exact ⟨by simp [Command.isDirect], settled.follows _⟩
      | some block =>
          simp only [Action.ends_bind, ends_liftProcess, Action.ends_pure]
          apply (Process.store_ends _ values).mono
          · rintro _ _ rfl
            exact back _ direct (mine.write apart values)
          · rintro _ _ ⟨-, rfl, -⟩
            exact ⟨by simp [Command.isDirect], settled.follows _⟩

theorem fulfils_readBlock (source name : String) :
    session.Fulfils direct (.readBlock source name) := by
  simp only [Fulfils, perform, Session.manager, block, Action.ends_bind, ends_current, ends_named]
  cases session.managers[source]? with
  | none => exact ⟨fun _ => rfl, settled.follows _⟩
  | some manager =>
      cases session.blocks[name]? with
      | none => exact ⟨fun _ => rfl, settled.follows _⟩
      | some address =>
          dsimp only
          cases session.process.heap.find? address with
          | none => exact ⟨by simp [Command.isDirect], settled.follows _⟩
          | some block => exact settled.follows _

end Requests

end Session

end SymbolStore
