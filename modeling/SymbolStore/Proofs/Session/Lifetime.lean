import SymbolStore.Proofs.Session.Arranged
import SymbolStore.Proofs.Session.Steps

/-! Requests that make structures and take them out of existence. -/

namespace SymbolStore

open SymbolStore.Action (Ends)

def Place.drop {K V : Type} : Place → Command K V
  | manager name => .dropManager name
  | array name => .dropArray name
  | region name => .dropRegion name
  | interner name => .dropInterner name
  | dictionary name => .dropDictionary name

namespace Session

variable {K V α : Type} {session : Session K V} {after : Process} {direct : Multiset Extent}
  {object : Structure K V} {name : String} {place : Place}

@[simp] theorem find?_process (session : Session K V) (process : Process) (place : Place) :
    find? { session with process } place = session.find? place := by
  cases place <;> rfl

theorem Settled.follows_undisturbed (settled : session.Settled direct)
    (arranged : Arranged after session.symbols direct session.structures)
    (undisturbed : session.process.Undisturbed after (session.holdings + direct) session.holders) :
    session.Follows direct direct none { session with process := after } where
  settled := arranged
  leaves :=
    { found := fun place _ => find?_process session after place
      intact := fun _ _ _ found extent member =>
        undisturbed.intact extent (Multiset.mem_add.mpr (.inl (mem_holdings found member))) }
  warned := ⟨[], settled.warns_none arranged (fun _ member => member) undisturbed.warnings⟩
  level := undisturbed.level
  symbols := fun _ => rfl
  nextRegion := undisturbed.nextRegion

/-- A structure takes a place, and the one that had the place goes. -/
def occupy (name : String) (object : Structure K V) : Action (Session K V) Unit := do
  let earlier := (← current).find? (object.place name)
  update fun session => session.put name object
  retire Structure.discard earlier

theorem ends_retire {done : Unit → Session K V → Prop} {failed : Failure → Session K V → Prop}
    (earlier : Option (Structure K V)) :
    Ends (retire Structure.discard earlier) session done failed ↔
      match earlier with
      | some object => Ends object.discard session.process
          (fun _ process => done () { session with process })
          fun failure process => failed failure { session with process }
      | none => done () session := by
  cases earlier with
  | none => rfl
  | some object => exact ends_ofProcess _

theorem Settled.follows_put
    (arranged : Arranged after session.symbols direct
      (object ::ₘ (session.without (object.place name)).structures))
    (intact : session.process.Intact after ((session.without (object.place name)).holdings + direct))
    (level : after.journal.level = session.process.journal.level)
    (nextRegion : session.process.nextRegion ≤ after.nextRegion)
    (warned : ∃ ended, session.process.Warns after direct ended) :
    session.Follows direct direct (some (object.place name))
      (put { session with process := after } name object) where
  settled := by
    rw [Settled, process_put, symbols_put, structures_put]
    cases object <;> exact arranged
  leaves :=
    { found := by
        intro other apart
        rw [find?_put, if_neg fun same => apart (Option.mem_some_iff.mpr same), find?_process]
      intact := by
        intro other occupant apart found extent member
        have remains : (session.without (object.place name)).find? other = some occupant := by
          rw [find?_without, if_neg fun same => apart (Option.mem_some_iff.mpr same), found]
        rw [process_put]
        exact intact extent (Multiset.mem_add.mpr (.inl (mem_holdings remains member))) }
  warned := by
    rw [process_put]
    exact warned
  level := by
    rw [process_put]
    exact level
  symbols := fun _ => symbols_put _ _ _
  nextRegion := by
    rw [process_put]
    exact nextRegion

theorem Settled.occupied (settled : session.Settled direct)
    (arranged : Arranged after session.symbols direct (object ::ₘ session.structures))
    (undisturbed : session.process.Undisturbed after (session.holdings + direct) session.holders) :
    Ends (occupy name object) { session with process := after }
      (fun _ later => session.Follows direct direct (some (object.place name)) later ∧
        later.symbols = session.symbols ∧ later.find? (object.place name) = some object)
      fun _ _ => False := by
  simp only [occupy, Action.ends_bind, ends_current, ends_update, ends_retire, find?_process]
  have whole (last : Process) : { put { session with process := after } name object with
      process := last } = put { session with process := last } name object := by
    cases object <;> rfl
  have there (last : Process) : (put { session with process := last } name object).find?
      (object.place name) = some object := by
    rw [find?_put, if_pos rfl]
  cases found : session.find? (object.place name) with
  | none =>
      have same := structures_without_of_none found
      rw [← same] at arranged
      refine ⟨Settled.follows_put arranged ?_ undisturbed.level undisturbed.nextRegion ?_,
        symbols_put _ _ _, there after⟩
      · rw [holdings, same]
        exact undisturbed.intact
      · refine ⟨[], settled.warns_none arranged ?_ undisturbed.warnings⟩
        intro manager member
        rw [holders_cons, same]
        exact Multiset.mem_add.mpr (.inr member)
  | some earlier =>
      have split := structures_of_find? found
      rw [split, Multiset.cons_swap] at arranged
      rw [process_put]
      apply arranged.discard.mono ?_ fun _ _ none => none
      intro _ last ends
      obtain ⟨arranged, intact, level, nextRegion, -, warnings⟩ := ends
      rw [whole]
      refine ⟨Settled.follows_put arranged ?_ (level.trans undisturbed.level)
        (nextRegion ▸ undisturbed.nextRegion) ?_, symbols_put _ _ _, there after⟩
      · have mine : (session.without (object.place name)).holdings + direct ⊆
            session.holdings + direct := by
          rw [holdings, holdings, split, holdings_cons, add_assoc]
          exact Multiset.subset_of_le (Multiset.le_add_left _ _)
        have theirs : (session.without (object.place name)).holdings + direct ⊆
            ((object ::ₘ (session.without (object.place name)).structures).map
              Structure.holdings).sum + direct := by
          rw [holdings, holdings_cons, add_assoc]
          exact Multiset.subset_of_le (Multiset.le_add_left _ _)
        exact (undisturbed.intact.mono mine).trans (intact.mono theirs)
      · have held := manager_mem_holders found
        rw [undisturbed.warnings, undisturbed.leak_eq held] at warnings
        apply settled.warns_one arranged held ?_ warnings
        intro other member different
        rw [split, holders_cons] at member
        rw [holders_cons]
        rcases Multiset.mem_add.mp member with its | there
        · exact absurd (Structure.eq_manager_of_mem_holders its) different
        · exact Multiset.mem_add.mpr (.inr there)

def vacate (place : Place) : Action (Session K V) (Answer K V) := do
  let earlier := (← current).find? place
  update fun session => session.without place
  retire Structure.discard earlier
  return .truth earlier.isSome

theorem Settled.vacated (settled : session.Settled direct) (place : Place) :
    Ends (vacate place) session
      (fun _ later => session.Follows direct direct (some place) later ∧
        later.symbols = session.symbols ∧ later.find? place = none)
      fun _ _ => False := by
  simp only [vacate, Action.ends_bind, ends_current, ends_update, ends_retire, Action.ends_pure,
    find?_process]
  have empty : (session.without place).find? place = none := by
    rw [find?_without, if_pos rfl]
  have found (other : Place) (apart : ¬ other ∈ some place) :
      (session.without place).find? other = session.find? other := by
    rw [find?_without, if_neg fun same => apart (Option.mem_some_iff.mpr same)]
  cases present : session.find? place with
  | none =>
      have same := structures_without_of_none present
      have arranged : (session.without place).Settled direct := by
        rw [Settled, process_without, symbols_without, same]
        exact settled
      have symbols : (session.without place).symbols = session.symbols := symbols_without _ _
      refine ⟨⟨arranged, ⟨found, ?_⟩, ?_, ?_, fun _ => symbols, ?_⟩, symbols, empty⟩
      · intro other occupant _ _ extent _
        rw [process_without]
      · rw [process_without]
        exact ⟨[], settled.warns_none settled (fun _ member => member) rfl⟩
      · rw [process_without]
      · rw [process_without]
  | some object =>
      have split := structures_of_find? present
      have arranged := settled
      rw [Settled, split] at arranged
      rw [process_without]
      apply arranged.discard.mono ?_ fun _ _ none => none
      intro _ last ends
      obtain ⟨there, intact, level, nextRegion, -, warnings⟩ := ends
      have left : Arranged last (session.without place).symbols direct
          (session.without place).structures := by
        rw [symbols_without]
        exact there
      have same : structures { session.without place with process := last } =
          (session.without place).structures := rfl
      have symbols : (session.without place).symbols = session.symbols := symbols_without _ _
      refine ⟨⟨left, ⟨?_, ?_⟩, ?_, level, fun _ => symbols, Nat.le_of_eq nextRegion.symm⟩, symbols,
        empty⟩
      · intro other apart
        rw [find?_process, found other apart]
      · intro other occupant apart there extent member
        have remains := (found other apart).trans there
        exact intact extent (Multiset.mem_add.mpr (.inl (mem_holdings remains member)))
      · apply settled.warns_one there (manager_mem_holders present) ?_ warnings
        intro other member different
        rw [split, holders_cons] at member
        rcases Multiset.mem_add.mp member with its | there
        · exact absurd (Structure.eq_manager_of_mem_holders its) different
        · exact there

section Kinds

/-- Every kind of structure is named in the same way. -/
theorem occupy_eq {object : Structure K V} {earlier : Session K V → Option α}
    {make : α → Structure K V} {discard : α → Action Process Unit}
    {put : Session K V → Session K V}
    (lookup : ∀ session : Session K V, session.find? (object.place name) =
      (earlier session).map make)
    (puts : ∀ session : Session K V, put session = session.put name object)
    (discards : ∀ inner, discard inner = (make inner).discard) :
    (do
      let earlier := earlier (← current)
      update put
      retire discard earlier) = occupy name object := by
  rw [occupy]
  refine bind_congr fun session => ?_
  rw [lookup session, funext puts]
  cases earlier session with
  | none => rfl
  | some inner =>
      show (do update _; ofProcess (discard inner)) = _
      rw [discards]
      rfl

theorem nameManager_eq (name : String) (manager : Manager) :
    (nameManager name manager : Action (Session K V) Unit) = occupy name (.holder manager) :=
  occupy_eq (fun _ => rfl) (fun _ => rfl) fun _ => rfl

theorem nameArray_eq (name : String) (array : FlatArray) :
    (nameArray name array : Action (Session K V) Unit) = occupy name (.array array) :=
  occupy_eq (fun _ => rfl) (fun _ => rfl) fun _ => rfl

theorem nameRegion_eq (name : String) (region : Region) :
    (nameRegion name region : Action (Session K V) Unit) = occupy name (.region region) :=
  occupy_eq (fun _ => rfl) (fun _ => rfl) fun _ => rfl

theorem nameInterner_eq (name : String) (interner : Interner) :
    (nameInterner name interner : Action (Session K V) Unit) = occupy name (.interner interner) :=
  occupy_eq (fun _ => rfl) (fun _ => rfl) fun _ => rfl

theorem nameDictionary_eq (name : String) (dictionary : Dictionary K V) :
    nameDictionary name dictionary = occupy name (.dictionary dictionary) :=
  occupy_eq (fun _ => rfl) (fun _ => rfl) fun _ => rfl

/-- Every kind of structure is dropped in the same way. -/
theorem drop_eq {objects : Session K V → Names α} {make : α → Structure K V}
    {restore : Names α → Session K V → Session K V} {discard : α → Action Process Unit}
    (lookup : ∀ session : Session K V, session.find? place = ((objects session)[name]?).map make)
    (takes : ∀ session : Session K V, restore ((objects session).erase name) session =
      session.without place)
    (discards : ∀ inner, discard inner = (make inner).discard) :
    drop objects restore discard name = vacate place := by
  rw [drop, vacate]
  refine bind_congr fun session => ?_
  rw [lookup session, funext takes]
  cases (objects session)[name]? with
  | none => rfl
  | some inner =>
      show (do update _; ofProcess (discard inner); _) = _
      rw [discards]
      rfl

theorem perform_drop (place : Place) : perform (place.drop : Command K V) = vacate place := by
  cases place <;> rw [Place.drop, perform] <;>
    exact drop_eq (fun _ => rfl) (fun _ => rfl) fun _ => rfl

end Kinds

/-- A way to make a structure: what it comes to on any account, with its manager held by somebody
else meanwhile. -/
def Builds (build : Manager → Action Process α) (make : α → Structure K V) (fresh : α → Prop) :
    Prop :=
  ∀ (process : Process) (account : Account) (manager : Manager), process.Houses 0 account →
    manager ∈ account.holders →
    Ends (build manager) process
      (fun a after => fresh a ∧ (make a).manager = manager ∧ ∃ later : Account,
        account.Succeeds later ∧ later.holders = (make a).holders + account.holders ∧
        (∀ id ∈ (make a).regionId?, account.nextRegion ≤ id ∧ id < later.nextRegion) ∧
        (make a).Stocked after later)
      fun failure after => failure.isMisuse = false ∧ ∃ later : Account,
        account.Succeeds later ∧ later.holders = account.holders ∧ after.Houses 0 later

section Building

variable {process : Process} {account : Account} {manager : Manager}
  {build : Manager → Action Process α} {make : α → Structure K V} {fresh : α → Prop}

theorem Builds.released (builds : Builds build make fresh)
    (begun : process.Houses 0 (account.joined manager))
    (quiet : manager ∈ account.holders ∨ ∀ extent ∈ account.extents, extent.manager ≠ manager) :
    Ends
      (do
        let built ← (build manager).onFailure manager.release
        manager.release
        return built)
      process
      (fun a after => fresh a ∧ ∃ later : Account, account.Succeeds later ∧
        later.holders = (make a).holders + account.holders ∧
        (∀ id ∈ (make a).regionId?, account.nextRegion ≤ id ∧ id < later.nextRegion) ∧
        (make a).Stocked after later)
      fun failure after => failure.isMisuse = false ∧ ∃ later : Account,
        account.Succeeds later ∧ later.holders = account.holders ∧ after.Houses 0 later := by
  have joins := Account.Succeeds.joined account manager
  have holds : ∀ other ∈ account.holders, other ∈ (account.joined manager).holders :=
    fun _ member => Multiset.mem_cons_of_mem member
  rw [Action.ends_bind, Action.ends_onFailure]
  apply (builds process _ manager begun (Multiset.mem_cons_self _ _)).mono
  · intro a middle ends
    obtain ⟨new, owner, later, succeeds, holders, number, stocked⟩ := ends
    have houses := stocked.houses
    have split : later.holders = manager ::ₘ ((make a).holders + account.holders) := by
      rw [holders, ← Multiset.add_cons]
      rfl
    rw [← Account.joined_rest split] at houses
    have member : manager ∈ (make a).holders + account.holders :=
      Multiset.mem_add.mpr (.inl (owner ▸ (make a).manager_mem_holders))
    apply (houses.release_shared member).bind (fun _ _ none => none.elim)
    intro _ last left
    exact ⟨new, _, (joins.trans succeeds holds).held _, rfl, number,
      stocked.fit last _ left⟩
  · intro failure middle failed
    obtain ⟨blameless, later, succeeds, holders, left⟩ := failed
    rw [← Account.joined_rest holders] at left
    apply left.release.mono ?_ fun _ _ none => none.elim
    intro _ last left
    rw [Account.parted_eq] at left
    · exact ⟨blameless, _, (joins.trans succeeds holds).held _, rfl, left⟩
    · rw [Account.extents, succeeds.kept]
      exact quiet

theorem Settled.building (settled : session.Settled direct) (builds : Builds build make fresh)
    (source : Option String) :
    Ends (building source build) session
      (fun a later => (fresh a ∧ ∀ id ∈ (make a).regionId?, session.process.nextRegion ≤ id) ∧
        ∃ after, later = { session with process := after } ∧
        Arranged after session.symbols direct (make a ::ₘ session.structures) ∧
        session.process.Undisturbed after (session.holdings + direct) session.holders)
      fun failure later => failure.isMisuse = false ∧
        session.Follows direct direct none later := by
  obtain ⟨account, holders, extents, begun⟩ := settled.aside
  have released {start : Process} {manager : Manager} {first : Account}
      (succeeds : account.Succeeds first) (same : first.holders = account.holders)
      (there : start.Houses 0 (first.joined manager))
      (quiet : manager ∈ first.holders ∨ ∀ extent ∈ first.extents, extent.manager ≠ manager) :
      Ends (σ := Session K V)
        (do
          let built ← ((build manager).onFailure manager.release : Action Process α)
          manager.release
          return built)
        { session with process := start }
        (fun a later => (fresh a ∧ ∀ id ∈ (make a).regionId?, session.process.nextRegion ≤ id) ∧
          ∃ after, later = { session with process := after } ∧
          Arranged after session.symbols direct (make a ::ₘ session.structures) ∧
          session.process.Undisturbed after (session.holdings + direct) session.holders)
        fun failure later => failure.isMisuse = false ∧
          session.Follows direct direct none later := by
    have held : ∀ other ∈ account.holders, other ∈ first.holders := fun _ member => same ▸ member
    have failing {failure : Failure} {last : Process} (failed : failure.isMisuse = false ∧
        ∃ later : Account, first.Succeeds later ∧ later.holders = first.holders ∧
          last.Houses 0 later) :
        failure.isMisuse = false ∧
          session.Follows direct direct none { session with process := last } := by
      obtain ⟨blameless, later, succeeding, still, left⟩ := failed
      have whole := succeeds.trans succeeding held
      have undisturbed := begun.undisturbed left whole fun _ member => still ▸ held _ member
      rw [extents, holders] at undisturbed
      exact ⟨blameless, settled.follows_undisturbed
        (settled.resume holders extents begun whole (still.trans same) left) undisturbed⟩
    have ends := builds.released there quiet
    simp only [Action.ends_bind, ends_liftProcess, Action.ends_pure] at ends ⊢
    apply ends.mono
    · intro a middle ends
      apply ends.mono
      · intro _ last ends
        obtain ⟨new, later, succeeding, more, number, made⟩ := ends
        have whole := succeeds.trans succeeding held
        rw [same] at more
        have undisturbed := begun.undisturbed made.houses whole
          fun _ member => more ▸ Multiset.mem_add.mpr (.inr member)
        rw [extents, holders] at undisturbed
        have numbered : ∀ id ∈ (make a).regionId?,
            account.nextRegion ≤ id ∧ id < later.nextRegion := by
          intro id member
          have bounds := number id member
          exact ⟨Nat.le_trans succeeds.nextRegion bounds.1, bounds.2⟩
        refine ⟨⟨new, ?_⟩, last, rfl, settled.welcome holders extents begun whole more numbered made,
          undisturbed⟩
        rw [begun.nextRegion]
        exact fun id member => (numbered id member).1
      · exact fun _ _ failed => failing failed
    · exact fun _ _ failed => failing failed
  cases source with
  | none =>
      simp only [Session.building, Action.ends_bind, ends_current, ends_liftProcess]
      apply (begun.create session.process.config).mono ?_ fun _ _ none => none.elim
      intro manager start created
      obtain ⟨unheld, unused, there⟩ := created
      have succeeds : account.Succeeds { account with config := fun other =>
          if other = manager then session.process.config else account.config other } := by
        refine ⟨rfl, rfl, rfl, ?_, Nat.le_refl _⟩
        intro other member
        apply if_neg
        intro same
        exact unheld (same ▸ member)
      simpa only [Action.ends_bind, ends_liftProcess, Action.ends_pure] using
        released succeeds rfl there (.inr unused)
  | some source =>
      simp only [Session.building, Session.manager, Action.ends_bind, ends_current, ends_named,
        ends_liftProcess, Action.ends_pure]
      cases named : session.managers[source]? with
      | none => exact ⟨rfl, settled.follows none⟩
      | some manager =>
          have held := manager_mem_holders (find?_manager named)
          change manager ∈ _ at held
          rw [Session.holders, ← holders] at held
          apply (begun.retain held).mono ?_ fun _ _ none => none.elim
          intro _ start there
          have succeeds : account.Succeeds account := ⟨rfl, rfl, rfl, fun _ _ => rfl, Nat.le_refl _⟩
          simpa only [Action.ends_bind, ends_liftProcess, Action.ends_pure] using
            released succeeds rfl there (.inl held)

end Building

end Session

end SymbolStore
