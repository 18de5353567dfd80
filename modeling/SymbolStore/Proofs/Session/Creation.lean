import SymbolStore.Proofs.Session.Lifetime
import SymbolStore.Proofs.Session.Requests

/-! Structures of each kind are made, and dropped. -/

namespace SymbolStore

open SymbolStore.Action (Ends)

namespace Session

variable {K V α : Type} {session : Session K V} {direct : Multiset Extent}
  {object : Structure K V} {name : String} {place : Place}

section Builds

theorem array_builds (element : Layout) (length : Nat) (value : List UInt8) :
    Builds (K := K) (V := V) (fun manager => FlatArray.create manager element length value)
      .array fun _ => True := by
  intro process account manager houses held
  have whole : account.Succeeds account := ⟨rfl, rfl, rfl, fun _ _ => rfl, Nat.le_refl _⟩
  apply (FlatArray.create_houses element length value houses held).mono
  · intro array after ends
    obtain ⟨owner, made⟩ := ends
    refine ⟨trivial, owner, _, whole.held (manager ::ₘ account.holders), ?_, nofun, made⟩
    show manager ::ₘ account.holders = {array.manager} + account.holders
    rw [owner, Multiset.singleton_add]
  · intro failure after spares
    exact ⟨spares.1, account, whole, rfl, spares.2⟩

theorem region_builds (chunkSize : Nat) :
    Builds (K := K) (V := V) (fun manager => Region.create manager chunkSize) .region
      fun region => region.chunks = [] ∧ region.generation = 0 := by
  intro process account manager houses held
  have whole : account.Succeeds account := ⟨rfl, rfl, rfl, fun _ _ => rfl, Nat.le_refl _⟩
  apply (Region.create_stocked chunkSize houses held).mono
  · intro region after ends
    obtain ⟨valid, owner, none, id, generation, made⟩ := ends
    refine ⟨⟨none, generation⟩, owner, (account.joined manager).numbered,
      ⟨rfl, rfl, rfl, fun _ _ => rfl, Nat.le_succ _⟩, ?_, ?_, valid, ?_⟩
    · show manager ::ₘ account.holders = {region.manager} + account.holders
      rw [owner, Multiset.singleton_add]
    · intro number same
      cases same
      rw [id]
      exact ⟨Nat.le_refl _, Nat.lt_succ_self _⟩
    · rw [Region.holdings_unused none]
      exact made
  · intro failure after failed
    obtain ⟨blameless, rfl⟩ := failed
    exact ⟨blameless, account, whole, rfl, houses⟩

theorem interner_builds (capacity : Nat) (value : Layout) (hasher : List UInt8 → UInt64) :
    Builds (K := K) (V := V) (fun manager => Interner.create manager capacity value hasher)
      .interner fun interner => interner.value = value ∧ interner.entries = [] ∧
        (∀ heap, interner.Valid heap) ∧ interner.region.generation = 0 := by
  intro process account manager houses held
  have whole : account.Succeeds account := ⟨rfl, rfl, rfl, fun _ _ => rfl, Nat.le_refl _⟩
  apply (Interner.create_keeps capacity value hasher houses held).mono
  · intro interner after ends
    obtain ⟨owner, layout, -, id, empty, valid, generation, made⟩ := ends
    refine ⟨⟨layout, empty, valid, generation⟩, owner,
      ((account.joined manager).joined manager).numbered,
      ⟨rfl, rfl, rfl, fun _ _ => rfl, Nat.le_succ _⟩, ?_, ?_, made⟩
    · show manager ::ₘ manager ::ₘ account.holders =
        {interner.manager, interner.manager} + account.holders
      rw [owner]
      show _ = (manager ::ₘ {manager}) + account.holders
      rw [Multiset.cons_add, Multiset.singleton_add]
    · intro number same
      cases same
      rw [id]
      exact ⟨Nat.le_refl _, Nat.lt_succ_self _⟩
  · intro failure after failed
    obtain ⟨blameless, left | left⟩ := failed
    · exact ⟨blameless, account, whole, rfl, left⟩
    · exact ⟨blameless, account.numbered, ⟨rfl, rfl, rfl, fun _ _ => rfl, Nat.le_succ _⟩, rfl, left⟩

theorem dictionary_builds (capacity : Nat) (rule : KeyRule K) (node : Layout) :
    Builds (fun manager => (Dictionary.create manager capacity rule node :
      Action Process (Dictionary K V))) .dictionary fun _ => True := by
  intro process account manager houses held
  have whole : account.Succeeds account := ⟨rfl, rfl, rfl, fun _ _ => rfl, Nat.le_refl _⟩
  apply (Dictionary.create_keeps capacity rule node houses held).mono
  · intro dictionary after ends
    obtain ⟨owner, made⟩ := ends
    refine ⟨trivial, owner, _, whole.held (manager ::ₘ account.holders), ?_, nofun, made⟩
    show manager ::ₘ account.holders = {dictionary.manager} + account.holders
    rw [owner, Multiset.singleton_add]
  · intro failure after spares
    exact ⟨spares.1, account, whole, rfl, spares.2⟩

end Builds

theorem Settled.creates {build : Manager → Action Process α} {make : α → Structure K V}
    {fresh : α → Prop} {naming : α → Action (Session K V) Unit} (settled : session.Settled direct)
    (builds : Builds build make fresh) (located : ∀ a, (make a).place name = place)
    (names : ∀ a, naming a = occupy name (make a)) (source : Option String) :
    Ends
      (do
        naming (← Session.building source build)
        return (.done : Answer K V))
      session
      (fun _ later => session.Follows direct direct (some place) later ∧
        later.symbols = session.symbols ∧ ∃ a, later.find? place = some (make a) ∧ fresh a ∧
          ∀ id ∈ (make a).regionId?, session.process.nextRegion ≤ id)
      fun failure later => failure.isMisuse = false ∧
        session.Follows direct direct none later := by
  rw [Action.ends_bind]
  apply (settled.building builds source).mono
  · intro a middle ends
    obtain ⟨new, after, rfl, arranged, undisturbed⟩ := ends
    rw [names]
    apply (settled.occupied arranged undisturbed).bind (fun _ _ none => none.elim)
    intro _ later ends
    rw [located] at ends
    exact ⟨ends.1, ends.2.1, a, ends.2.2, new⟩
  · exact fun _ _ failed => failed

theorem Settled.handles {account later : Account} {after : Process} {manager : Manager}
    (settled : session.Settled direct)
    (holders : account.holders = (session.structures.map Structure.holders).sum)
    (extents : account.extents = (session.structures.map Structure.holdings).sum + direct)
    (begun : session.process.Houses 0 account) (succeeds : account.Succeeds later)
    (more : later.holders = manager ::ₘ account.holders) (there : after.Houses 0 later)
    (name : String) :
    Ends (nameManager name manager) { session with process := after }
      (fun _ later => session.Follows direct direct (some (.manager name)) later)
      fun _ _ => False := by
  have undisturbed := begun.undisturbed there succeeds
    fun _ member => more ▸ Multiset.mem_cons_of_mem member
  rw [extents, holders] at undisturbed
  have arranged : Arranged after session.symbols direct (.holder manager ::ₘ session.structures) :=
    settled.welcome holders extents begun succeeds (more.trans (Multiset.singleton_add _ _).symm)
      nofun there
  rw [nameManager_eq]
  exact (settled.occupied arranged undisturbed).mono (fun _ _ ends => ends.1) fun _ _ none => none

theorem fulfils_createManager (settled : session.Settled direct) (name : String) (config : Config) :
    session.Fulfils direct (.createManager name config) := by
  obtain ⟨account, holders, extents, begun⟩ := settled.aside
  rw [Fulfils, perform, Action.ends_bind, ends_liftProcess]
  apply (begun.create config).mono ?_ fun _ _ none => none.elim
  intro manager after created
  obtain ⟨unheld, -, there⟩ := created
  have succeeds : account.Succeeds (account.created manager config) := by
    refine ⟨rfl, rfl, rfl, ?_, Nat.le_refl _⟩
    intro other member
    apply if_neg
    intro same
    exact unheld (same ▸ member)
  exact (settled.handles holders extents begun succeeds rfl there name).bind
    (fun _ _ none => none.elim) fun _ _ follows => follows

theorem fulfils_shareManager (settled : session.Settled direct) (name source : String) :
    session.Fulfils direct (.shareManager name source) := by
  obtain ⟨account, holders, extents, begun⟩ := settled.aside
  simp only [Fulfils, perform, Session.manager, Action.ends_bind, ends_current, ends_named,
    ends_liftProcess]
  cases named : session.managers[source]? with
  | none => exact ⟨fun _ => rfl, settled.follows _⟩
  | some manager =>
      have held := manager_mem_holders (find?_manager named)
      change manager ∈ _ at held
      rw [Session.holders, ← holders] at held
      apply (begun.retain held).mono ?_ fun _ _ none => none.elim
      intro _ after there
      exact (settled.handles holders extents begun (.joined account manager) rfl there name).mono
        (fun _ _ follows => follows) fun _ _ none => none.elim

theorem Settled.drops {command : Command K V} (settled : session.Settled direct)
    (performs : perform command = vacate place) (concerns : command.place? = some place)
    (claims : ∀ answer, command.claims session answer direct = direct) :
    session.Fulfils direct command := by
  rw [Fulfils, performs, concerns]
  apply (settled.vacated place).mono ?_ fun _ _ none => none.elim
  intro answer later ends
  rw [claims]
  exact ends.1

end Session

end SymbolStore
