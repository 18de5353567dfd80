import SymbolStore.Proofs.Session.Lifetime

/-! All structures of a session go at once, and what is left are the blocks of the client. -/

namespace SymbolStore

open SymbolStore.Action (Ends)

variable {K V α : Type}

namespace Process

/-- Holders of managers went, and some managers ended with their last. -/
structure Sheds (process after : Process) (direct : Multiset Extent) : Prop where
  level : after.journal.level = process.journal.level
  fewer : ∀ manager : Manager,
    (manager.ledgerIn after).holders ≤ (manager.ledgerIn process).holders
  config : ∀ manager : Manager, 0 < (manager.ledgerIn after).holders →
    (manager.ledgerIn after).config = (manager.ledgerIn process).config
  warned : ∃ ended, process.Warns after direct ended

variable {process middle after : Process} {direct : Multiset Extent}

theorem Sheds.refl (process : Process) (direct : Multiset Extent) : process.Sheds process direct where
  level := rfl
  fewer _ := Nat.le_refl _
  config _ _ := rfl
  warned := by
    refine ⟨[], .nil, ?_, (List.append_nil _).symm⟩
    intro manager
    constructor
    · exact nofun
    · intro both
      omega

theorem Sheds.trans (first : process.Sheds middle direct) (second : middle.Sheds after direct) :
    process.Sheds after direct where
  level := second.level.trans first.level
  fewer manager := Nat.le_trans (second.fewer manager) (first.fewer manager)
  config manager held := (second.config manager held).trans
    (first.config manager (Nat.lt_of_lt_of_le held (second.fewer manager)))
  warned := by
    obtain ⟨front, here⟩ := first.warned
    obtain ⟨back, there⟩ := second.warned
    have leaks : ∀ manager ∈ back, middle.leak direct manager = process.leak direct manager := by
      intro manager member
      have held := ((there.gone manager).mp member).1
      simp only [leak, Ledger.isTracked_iff, first.config manager held, Journal.enabled, first.level]
    refine ⟨front ++ back, ?_, ?_, ?_⟩
    · refine here.distinct.append there.distinct ?_
      intro manager member also
      have ended := ((here.gone manager).mp member).2
      have held := ((there.gone manager).mp also).1
      omega
    · intro manager
      have fewer := first.fewer manager
      have less := second.fewer manager
      rw [List.mem_append, here.gone, there.gone]
      omega
    · rw [there.warnings, here.warnings, List.flatMap_append, List.append_assoc,
        List.flatMap_congr leaks]

end Process

namespace Session

variable {session : Session K V} {process : Process} {symbols : Names Symbol}
  {direct : Multiset Extent} {structures : Multiset (Structure K V)} {object : Structure K V}

theorem Arranged.sheds (arranged : Arranged process symbols direct (object ::ₘ structures)) :
    Ends object.discard process
      (fun _ after => Arranged after symbols direct structures ∧ process.Sheds after direct)
      fun _ _ => False := by
  apply arranged.discard.mono ?_ fun _ _ none => none
  intro _ after ends
  obtain ⟨there, -, level, -, config, warnings⟩ := ends
  refine ⟨there, level, ?_, ?_, ?_⟩
  · intro manager
    rw [arranged.holders_eq, there.holders_eq, holders_cons, Multiset.count_add]
    exact Nat.le_add_left _ _
  · intro manager held
    rw [there.holders_eq, Multiset.count_pos] at held
    exact config manager held
  · apply arranged.warns_one there ?_ ?_ warnings
    · rw [holders_cons]
      exact Multiset.mem_add.mpr (.inl object.manager_mem_holders)
    · intro other member different
      rw [holders_cons] at member
      rcases Multiset.mem_add.mp member with its | there
      · exact absurd (Structure.eq_manager_of_mem_holders its) different
      · exact there

theorem Arranged.discardAll (session : Session K V) {objects : List α}
    {make : α → Structure K V} {discard : α → Action Process Unit}
    (discards : ∀ inner, discard inner = (make inner).discard)
    (arranged : Arranged process symbols direct ((objects : Multiset α).map make + structures)) :
    Ends (objects.forM fun inner => ofProcess (discard inner)) { session with process }
      (fun _ later => ∃ after, later = { session with process := after } ∧
        Arranged after symbols direct structures ∧ process.Sheds after direct)
      fun _ _ => False := by
  induction objects generalizing process with
  | nil =>
      refine ⟨process, rfl, ?_, .refl process direct⟩
      rwa [Multiset.coe_nil, Multiset.map_zero, zero_add] at arranged
  | cons inner rest ih =>
      rw [← Multiset.cons_coe, Multiset.map_cons, Multiset.cons_add] at arranged
      rw [List.forM, Action.ends_bind, ends_ofProcess, discards]
      apply arranged.sheds.mono ?_ fun _ _ none => none
      intro _ middle ends
      apply (ih ends.1).mono ?_ fun _ _ none => none
      intro _ later last
      obtain ⟨after, same, there, sheds⟩ := last
      exact ⟨after, same, there, ends.2.trans sheds⟩

/-- Once a session is closed there are no structures, and every manager has ended that left
nothing but blocks of the client. -/
theorem Settled.closes (settled : session.Settled direct) :
    Ends close session
      (fun _ later => later.structures = 0 ∧ later.Settled direct ∧
        session.process.Sheds later.process direct)
      fun _ _ => False := by
  let bare : Session K V := { session with
    interners := {}, dictionaries := {}, regions := {}, arrays := {}, managers := {} }
  have none : bare.structures = 0 := by
    simp only [bare, structures, Names.objects_empty, Multiset.map_zero, add_zero]
  have sorted : session.structures = session.interners.objects.map Structure.interner +
      (session.dictionaries.objects.map Structure.dictionary +
        (session.regions.objects.map Structure.region +
          (session.arrays.objects.map Structure.array +
            (session.managers.objects.map Structure.holder + 0)))) := by
    rw [structures]
    ac_rfl
  have arranged := settled.congr sorted
  simp only [close, Action.ends_bind, ends_current, ends_update]
  apply (arranged.discardAll bare fun _ => rfl).mono ?_ fun _ _ none => none
  intro _ _ ends
  obtain ⟨first, rfl, arranged, sheds⟩ := ends
  apply (arranged.discardAll bare fun _ => rfl).mono ?_ fun _ _ none => none
  intro _ _ ends
  obtain ⟨second, rfl, arranged, others⟩ := ends
  have sheds := sheds.trans others
  apply (arranged.discardAll bare fun _ => rfl).mono ?_ fun _ _ none => none
  intro _ _ ends
  obtain ⟨third, rfl, arranged, others⟩ := ends
  have sheds := sheds.trans others
  apply (arranged.discardAll bare fun _ => rfl).mono ?_ fun _ _ none => none
  intro _ _ ends
  obtain ⟨fourth, rfl, arranged, others⟩ := ends
  have sheds := sheds.trans others
  apply (arranged.discardAll bare fun _ => rfl).mono ?_ fun _ _ none => none
  intro _ _ ends
  obtain ⟨last, rfl, arranged, others⟩ := ends
  exact ⟨none, arranged.congr none.symm, sheds.trans others⟩

end Session

end SymbolStore
