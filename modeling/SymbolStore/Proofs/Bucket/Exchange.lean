import SymbolStore.Proofs.Bucket.Storage

/-!
Tables with other bucket arrays than before. The new array is obtained while the old one is still
there; only then the old one goes. What a manager counts changes by the difference of the two.
-/

namespace SymbolStore

open SymbolStore.Action (Ends)

def Ledger.charge (ledger : Ledger) (size : Nat) : Nat := if ledger.isTracked then size else 0

namespace Manager

variable {manager : Manager} {process : Process}

/-- A block of one size went for a block of another size. -/
structure Exchanges (manager : Manager) (before after : Process) (oldSize newSize : Nat) :
    Prop where
  liveBlocks : (manager.ledgerIn after).counters.liveBlocks =
    (manager.ledgerIn before).counters.liveBlocks
  liveBytes : (manager.ledgerIn after).counters.liveBytes +
      (manager.ledgerIn before).charge oldSize =
    (manager.ledgerIn before).counters.liveBytes + (manager.ledgerIn before).charge newSize

theorem Exchanges.of_remarks (manager : Manager) {after : Process}
    (remarks : process.Remarks after) (size : Nat) :
    manager.Exchanges process after size size where
  liveBlocks := by rw [remarks.ledgerIn_eq]
  liveBytes := by rw [remarks.ledgerIn_eq]

theorem Exchanges.remarks {middle after : Process} {oldSize newSize : Nat}
    (exchanges : manager.Exchanges process middle oldSize newSize)
    (remarks : middle.Remarks after) : manager.Exchanges process after oldSize newSize where
  liveBlocks := by rw [remarks.ledgerIn_eq, exchanges.liveBlocks]
  liveBytes := by rw [remarks.ledgerIn_eq, exchanges.liveBytes]

theorem free_exchanges {middle : Process} {payload : Layout} {address old size : Nat}
    (sound : process.Sound) (holds : manager.Holds process old size)
    (handed : manager.HandsOut process middle payload address) (journal : Journal) :
    Ends (manager.free old) { middle with journal }
      (fun _ after => manager.Exchanges process after size payload.size) fun _ _ => False := by
  have evolves := handed.evolves.trans (Process.evolves_journal handed.evolves.sound journal)
  have held := evolves.held manager old size List.not_mem_nil holds
  apply (free_takes evolves.sound held).mono ?_ fun _ _ none => none
  intro _ after ends
  obtain ⟨other, took⟩ := ends
  obtain rfl : size = other := held.size_eq took.holds
  have ledger : manager.ledgerIn after =
      ((manager.ledgerIn process).acquired address payload.size).released old size := by
    have entered := handed.turns.ledgers manager
    have struck := took.turns.ledgers manager
    rw [if_pos rfl] at entered struck
    rw [struck, ← entered]
    rfl
  rw [Ledger.released, Ledger.isTracked_acquired, Ledger.acquired] at ledger
  cases tracked : (manager.ledgerIn process).isTracked with
  | false =>
      simp only [tracked, Bool.false_eq_true, if_false] at ledger
      constructor
      · rw [ledger]
      · rw [ledger, Ledger.charge, Ledger.charge, tracked]
        rfl
  | true =>
      have counted : size ≤ (manager.ledgerIn process).counters.liveBytes :=
        (sound.ledgers manager tracked).size_le (holds.lists tracked)
      simp only [tracked, if_true] at ledger
      constructor
      · rw [ledger]
        rfl
      · rw [ledger, Ledger.charge, Ledger.charge, if_pos tracked, if_pos tracked]
        exact Nat.sub_add_cancel (Nat.le_add_right_of_le counted)

end Manager

namespace BucketArray

variable {α : Type} {manager : Manager} {process : Process}

/-- Moving the entries fails only where the manager refuses the new block. -/
theorem rehashed_effect (array : BucketArray α) (table : Rehash) (hashOf : α → UInt64)
    {capacity : Nat} (sound : process.Sound) (size : TableSize capacity)
    (room : (Bucket.entries array.buckets).length ≤ capacity) :
    Ends (array.rehashed manager table hashOf capacity) process
      (fun fresh after => manager.HandsOut process after (layout capacity) fresh.block ∧
        fresh.Replaces array hashOf capacity)
      (manager.Refuses process bucketLayout.align) := by
  rcases rehash_placed table hashOf array.buckets size room with
    ⟨buckets, rehashed, sized, placed, undeleted, entries⟩
  apply (Manager.allocateArray_effect bucketLayout capacity sound).bind fun _ _ refused => refused
  intro block after handed
  rw [Action.ends_bind, Action.ends_liftFault, rehashed]
  exact ⟨handed, sized, placed, undeleted, entries⟩

end BucketArray

end SymbolStore
