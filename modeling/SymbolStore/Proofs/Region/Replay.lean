import SymbolStore.Proofs.Region.Operations

/-!
Requests made again after a reset. A region with the chunks of another one, and more of them behind,
hands out the ranges that the other does from the same places. Where the other obtained a chunk, it
comes to one that it has already.
-/

namespace SymbolStore

open SymbolStore.Action (Ends)

namespace Chunk

def rewound (chunk : Chunk) : Chunk := { chunk with used := 0 }

theorem rewound_eq {chunk : Chunk} (unused : chunk.used = 0) : chunk.rewound = chunk := by
  rw [rewound, ← unused]

theorem map_rewound {chunks : List Chunk} (unused : ∀ chunk ∈ chunks, chunk.used = 0) :
    chunks.map rewound = chunks := by
  conv_rhs => rw [← List.map_id chunks]
  exact List.map_congr_left fun chunk member => rewound_eq (unused chunk member)

end Chunk

namespace Region

variable {region : Region} {range : Layout} {place : Range} {offset : Nat}

theorem seek_append {chunks : List Chunk} {i j : Nat} (behind : List Chunk)
    (sought : seek range chunks i = .ok (j, some offset)) :
    seek range (chunks ++ behind) i = .ok (j, some offset) := by
  induction chunks generalizing i with
  | nil => cases sought
  | cons chunk rest ih =>
      rw [List.cons_append, seek]
      rw [seek] at sought
      cases room : chunk.room? range with
      | error fault =>
          rw [room] at sought
          cases sought
      | ok found =>
          rw [room] at sought
          cases found with
          | some start => exact sought
          | none =>
              cases rest with
              | nil => cases sought
              | cons next later => exact ih sought

theorem seek_behind {chunks : List Chunk} {i j : Nat} {fresh : Chunk} (behind : List Chunk)
    (sought : seek range chunks i = .ok (j, none)) (room : fresh.room? range = .ok (some offset)) :
    seek range (chunks ++ fresh :: behind) i = .ok (i + chunks.length, some offset) := by
  induction chunks generalizing i with
  | nil =>
      rw [List.nil_append, seek, room]
      rfl
  | cons chunk rest ih =>
      rw [List.cons_append, seek]
      rw [seek] at sought
      cases full : chunk.room? range with
      | error fault =>
          rw [full] at sought
          cases sought
      | ok found =>
          rw [full] at sought
          cases found with
          | some start => cases sought
          | none =>
              have next : seek range (rest ++ fresh :: behind) (i + 1) =
                  .ok (i + 1 + rest.length, some offset) := by
                cases rest with
                | nil =>
                    rw [List.nil_append, seek, room]
                    rfl
                | cons chunk later => exact ih sought
              have more : (rest ++ fresh :: behind).isEmpty = false := by simp
              rw [show i + (chunk :: rest).length = i + 1 + rest.length by
                rw [List.length_cons, Nat.add_assoc, Nat.add_comm 1], ← next]
              simp only [bind, Except.bind, more, Bool.false_eq_true, if_false]

/-- A region that has got as far as another one, with more chunks behind. -/
def replay (base region : Region) (behind : List Chunk) : Region :=
  { base with
    chunks := region.chunks ++ behind
    current := region.current
    totalAllocated := region.totalAllocated }

theorem allocate_of_seek {process : Process} {j : Nat} {after : Region}
    (power : isPowerOfTwo range.align = true)
    (sought : seek range (region.chunks.drop region.current) region.current = .ok (j, some offset))
    (took : (region.moved j).take range.size j offset = .ok after) :
    (allocate range).runFrom (region, process) =
      (.ok { chunk := j, offset }, (after, process)) := by
  rw [moved] at took
  simp only [allocate, Action.require, power, if_true, Action.runFrom_bind, Action.runFrom_pure,
    Method.runFrom_self, Action.runFrom_liftFault, sought, Except.mapError, Method.runFrom_update,
    took]

theorem modify_append {α : Type} {l : List α} {i : Nat} (f : α → α) (behind : List α)
    (inside : i < l.length) : (l ++ behind).modify i f = l.modify i f ++ behind := by
  induction l generalizing i with
  | nil => cases inside
  | cons a rest ih =>
      cases i with
      | zero => rfl
      | succ i =>
          rw [List.cons_append, List.modify_succ_cons, List.modify_succ_cons,
            ih (Nat.lt_of_succ_lt_succ inside), List.cons_append]

theorem take_replay {base after : Region} {size i : Nat} (behind : List Chunk)
    (inside : i < region.chunks.length) (took : (region.moved i).take size i offset = .ok after) :
    ((base.replay region behind).moved i).take size i offset = .ok (base.replay after behind) := by
  obtain ⟨total, counted, rfl⟩ := eq_of_take took
  have same : ((base.replay region behind).moved i).totalAllocated =
      (region.moved i).totalAllocated := rfl
  rw [take, same, counted]
  simp only [bind, Except.bind, pure, Except.pure, moved, replay, modify_append _ behind inside]

/-- The region later on has handed out the range. Perhaps it has obtained a chunk; and a region that
has this chunk already, and any chunks behind it, hands the range out from the same place. -/
def Again (region after : Region) (range : Layout) (place : Range) : Prop :=
  ∃ fresh : List Chunk, (∀ chunk ∈ fresh, chunk.used = 0) ∧
    after.chunks.map Chunk.rewound = (region.chunks ++ fresh).map Chunk.rewound ∧
    ∀ (base : Region) (behind : List Chunk) (process : Process),
      (allocate range).runFrom (base.replay region (fresh ++ behind), process) =
        (.ok place, (base.replay after behind, process))

def withChunks (region : Region) (fresh : List Chunk) : Region :=
  { region with chunks := region.chunks ++ fresh }

theorem replay_withChunks (base region : Region) (fresh behind : List Chunk) :
    base.replay (region.withChunks fresh) behind = base.replay region (fresh ++ behind) := by
  simp [replay, withChunks]

theorem rewound_take {size i : Nat} {after : Region} (took : region.take size i offset = .ok after) :
    after.chunks.map Chunk.rewound = region.chunks.map Chunk.rewound := by
  obtain ⟨total, -, rfl⟩ := eq_of_take took
  have same (chunk : Chunk) :
      ({ chunk with used := offset + size } : Chunk).rewound = chunk.rewound := rfl
  apply List.ext_getElem?
  intro k
  simp only [List.getElem?_map, List.getElem?_modify]
  cases region.chunks[k]? with
  | none => rfl
  | some chunk =>
      by_cases here : i = k
      · simp [here, same]
      · simp [here]

theorem again_of_seek {fresh : List Chunk} {i : Nat} {after : Region}
    (power : isPowerOfTwo range.align = true) (current : region.current ≤ region.chunks.length)
    (unused : ∀ chunk ∈ fresh, chunk.used = 0) (inside : i < (region.chunks ++ fresh).length)
    (sought : seek range ((region.chunks ++ fresh).drop region.current) region.current =
      .ok (i, some offset))
    (took : ((region.withChunks fresh).moved i).take range.size i offset = .ok after) :
    region.Again after range { chunk := i, offset } := by
  refine ⟨fresh, unused, rewound_take took, fun base behind process => ?_⟩
  rw [← replay_withChunks]
  apply allocate_of_seek power _ (take_replay behind inside took)
  have room : region.current ≤ (region.chunks ++ fresh).length := by
    rw [List.length_append]
    omega
  show seek range ((region.chunks ++ fresh ++ behind).drop region.current) region.current = _
  rw [List.drop_append_of_le_length room]
  exact seek_append behind sought

theorem grow_takes (range : Layout) {state : Region × Process} :
    Ends (grow range) state
      (fun place after => ∃ fresh offset, fresh.used = 0 ∧ fresh.room? range = .ok (some offset) ∧
        place = { chunk := state.1.chunks.length, offset } ∧
        ((state.1.withChunks [fresh]).moved state.1.chunks.length).take range.size
          state.1.chunks.length offset = .ok after.1)
      fun _ _ => True := by
  simp only [grow, Action.ends_bind, Method.ends_self]
  cases Word.add? range.size (range.align - 1) with
  | none => trivial
  | some needed =>
      have created : Ends (Chunk.create state.1.manager (max state.1.chunkSize needed)) state.2
          (fun chunk _ => chunk.used = 0) fun _ _ => True := by
        rw [Chunk.create]
        exact Action.Ends.after fun _ _ => rfl
      simp only [Action.ends_bind, Method.ends_liftProcess, Action.ends_liftFault]
      refine created.mono ?_ fun _ _ _ => trivial
      intro fresh later unused
      cases room : fresh.room? range with
      | error _ => trivial
      | ok found =>
          cases found with
          | none =>
              simp only [Action.ends_bind, Action.ends_fail]
              exact (Action.ends_trivial _ _).mono (fun _ _ _ => trivial) fun _ _ _ => trivial
          | some offset =>
              simp only [Action.ends_bind, Action.ends_liftFault]
              split
              · rename_i after took
                exact ⟨fresh, offset, unused, room, rfl, took⟩
              · trivial

/-- A range that is handed out can be handed out again. -/
theorem allocate_again (range : Layout) {process : Process} (sound : region.SoundIn process) :
    Ends (allocate range) (region, process)
      (fun place after => region.Again after.1 range place) fun _ _ => True := by
  have current : region.current ≤ region.chunks.length := by
    rcases sound.valid.current with inside | ⟨none, first⟩ <;> omega
  cases power : isPowerOfTwo range.align with
  | false =>
      rw [allocate, Action.ends_bind, Action.ends_require, power]
      trivial
  | true =>
      obtain ⟨j, room, searched, ahead, inside, -, serves⟩ :=
        seek_sought (isPowerOfTwo_pos power) (region.chunks.drop region.current) region.current
          (fun chunk member => sound.valid.used chunk (List.mem_of_mem_drop member))
          fun chunk member => sound.fits (List.mem_of_mem_drop member)
      simp only [allocate, Action.ends_bind, Action.ends_require, power, if_true, Method.ends_self,
        Action.ends_liftFault, searched, Method.ends_update]
      cases room with
      | some offset =>
          obtain ⟨chunk, present, -⟩ := serves offset rfl
          rw [List.getElem?_drop, Nat.add_sub_cancel' ahead] at present
          have within := (List.getElem?_eq_some_iff.mp present).1
          simp only [Action.ends_bind, Action.ends_liftFault]
          split
          · rename_i after took
            have none : ∀ chunk ∈ ([] : List Chunk), chunk.used = 0 := by simp
            have whole : region.withChunks [] = region := by simp [withChunks]
            refine again_of_seek power current none (by simpa using within)
              (by simpa using searched) ?_
            rw [whole]
            exact took
          · trivial
      | none =>
          apply (grow_takes range).mono ?_ fun _ _ _ => trivial
          rintro place ⟨after, later⟩ ⟨fresh, offset, unused, served, rfl, took⟩
          have behind := seek_behind [] searched served
          rw [List.length_drop, Nat.add_sub_cancel' current,
            ← List.drop_append_of_le_length current] at behind
          exact again_of_seek power current (by simpa using unused) (by simp) behind took

/-- The region with the chunks of another one, all of them rewound, is one that can do again what the
other did after it was like this. -/
theorem rewound_replay {after : Region} {fresh : List Chunk} (start : region.rewound = region)
    (unused : ∀ chunk ∈ fresh, chunk.used = 0)
    (same : after.chunks.map Chunk.rewound = (region.chunks ++ fresh).map Chunk.rewound) :
    after.rewound.replay region fresh = after.rewound := by
  have chunks : (region.chunks ++ fresh).map Chunk.rewound = region.chunks ++ fresh := by
    rw [List.map_append, Chunk.map_rewound unused]
    exact congrArg (fun r => r.chunks ++ fresh) start
  have current : region.current = 0 := congrArg Region.current start.symm
  have total : region.totalAllocated = 0 := congrArg Region.totalAllocated start.symm
  rw [replay, ← chunks, ← same, current, total]
  rfl

end Region

end SymbolStore
