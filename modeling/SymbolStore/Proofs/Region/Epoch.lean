import SymbolStore.Proofs.Region.Failing
import SymbolStore.Proofs.Region.Replay
import SymbolStore.Proofs.Twin.Framed

/-!
Epochs of a region: what it serves between two resets. The requests of an epoch, made again in the
next one, are served from the same places, and no manager is called for them.
-/

namespace SymbolStore

open SymbolStore.Action (Ends)

namespace Chunk

theorem Lodged.rewound {chunks others : List Chunk} {heap : Heap} (lodged : Lodged chunks heap)
    (same : others.map rewound = chunks.map rewound) : Lodged others heap := by
  intro chunk member
  have listed : chunk.rewound ∈ chunks.map Chunk.rewound := by
    rw [← same]
    exact List.mem_map_of_mem member
  obtain ⟨other, there, equal⟩ := List.mem_map.mp listed
  simp only [Chunk.rewound, Chunk.mk.injEq, true_and] at equal
  obtain ⟨block, capacity⟩ := equal
  rw [← block, ← capacity]
  exact lodged other there

theorem Lodged.framed {chunks : List Chunk} {heap after : Heap} (lodged : Lodged chunks heap)
    (framed : heap.Framed after) : Lodged chunks after := fun chunk member =>
  (framed.covers _ _).trans (lodged chunk member)

end Chunk

namespace Region

variable {region : Region} {process : Process}

/-- The answer as the region would give it now. Handles carry its name and its generation. -/
def Response.issuedBy (region : Region) : Response → Response
  | .handle issued => .handle { issued with region := region.id, generation := region.generation }
  | response => response

/-- The region later on has answered the request. Perhaps it has obtained a chunk; and a region that
has this chunk already answers alike, where its chunks are blocks, and changes nothing of the process
but bytes. -/
def Repeats (region after : Region) (request : Request) (response : Response) : Prop :=
  ∃ fresh : List Chunk, (∀ chunk ∈ fresh, chunk.used = 0) ∧
    after.chunks.map Chunk.rewound = (region.chunks ++ fresh).map Chunk.rewound ∧
    ∀ (base : Region) (behind : List Chunk) (process : Process),
      Chunk.Lodged (region.chunks ++ fresh) process.heap → ∃ heap, process.heap.Framed heap ∧
        (perform request).runFrom (base.replay region (fresh ++ behind), process) =
          (.ok (response.issuedBy base), (base.replay after behind, { process with heap }))

theorem Takes.pointer_replay {after : Region} {range : Layout} {place : Range}
    (takes : region.Takes after range place) (base : Region) (behind : List Chunk) :
    (base.replay after behind).pointer place = after.pointer place := by
  rcases takes.pointer_eq with ⟨chunk, there, -⟩
  have same : (after.chunks ++ behind)[place.chunk]? = after.chunks[place.chunk]? :=
    List.getElem?_append_left (List.getElem?_eq_some_iff.mp there).1
  rw [pointer, pointer, replay, same]

/-- The range that was handed out may be written wherever the chunks are blocks. -/
theorem Takes.lodged {after : Region} {range : Layout} {place : Range} {chunks : List Chunk}
    {heap : Heap} (takes : region.Takes after range place) (lodged : Chunk.Lodged chunks heap)
    (same : after.chunks.map Chunk.rewound = chunks.map Chunk.rewound) :
    heap.covers (after.pointer place) range.size = true := by
  obtain ⟨chunk, there, block, used, fits, -⟩ := takes.pointer_eq
  have inside : place.offset + range.size ≤ chunk.capacity := used ▸ fits
  exact (lodged.rewound same).covers (List.mem_of_getElem? there) block inside

theorem perform_repeats {request : Request} {range : Layout} (asks : request.layout? = some range)
    (sound : region.SoundIn process) :
    Ends (perform request) (region, process)
      (fun response after => region.Repeats after.1 request response) fun _ _ => True := by
  have allocated (range : Layout) := (allocate_again range sound).and (allocate_granted range sound)
  cases request with
  | allocate range =>
      rw [perform, Action.ends_map]
      apply (allocated range).mono ?_ fun _ _ _ => trivial
      intro place after ends
      rcases ends with ⟨⟨fresh, unused, same, again⟩, -⟩
      refine ⟨fresh, unused, same, fun base behind process _ => ⟨process.heap, .refl _, ?_⟩⟩
      rw [perform, Action.runFrom_map, again]
      rfl
  | store range content =>
      rw [perform, Action.ends_map, store]
      apply (allocated range).bind fun _ _ _ => trivial
      rintro place ⟨after, later⟩ ⟨⟨fresh, unused, same, again⟩, takes, -⟩
      simp only [Action.ends_bind, Method.ends_self, Method.ends_liftProcess, Action.ends_pure]
      refine (Action.ends_trivial _ _).mono (fun _ _ _ => ?_) fun _ _ _ => trivial
      refine ⟨fresh, unused, same, fun base behind process lodged => ?_⟩
      let stored := (List.range range.size).map content
      have room : process.heap.covers (after.pointer place) stored.length = true := by
        rw [List.length_map, List.length_range]
        exact takes.lodged lodged same
      refine ⟨process.heap.write (after.pointer place) stored, .written _ _ _, ?_⟩
      simp only [perform, store, Action.runFrom_map, Action.runFrom_bind, again, Method.runFrom_self,
        Method.runFrom_liftProcess, takes.pointer_replay]
      rw [Process.runFrom_store room]
      rfl
  | storeBytes bytes =>
      rw [perform, Action.ends_map, storeBytes]
      apply (allocated _).bind fun _ _ _ => trivial
      rintro place ⟨after, later⟩ ⟨⟨fresh, unused, same, again⟩, takes, -⟩
      simp only [Action.ends_bind, Method.ends_self, Method.ends_liftProcess, Action.ends_pure]
      refine (Action.ends_trivial _ _).mono (fun _ _ _ => ?_) fun _ _ _ => trivial
      refine ⟨fresh, unused, same, fun base behind process lodged => ?_⟩
      have room : process.heap.covers (after.pointer place) bytes.length = true :=
        takes.lodged lodged same
      refine ⟨process.heap.write (after.pointer place) bytes, .written _ _ _, ?_⟩
      simp only [perform, storeBytes, Action.runFrom_map, Action.runFrom_bind, again,
        Method.runFrom_self, Method.runFrom_liftProcess, takes.pointer_replay]
      rw [Process.runFrom_store room]
      rfl
  | reset => cases asks

theorem rewound_of_empty (valid : region.Valid) (none : region.chunks = [])
    (total : region.totalAllocated = 0) : region.rewound = region := by
  have first : region.current = 0 := by
    rcases valid.current with inside | ⟨-, first⟩
    · rw [none] at inside
      cases inside
    · exact first
  cases region
  cases none
  cases total
  cases first
  rfl

/-- A region that was just created or reset. Others may have done something since. -/
inductive Epoch : Region × Process → Prop
  | made {manager : Manager} {chunkSize : Nat} {region : Region} {process after : Process}
      (memory : process.Sound)
      (created : (create manager chunkSize).runFrom process = (.ok region, after)) :
      Epoch (region, after)
  | reset {state after : Region × Process} {response : Response} (reachable : Reachable state)
      (ran : (perform .reset).runFrom state = (.ok response, after)) : Epoch after
  | aside {region : Region} {process later : Process} {freed : List Nat}
      (earlier : Epoch (region, process)) (evolves : process.Evolves later freed)
      (spared : ∀ block ∈ region.chunks.map Chunk.block, block ∉ freed) : Epoch (region, later)

/-- From the first state the region comes to the last one by requests that all succeed. Meanwhile
others may change the process in ways that leave its chunks alone. -/
inductive Served : Region × Process → List (Step Request Response Region) → Region × Process → Prop
  | nothing (state : Region × Process) : Served state [] state
  | asked {state after last : Region × Process} {request : Request} {range : Layout}
      {response : Response} {steps : List (Step Request Response Region)}
      (asks : request.layout? = some range)
      (ran : (perform request).runFrom state = (.ok response, after))
      (later : Served after steps last) :
      Served state ({ request, outcome := .ok response, after } :: steps) last
  | aside {region : Region} {process later : Process} {last : Region × Process} {freed : List Nat}
      {steps : List (Step Request Response Region)} (evolves : process.Evolves later freed)
      (spared : ∀ block ∈ region.chunks.map Chunk.block, block ∉ freed)
      (served : Served (region, later) steps last) : Served (region, process) steps last

theorem Epoch.fresh {state : Region × Process} (epoch : Epoch state) :
    state.1.SoundIn state.2 ∧ state.1.rewound = state.1 := by
  induction epoch with
  | made memory created =>
      obtain ⟨sound, -, none, -, total, -⟩ := (create_ends _ memory).of_ok created
      exact ⟨sound, rewound_of_empty sound.valid none total⟩
  | reset reachable ran =>
      obtain ⟨-, left, sound⟩ := (perform_reset rfl reachable.sound).of_ok ran
      exact ⟨sound, by rw [left]; simp [rewound]⟩
  | aside earlier evolves spared fresh => exact ⟨fresh.1.spared evolves spared, fresh.2⟩

/-- Where a step has its range, which lies in the chunk from which ranges are handed out then, and
what the answer is. -/
def placing (step : Step Request Response Region) : Nat × Except Failure Response :=
  (step.after.1.current, step.outcome)

/-- The same, if another region were to answer. -/
def placingBy (region : Region) (step : Step Request Response Region) :
    Nat × Except Failure Response :=
  (step.after.1.current, step.outcome.map (Response.issuedBy region))

structure Quiet (process : Process) (chunks : List Chunk)
    (step : Step Request Response Region) : Prop where
  chunks : step.after.1.chunks.map Chunk.rewound = chunks.map Chunk.rewound
  rewrites : ∃ heap, process.heap.Framed heap ∧ step.after.2 = { process with heap }

/-- Requests that were served can be served again. -/
theorem Served.again {start last : Region × Process} {steps : List (Step Request Response Region)}
    (served : Served start steps last) (sound : start.1.SoundIn start.2) :
    last.1.SoundIn last.2 ∧
    ∃ fresh : List Chunk, (∀ chunk ∈ fresh, chunk.used = 0) ∧
      last.1.chunks.map Chunk.rewound = (start.1.chunks ++ fresh).map Chunk.rewound ∧
      ∀ (base : Region) (behind : List Chunk) (process : Process),
        Chunk.Lodged (start.1.chunks ++ fresh) process.heap →
        let again := Method.run perform (steps.map Step.request)
          (base.replay start.1 (fresh ++ behind), process)
        again.map placing = steps.map (placingBy base) ∧
          ∀ step ∈ again, Quiet process (start.1.chunks ++ fresh ++ behind) step := by
  induction served with
  | nothing state =>
      exact ⟨sound, [], by simp, by simp, fun base behind process _ => ⟨rfl, by simp⟩⟩
  | @asked state after last request range response steps asks ran later ih =>
      have sound' := ((perform_granted asks sound).of_ok ran).sound
      obtain ⟨whole, fresh, unused, same, later⟩ := ih sound'
      obtain ⟨new, unusedNew, sameNew, again⟩ := (perform_repeats asks sound).of_ok ran
      have chunks (more : List Chunk) : (after.1.chunks ++ more).map Chunk.rewound =
          (state.1.chunks ++ (new ++ more)).map Chunk.rewound := by
        rw [List.map_append, sameNew, ← List.map_append, List.append_assoc]
      refine ⟨whole, new ++ fresh, ?_, same.trans (chunks fresh),
        fun base behind process lodged => ?_⟩
      · intro chunk member
        rcases List.mem_append.mp member with here | there
        · exact unusedNew chunk here
        · exact unused chunk there
      · have first : Chunk.Lodged (state.1.chunks ++ new) process.heap := fun chunk member =>
          lodged chunk (by rw [← List.append_assoc]; exact List.mem_append_left _ member)
        obtain ⟨heap, framed, step⟩ := again base (fresh ++ behind) process first
        have rest : Chunk.Lodged (after.1.chunks ++ fresh) heap :=
          (lodged.rewound (chunks fresh)).framed framed
        obtain ⟨placed, quiet⟩ := later base behind { process with heap } rest
        rw [← List.append_assoc] at step
        simp only [List.map_cons, Method.run_cons, step]
        constructor
        · rw [placed]
          rfl
        · intro other member
          rcases List.mem_cons.mp member with rfl | inside
          · apply Quiet.mk _ ⟨heap, framed, rfl⟩
            rw [List.append_assoc, List.append_assoc, ← chunks]
            rfl
          · obtain ⟨kept, heap', framed', moved⟩ := quiet other inside
            apply Quiet.mk _ ⟨heap', framed.trans framed', moved⟩
            rw [kept, List.append_assoc, chunks, List.append_assoc, List.append_assoc]
  | aside evolves spared served ih => exact ih (sound.spared evolves spared)

theorem served_run {requests : List Request} {state : Region × Process}
    (asks : ∀ request ∈ requests, request.layout?.isSome)
    (succeeds : ∀ step ∈ Method.run perform requests state, step.outcome.isOk) :
    Served state (Method.run perform requests state) (Method.final perform requests state) := by
  induction requests generalizing state with
  | nil => exact .nothing state
  | cons request requests ih =>
      rw [Method.run_cons] at succeeds ⊢
      obtain ⟨first, rest⟩ := List.forall_mem_cons.mp succeeds
      obtain ⟨range, layout⟩ := Option.isSome_iff_exists.mp (asks request List.mem_cons_self)
      have later := ih (fun other inside => asks other (List.mem_cons_of_mem _ inside)) rest
      rw [Method.final_cons]
      rcases ran : (perform request).runFrom state with ⟨outcome, after⟩
      rw [ran] at first later
      cases outcome with
      | error failure => cases first
      | ok response => exact .asked layout ran later

theorem Served.answered {start last : Region × Process} {steps : List (Step Request Response Region)}
    (served : Served start steps last) : ∀ step ∈ steps, ∃ response, step.outcome = .ok response := by
  induction served with
  | nothing state => simp
  | @asked state after last request range response steps asks ran later ih =>
      exact List.forall_mem_cons.mpr ⟨⟨response, rfl⟩, ih⟩
  | aside evolves spared served ih => exact ih

theorem Served.succeeds {start last : Region × Process}
    {steps again : List (Step Request Response Region)} {base : Region}
    (served : Served start steps last) (same : again.map placing = steps.map (placingBy base)) :
    ∀ step ∈ again, step.outcome.isOk := by
  intro step member
  have listed : placing step ∈ steps.map (placingBy base) := same ▸ List.mem_map_of_mem member
  obtain ⟨first, inside, equal⟩ := List.mem_map.mp listed
  obtain ⟨response, answered⟩ := served.answered first inside
  have outcome : step.outcome = first.outcome.map (Response.issuedBy base) :=
    (congrArg Prod.snd equal).symm
  rw [outcome, answered]
  rfl

theorem usage_of_chunks {after : Region}
    (same : after.chunks.map Chunk.rewound = region.chunks.map Chunk.rewound) :
    after.usage.chunkCount = region.usage.chunkCount ∧
      after.usage.totalCapacity = region.usage.totalCapacity := by
  have counts := congrArg List.length same
  rw [List.length_map, List.length_map] at counts
  have capacities := congrArg (List.map Chunk.capacity) same
  rw [List.map_map, List.map_map] at capacities
  exact ⟨counts, congrArg List.sum capacities⟩

theorem perform_reset_leaves (sound : region.SoundIn process) :
    Ends (perform .reset) (region, process)
      (fun _ after => after.1 = { region.rewound with generation := region.generation + 1 } ∧
        after.2.ledgers = process.ledgers) fun _ _ => True := by
  rw [perform]
  apply (reset_ends sound).bind fun _ _ _ => trivial
  intro _ after ends
  rcases ends with ⟨left, -, overwrites⟩
  exact ⟨left, overwrites.ledgers⟩

/-- Let a region be new or just reset, and let some requests all be served, whatever others do to the
process meanwhile. After another reset the same requests are served again, each in the same chunk from
the same place; only the handles carry the new generation. The region keeps its chunks, the reset
changes the books of no manager, and the requests change nothing of the process but bytes in its blocks.
No manager is asked: the process may be any by then in which the chunks are still blocks, also one in
which nothing can be obtained. -/
theorem epoch_again {start last emptied : Region × Process}
    {steps : List (Step Request Response Region)} {response : Response} (epoch : Epoch start)
    (served : Served start steps last)
    (resets : (perform .reset).runFrom last = (.ok response, emptied)) {later : Process}
    (lodged : Chunk.Lodged emptied.1.chunks later.heap) :
    let again := Method.run perform (steps.map Step.request) (emptied.1, later)
    again.map placing = steps.map (placingBy emptied.1) ∧
      (∀ step ∈ again, step.outcome.isOk) ∧
      (∀ step ∈ again, Quiet later last.1.chunks step) ∧
      (∀ step ∈ again, step.after.1.usage.chunkCount = last.1.usage.chunkCount ∧
        step.after.1.usage.totalCapacity = last.1.usage.totalCapacity) ∧
      emptied.1.chunks = last.1.chunks.map Chunk.rewound ∧
      emptied.2.ledgers = last.2.ledgers := by
  obtain ⟨sound, rewound⟩ := epoch.fresh
  obtain ⟨there, fresh, unused, same, again⟩ := served.again sound
  obtain ⟨left, books⟩ := (perform_reset_leaves there).of_ok resets
  have chunks : emptied.1.chunks = last.1.chunks.map Chunk.rewound := left ▸ rfl
  have twice : emptied.1.rewound = emptied.1 := by
    rw [left]
    simp [Region.rewound]
  have whole : emptied.1.chunks.map Chunk.rewound =
      (start.1.chunks ++ fresh).map Chunk.rewound := by
    rw [chunks, List.map_map, ← same]
    rfl
  -- The chunks that the first epoch came to have lie behind those that it started with.
  have resumed : emptied.1.replay start.1 (fresh ++ []) = emptied.1 := by
    rw [List.append_nil]
    calc
      emptied.1.replay start.1 fresh = emptied.1.rewound.replay start.1 fresh := by rw [twice]
      _ = emptied.1.rewound := rewound_replay rewound unused whole
      _ = emptied.1 := twice
  obtain ⟨places, quiet⟩ := again emptied.1 [] later (lodged.rewound whole.symm)
  rw [resumed] at places quiet
  have quiet : ∀ step ∈ Method.run perform (steps.map Step.request) (emptied.1, later),
      Quiet later last.1.chunks step := by
    intro step member
    obtain ⟨kept, rewrites⟩ := quiet step member
    rw [List.append_nil, ← same] at kept
    exact ⟨kept, rewrites⟩
  exact ⟨places, served.succeeds places, quiet,
    fun step member => usage_of_chunks (quiet step member).chunks, chunks, books⟩

def sampleStart : Region × Process := ((perform .reset).runFrom samplePair).2

/-- The third range needs a chunk of its own. -/
def sampleRequests : List Request :=
  [.allocate ⟨200, 1⟩, .allocate ⟨100, 8⟩, .allocate ⟨400, 16⟩, .storeBytes [1, 2, 3]]

def sampleLast : Region × Process := Method.final perform sampleRequests sampleStart

def sampleNext : Region × Process := ((perform .reset).runFrom sampleLast).2

/-- The process then, if the system had nothing more to give. -/
def sampleStrained : Process :=
  { sampleNext.2 with
    allocator := { place := fun _ _ => none, move := fun _ _ _ _ => none } }

theorem epoch_again_sample :
    Epoch sampleStart ∧
      (∀ step ∈ Method.run perform sampleRequests sampleStart, step.outcome.isOk) ∧
      ((perform .reset).runFrom sampleLast).1 = .ok .done ∧
      (Method.run perform sampleRequests (sampleNext.1, sampleStrained)).map placing =
        [(0, .ok (.range ⟨0, 0⟩)), (1, .ok (.range ⟨1, 0⟩)), (2, .ok (.range ⟨2, 0⟩)),
          (2, .ok (.handle ⟨1, 2, 2, 400, 3⟩))] := by
  have begins : ((perform .reset).runFrom samplePair).1 = .ok .done := by decide +kernel
  have epoch : Epoch sampleStart := .reset samplePair_reachable (Prod.fst_eq_iff.mp begins)
  have succeeds : ∀ step ∈ Method.run perform sampleRequests sampleStart, step.outcome.isOk := by
    decide +kernel
  have asks : ∀ request ∈ sampleRequests, request.layout?.isSome := by decide +kernel
  have served : Served sampleStart (Method.run perform sampleRequests sampleStart) sampleLast :=
    served_run asks succeeds
  have ends : ((perform .reset).runFrom sampleLast).1 = .ok .done := by decide +kernel
  have resets : (perform .reset).runFrom sampleLast = (.ok .done, sampleNext) :=
    Prod.fst_eq_iff.mp ends
  have lodged : Chunk.Lodged sampleNext.1.chunks sampleStrained.heap := by
    unfold Chunk.Lodged
    decide +kernel
  have again := (epoch_again epoch served resets lodged).1
  rw [Method.requests_run] at again
  exact ⟨epoch, succeeds, ends, again.trans (by decide +kernel)⟩

end Region

end SymbolStore
