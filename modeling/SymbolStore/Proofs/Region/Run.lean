import SymbolStore.Proofs.Region.Operations
import SymbolStore.Proofs.Run

/-!
Runs of requests to a region. Ranges handed out in one generation never overlap, and the region
counts their bytes.
-/

namespace SymbolStore

open SymbolStore.Action (Ends)

namespace Region

inductive Request
  | allocate (range : Layout)
  | store (range : Layout) (content : Nat → UInt8)
  | storeBytes (bytes : List UInt8)
  | reset

inductive Response
  | range (place : Range)
  | pointer (pointer : Pointer)
  | handle (handle : Handle)
  | done
  deriving DecidableEq, Repr

def perform : Request → Method Region Response
  | .allocate range => .range <$> allocate range
  | .store range content => .pointer <$> store range content
  | .storeBytes bytes => .handle <$> storeBytes bytes
  | .reset => do
    reset
    return .done

namespace Request

def isReset : Request → Bool
  | reset => true
  | _ => false

def layout? : Request → Option Layout
  | allocate range => some range
  | store range _ => some range
  | storeBytes bytes => some { size := bytes.length, align := 1 }
  | reset => none

end Request

/-- Where the range of a response starts. Bytes are always stored in the current chunk. -/
def Response.pointer? (after : Region) : Response → Option Pointer
  | .range place => some (after.pointer place)
  | .pointer first => some first
  | .handle issued => some (after.pointer { chunk := after.current, offset := issued.offset })
  | .done => none

def Response.handle? : Response → Option Handle
  | .handle issued => some issued
  | _ => none

variable {region : Region} {process : Process}

structure Granted (region : Region) (range : Layout) (response : Response)
    (after : Region × Process) : Prop where
  takes : ∃ place, region.Takes after.1 range place ∧
    response.pointer? after.1 = some (after.1.pointer place) ∧
    ∀ handle ∈ response.handle?, handle =
      { region := region.id
        generation := region.generation
        chunk := place.chunk % indexLimit
        offset := place.offset
        length := range.size }
  sound : after.1.SoundIn after.2

def Denied (region : Region) (range : Layout) (failure : Failure)
    (after : Region × Process) : Prop :=
  (∃ current, after.1 = region.moved current) ∧ after.1.SoundIn after.2 ∧
    region.Refuses range after.2 failure

theorem allocate_granted (range : Layout) (sound : region.SoundIn process) :
    Ends (allocate range) (region, process)
      (fun place after => region.Takes after.1 range place ∧ after.1.SoundIn after.2)
      (region.Denied range) := by
  apply (allocate_ends range sound).mono
  · intro place after ends
    rcases ends with ⟨takes, there, -⟩
    exact ⟨takes, there⟩
  · intro failure after ends
    rcases ends with ⟨moved, there, -, refuses⟩
    exact ⟨moved, there, refuses⟩

theorem perform_granted {request : Request} {range : Layout} (asks : request.layout? = some range)
    (sound : region.SoundIn process) :
    Ends (perform request) (region, process) (region.Granted range) (region.Denied range) := by
  cases request with
  | allocate range =>
      cases asks
      rw [perform, Action.ends_map]
      apply (allocate_granted range sound).mono ?_ fun _ _ denied => denied
      intro place after ends
      rcases ends with ⟨takes, there⟩
      exact ⟨⟨place, takes, rfl, by simp [Response.handle?]⟩, there⟩
  | store range content =>
      cases asks
      rw [perform, Action.ends_map, store]
      apply (allocate_granted range sound).bind (fun _ _ denied => denied)
      intro place last ends
      rcases last with ⟨after, process⟩
      rcases ends with ⟨takes, there⟩
      simp only [Action.ends_bind, Method.ends_self, Method.ends_liftProcess]
      rw [there.ends_store takes.covers (by simp)]
      exact ⟨⟨place, takes, rfl, by simp [Response.handle?]⟩,
        there.overwrites (Process.overwrites_write there.memory _ _)⟩
  | storeBytes bytes =>
      cases asks
      rw [perform, Action.ends_map, storeBytes]
      apply (allocate_granted _ sound).bind (fun _ _ denied => denied)
      intro place last ends
      rcases last with ⟨after, process⟩
      rcases ends with ⟨takes, there⟩
      simp only [Action.ends_bind, Method.ends_self, Method.ends_liftProcess]
      rw [there.ends_store takes.covers rfl]
      refine ⟨⟨place, takes, ?_, ?_⟩, there.overwrites (Process.overwrites_write there.memory _ _)⟩
      · rw [Response.pointer?, takes.current_eq]
      · intro _ equal
        cases equal
        rw [takes.generation_eq, takes.id_eq]
  | reset => cases asks

theorem perform_reset {request : Request} (asks : request.layout? = none)
    (sound : region.SoundIn process) :
    Ends (perform request) (region, process)
      (fun response after => response = .done ∧
        after.1 = { region.rewound with generation := region.generation + 1 } ∧
        after.1.SoundIn after.2)
      fun _ after => wordLimit ≤ region.generation + 1 ∧ after.1 = region.rewound ∧
        after.1.SoundIn after.2 := by
  cases request with
  | reset =>
      rw [perform]
      apply (reset_ends sound).bind (fun _ _ failed => failed)
      intro _ after ends
      rcases ends with ⟨rewound, there, -⟩
      exact ⟨rfl, rewound, there⟩
  | _ => cases asks

/-- A range that was handed out: when, what was asked for, where it starts, and the handle that
was issued for it, if any. -/
structure Grant where
  generation : Nat
  layout : Layout
  pointer : Pointer
  handle? : Option Handle

namespace Grant

def ofStep? (step : Step Request Response Region) : Option Grant :=
  match step.outcome, step.request.layout? with
  | .ok response, some layout => (response.pointer? step.after.1).map fun pointer =>
      { generation := step.after.1.generation, layout, pointer, handle? := response.handle? }
  | _, _ => none

def Apart (first second : Grant) : Prop :=
  first.pointer.address + first.layout.size ≤ second.pointer.address ∨
    second.pointer.address + second.layout.size ≤ first.pointer.address

/-- A range is aligned as it was asked for, and lies in a chunk of the region, which is a live block
of its manager. A handle says the same in its own way. -/
structure LiesIn (grant : Grant) (region : Region) (process : Process) : Prop where
  aligned : grant.pointer.address % grant.layout.align = 0
  inside : ∃ i chunk, region.chunks[i]? = some chunk ∧ chunk.block = grant.pointer.block ∧
    grant.pointer.offset + grant.layout.size ≤ chunk.capacity ∧
    region.manager.Holds process chunk.block chunk.capacity ∧
    ∀ handle ∈ grant.handle?, handle =
      { region := region.id
        generation := grant.generation
        chunk := i % indexLimit
        offset := grant.pointer.offset
        length := grant.layout.size }

variable {first second : Grant} {range : Layout} {place : Range} {after : Region}

theorem apart_of_blocks (sound : process.heap.Sound) (here : first.LiesIn region process)
    (there : second.LiesIn region process)
    (different : first.pointer.block ≠ second.pointer.block) : first.Apart second := by
  rcases here.inside with ⟨_, chunk, -, block, inside, held, -⟩
  rcases there.inside with ⟨_, chunk', -, block', inside', held', -⟩
  rcases held.present with ⟨_, found, size, -⟩
  rcases held'.present with ⟨_, found', size', -⟩
  rw [block] at found
  rw [block'] at found'
  unfold Apart Pointer.address
  rcases Nat.lt_or_gt_of_ne different with less | greater
  · have apart := sound.apart _ _ _ _ found found' less
    exact .inl (by omega)
  · have apart := sound.apart _ _ _ _ found' found greater
    exact .inr (by omega)

theorem liesIn_taken (takes : region.Takes after range place) (there : after.SoundIn process)
    {handle? : Option Handle}
    (named : ∀ handle ∈ handle?, handle =
      { region := region.id
        generation := region.generation
        chunk := place.chunk % indexLimit
        offset := place.offset
        length := range.size }) :
    LiesIn { generation := region.generation, layout := range, pointer := after.pointer place,
             handle? } after process := by
  rcases takes.pointer_eq with ⟨chunk, present, block, used, full, aligned⟩
  constructor
  · simp only [Pointer.address]
    rw [← block]
    exact aligned
  · refine ⟨place.chunk, chunk, present, block, used ▸ full,
      there.owns.held chunk (List.mem_of_getElem? present), ?_⟩
    rw [takes.id_eq]
    exact named

end Grant

def extents (region : Region) : List (Nat × Nat) :=
  region.chunks.map fun chunk => (chunk.block, chunk.capacity)

theorem Takes.extents {after : Region} {range : Layout} {place : Range}
    (takes : region.Takes after range place) : region.extents <+: after.extents := by
  rcases takes with ⟨chunks, chunk, extended, present, -, -, rfl⟩
  rw [Region.extents, Region.extents, extents_taken present]
  rcases extended with rfl | ⟨fresh, -, rfl⟩
  · exact List.prefix_refl _
  · rw [List.map_append]
    exact List.prefix_append _ _

theorem Grant.LiesIn.mono {grant : Grant} {after : Region} {later : Process}
    (lies : grant.LiesIn region process) (same : after.id = region.id)
    (extents : region.extents <+: after.extents) (there : after.SoundIn later) :
    grant.LiesIn after later where
  aligned := lies.aligned
  inside := by
    rcases lies.inside with ⟨i, chunk, present, block, inside, -, named⟩
    have here : region.extents[i]? = some (chunk.block, chunk.capacity) := by
      simp [Region.extents, present]
    have extent : after.extents[i]? = some (chunk.block, chunk.capacity) := by
      rcases extents with ⟨rest, whole⟩
      rw [← whole, List.getElem?_append_left (List.getElem?_eq_some_iff.mp here).1, here]
    rw [Region.extents, List.getElem?_map, Option.map_eq_some_iff] at extent
    rcases extent with ⟨other, presentThere, equal⟩
    rw [Prod.mk.injEq] at equal
    refine ⟨i, other, presentThere, equal.1.trans block, equal.2 ▸ inside,
      there.owns.held other (List.mem_of_getElem? presentThere), ?_⟩
    rw [same]
    exact named

/-- The bytes of the ranges that were handed out in a generation. -/
def bytesIn (generation : Nat) : List Grant → Nat
  | [] => 0
  | grant :: grants =>
    if grant.generation = generation then grant.layout.size + bytesIn generation grants
    else bytesIn generation grants

theorem bytesIn_append (generation : Nat) (front back : List Grant) :
    bytesIn generation (front ++ back) = bytesIn generation front + bytesIn generation back := by
  induction front with
  | nil => simp [bytesIn]
  | cons grant rest ih =>
      simp only [List.cons_append, bytesIn, ih]
      split
      · omega
      · rfl

theorem bytesIn_of_past {generation : Nat} {grants : List Grant}
    (past : ∀ grant ∈ grants, grant.generation < generation) : bytesIn generation grants = 0 := by
  induction grants with
  | nil => rfl
  | cons grant rest ih =>
      have first := past grant List.mem_cons_self
      rw [bytesIn, if_neg (Nat.ne_of_lt first)]
      exact ih fun other member => past other (List.mem_cons_of_mem _ member)

/-- What is known of all ranges that were handed out so far. -/
structure History (grants : List Grant) (region : Region) (process : Process) : Prop where
  apart : grants.Pairwise fun first second =>
    first.generation = second.generation → first.Apart second
  lies : ∀ grant ∈ grants, grant.LiesIn region process
  past : ∀ grant ∈ grants, grant.generation ≤ region.generation
  covered : ∀ grant ∈ grants, grant.generation = region.generation →
    region.Covers grant.pointer grant.layout.size
  total : region.totalAllocated = bytesIn region.generation grants

variable {grants : List Grant} {after : Region} {later : Process} {range : Layout} {place : Range}

theorem History.moved (history : History grants region process) {current : Nat}
    (there : (region.moved current).SoundIn later) : History grants (region.moved current) later where
  apart := history.apart
  lies grant member := (history.lies grant member).mono rfl (List.prefix_refl _) there
  past := history.past
  covered := history.covered
  total := history.total

/-- A range that is handed out lies behind all others of the generation in its chunk. -/
theorem History.taken (history : History grants region process)
    (takes : region.Takes after range place) (there : after.SoundIn later)
    {handle? : Option Handle}
    (named : ∀ handle ∈ handle?, handle =
      { region := region.id
        generation := region.generation
        chunk := place.chunk % indexLimit
        offset := place.offset
        length := range.size }) :
    History (grants ++ [{ generation := region.generation, layout := range,
                          pointer := after.pointer place, handle? }]) after later := by
  have generation := takes.generation_eq
  have total : after.totalAllocated = region.totalAllocated + range.size := by
    rcases takes with ⟨_, _, -, -, -, -, rfl⟩
    rfl
  have fresh := Grant.liesIn_taken takes there named
  have lies : ∀ grant ∈ grants, grant.LiesIn after later := fun grant member =>
    (history.lies grant member).mono takes.id_eq takes.extents there
  constructor
  · refine List.pairwise_append.mpr ⟨history.apart, List.pairwise_singleton _ _, ?_⟩
    intro grant member new singleton same
    rw [List.mem_singleton.mp singleton] at same ⊢
    rcases takes.apart there.owns.apart (history.covered grant member same) with
      different | behind
    · exact Grant.apart_of_blocks there.memory.heap (lies grant member) fresh different
    · by_cases block : grant.pointer.block = (after.pointer place).block
      · apply Or.inl
        simp only [Pointer.address]
        omega
      · exact Grant.apart_of_blocks there.memory.heap (lies grant member) fresh block
  · intro grant member
    rcases List.mem_append.mp member with old | new
    · exact lies grant old
    · exact List.mem_singleton.mp new ▸ fresh
  · intro grant member
    rw [generation]
    rcases List.mem_append.mp member with old | new
    · exact history.past grant old
    · rw [List.mem_singleton.mp new]
  · intro grant member same
    rcases List.mem_append.mp member with old | new
    · exact takes.keeps (history.covered grant old (same.trans generation))
    · rw [List.mem_singleton.mp new]
      exact takes.covers
  · rw [generation]
    calc
      after.totalAllocated = region.totalAllocated + range.size := total
      _ = bytesIn region.generation grants + range.size := by rw [history.total]
      _ = _ := by
        rw [bytesIn_append]
        simp [bytesIn]

theorem extents_rewound : region.rewound.extents = region.extents := by
  simp only [extents, Region.rewound, List.map_map]
  rfl

theorem History.rewound (history : History grants region process)
    (there : SoundIn { region.rewound with generation := region.generation + 1 } later) :
    History grants { region.rewound with generation := region.generation + 1 } later where
  apart := history.apart
  lies grant member := by
    refine (history.lies grant member).mono rfl ?_ there
    show region.extents <+: region.rewound.extents
    rw [extents_rewound]
  past grant member := Nat.le_succ_of_le (history.past grant member)
  covered grant member same := by
    have past := history.past grant member
    simp only at same
    omega
  total := by
    have none : bytesIn (region.generation + 1) grants = 0 :=
      bytesIn_of_past fun grant member => Nat.lt_succ_of_le (history.past grant member)
    exact none.symm

theorem history_run (requests : List Request) (sound : region.SoundIn process)
    (history : History grants region process)
    (few : region.generation + requests.countP Request.isReset < wordLimit) :
    History (grants ++ (Method.run perform requests (region, process)).filterMap Grant.ofStep?)
      (Method.final perform requests (region, process)).1
      (Method.final perform requests (region, process)).2 ∧
    (Method.final perform requests (region, process)).1.SoundIn
      (Method.final perform requests (region, process)).2 := by
  induction requests generalizing grants region process with
  | nil => simpa using ⟨history, sound⟩
  | cons request rest ih =>
      rw [Method.run_cons, Method.final_cons]
      cases asks : request.layout? with
      | some range =>
          have ends := perform_granted asks sound
          have kept : request.isReset = false := by
            cases request <;> cases asks <;> rfl
          rw [List.countP_cons, kept] at few
          rcases ran : (perform request).runFrom (region, process) with
            ⟨failure | response, after, later⟩
          · rcases ends.of_error ran with ⟨⟨current, moved⟩, there, -⟩
            simp only at moved there
            subst moved
            rw [List.filterMap_cons_none rfl]
            exact ih there (history.moved there) few
          · rcases ends.of_ok ran with ⟨⟨place, takes, pointer, named⟩, there⟩
            have generation : after.generation = region.generation := takes.generation_eq
            have grant : Grant.ofStep? { request, outcome := .ok response, after := (after, later) } =
                some { generation := region.generation, layout := range,
                       pointer := after.pointer place, handle? := response.handle? } := by
              simp only at pointer
              simp only [Grant.ofStep?, asks, pointer, Option.map_some, generation]
            rw [List.filterMap_cons_some grant, List.append_cons]
            exact ih there (history.taken takes there named) (generation ▸ few)
      | none =>
          have ends := perform_reset asks sound
          have reset : request.isReset = true := by
            cases request <;> cases asks
            rfl
          rw [List.countP_cons, reset, if_pos rfl] at few
          rcases ran : (perform request).runFrom (region, process) with
            ⟨failure | response, after, later⟩
          · rcases ends.of_error ran with ⟨last, -⟩
            omega
          · rcases ends.of_ok ran with ⟨-, rewound, there⟩
            simp only at rewound there
            subst rewound
            rw [List.filterMap_cons_none (by simp [Grant.ofStep?, asks])]
            apply ih there (history.rewound there)
            show region.generation + 1 + _ < wordLimit
            omega

/-- Whatever is asked of a new region, with fewer than `2 ^ 64` resets: ranges of one generation lie
apart, each aligned and inside a block of the region, no chunk is filled beyond its capacity or
ahead of the current one, and the bytes handed out since the last reset are counted. -/
theorem run_apart {manager : Manager} {chunkSize : Nat} {start : Process} (memory : process.Sound)
    (created : (create manager chunkSize).runFrom process = (.ok region, start))
    (requests : List Request) (few : requests.countP Request.isReset < wordLimit) :
    let grants := (Method.run perform requests (region, start)).filterMap Grant.ofStep?
    let state := Method.final perform requests (region, start)
    (grants.Pairwise fun first second =>
      first.generation = second.generation → first.Apart second) ∧
      (∀ grant ∈ grants, grant.LiesIn state.1 state.2) ∧ state.1.Valid ∧
      state.1.totalAllocated = bytesIn state.1.generation grants ∧
      state.1.totalAllocated ≤ state.1.usage.totalCapacity := by
  rcases (create_ends chunkSize memory).of_ok created with ⟨sound, -, -, first, unused, -⟩
  have empty : History [] region start := by
    refine ⟨.nil, ?_, ?_, ?_, unused⟩ <;> intro grant member <;> cases member
  rcases history_run requests sound empty (by omega) with ⟨history, there⟩
  rw [List.nil_append] at history
  exact ⟨history.apart, history.lies, there.valid, history.total, there.valid.total_le⟩

theorem words_created : ∃ (region : Region) (start : Process),
    (create ⟨0⟩ 256).runFrom ((Manager.create .tracked).runFrom {}).2 = (.ok region, start) :=
  ⟨_, _, rfl⟩

theorem run_apart_words : ∃ (region : Region) (start : Process),
    (create ⟨0⟩ 256).runFrom ((Manager.create .tracked).runFrom {}).2 = (.ok region, start) ∧
    (Method.final perform [.allocate ⟨24, 8⟩, .storeBytes [1, 2, 3], .reset, .allocate ⟨1, 64⟩]
      (region, start)).1.Valid := by
  rcases words_created with ⟨region, start, created⟩
  exact ⟨region, start, created,
    (run_apart (Manager.sound_create Allocator.ascending_lawful _) created
      [.allocate ⟨24, 8⟩, .storeBytes [1, 2, 3], .reset, .allocate ⟨1, 64⟩] (by decide)).2.2.1⟩

end Region

end SymbolStore
