import SymbolStore.Proofs.Memory.Run

/-!
What becomes of the bytes of blocks, headers included. In a run of calls to one manager, tracked or
raw, a block keeps its header and its bytes until a call is about this very block, and a block that
is resized keeps the bytes that fit and the alignment that was asked for when it was handed out.
-/

namespace SymbolStore

open SymbolStore.Action (Ends)

theorem Heap.Sound.multiple {heap : Heap} {a : Nat} {block : Block} (sound : heap.Sound)
    (found : heap.find? a = some block) (power : isPowerOfTwo block.align = true) :
    a % block.align = 0 ∧ a % blockAlign = 0 := by
  have whole := Nat.dvd_of_mod_eq_zero (sound.aligned a block found)
  rw [(sound.headed a block found).front_eq] at whole
  have offset := isPowerOfTwo_headerOffset power
  constructor
  · have divides := isPowerOfTwo_dvd power offset (Nat.le_max_left _ _)
    exact Nat.mod_eq_zero_of_dvd (divides.trans whole)
  · have divides := isPowerOfTwo_dvd isPowerOfTwo_blockAlign offset (Nat.le_max_right _ _)
    exact Nat.mod_eq_zero_of_dvd (divides.trans whole)

namespace Manager

/-- What is remembered of a block: where it is, its size, and the alignment that was asked for when
it was handed out. -/
structure Holding where
  address : Nat
  size : Nat
  align : Nat
  deriving DecidableEq, Repr

namespace Request

def block? : Request → Option Nat
  | .reallocate address .. => some address
  | .reallocateArray address .. => some address
  | .free address => some address
  | .write address .. => some address
  | _ => none

def resize? : Request → Option (Nat × Nat × Nat)
  | .reallocate address oldSize newSize => some (address, oldSize, newSize)
  | .reallocateArray address element oldCount newCount =>
    some (address, element.size * oldCount, element.size * newCount)
  | _ => none

end Request

def Holding.moved (address newAddress newSize : Nat) (holding : Holding) : Holding :=
  if holding.address = address then { holding with address := newAddress, size := newSize }
  else holding

def shelved (shelf : List Holding) : Request → Except Failure (Option Nat) → List Holding
  | .allocate payload, .ok (some address) => ⟨address, payload.size, payload.align⟩ :: shelf
  | .allocateArray element count, .ok (some address) =>
    ⟨address, element.size * count, element.align⟩ :: shelf
  | .reallocate address _ newSize, .ok (some newAddress) =>
    shelf.map (Holding.moved address newAddress newSize)
  | .reallocateArray address element _ newCount, .ok (some newAddress) =>
    shelf.map (Holding.moved address newAddress (element.size * newCount))
  | .free address, .ok _ => shelf.filter fun holding => holding.address ≠ address
  | _, _ => shelf

def Holding.payload (holding : Holding) : Layout := { size := holding.size, align := holding.align }

/-- The block is there, aligned as it was asked for at first. The bytes in front of its payload tell
its size and this alignment, and with them what the system was asked for. -/
structure Holding.LiesIn (holding : Holding) (manager : Manager) (heap : Heap) : Prop where
  present : ∃ block, heap.find? holding.address = some block ∧ block.owner = some manager.id ∧
    block.size = holding.size ∧ block.header = holding.payload ∧
    block.layout = holding.payload.whole
  multiple : holding.address % holding.align = 0 ∧ holding.address % blockAlign = 0

/-- What one request does to the blocks. -/
structure Preserves (manager : Manager) (shelf : List Holding) (before : Heap)
    (request : Request) (outcome : Except Failure (Option Nat)) (after : Heap) : Prop where
  present : ∀ holding ∈ shelved shelf request outcome, holding.LiesIn manager after
  /-- A block that was resized starts with the bytes that it had. -/
  resized : ∀ address oldSize newSize newAddress,
    request.resize? = some (address, oldSize, newSize) → outcome = .ok (some newAddress) →
    ∃ old new, before.find? address = some old ∧ old.size = oldSize ∧
      after.find? newAddress = some new ∧ new.size = newSize ∧
      new.read 0 (min oldSize newSize) = old.read 0 (min oldSize newSize) ∧
      ∃ holding ∈ shelf, holding.address = address ∧
        ⟨newAddress, newSize, holding.align⟩ ∈ shelved shelf request outcome
  /-- A request that fails leaves every block in its place, with its size and its bytes. -/
  failed : ∀ failure, outcome = .error failure →
    ∀ a block, before.find? a = some block → after.find? a = some block
  /-- The system is told of no other layout than the one it was asked for. -/
  layouts : outcome ≠ .error (.refused .wrongLayout)

/-- No block is touched but the one that the request is about, whoever has it. -/
def Untouched (before : Heap) (request : Request) (after : Heap) : Prop :=
  ∀ a block, request.block? ≠ some a → before.find? a = some block → after.find? a = some block

/-- The system gave a block or resized one, and no further allocation can be counted. -/
def Overcounts (manager : Manager) (before : Process) (request : Request)
    (outcome : Except Failure (Option Nat)) : Prop :=
  0 < request.weight ∧ outcome = .error (.fault (.overflow .add)) ∧
    (manager.ledgerIn before).Exhausted

/-- No step of a run touches other blocks, and every one preserves the blocks, up to an allocation
that cannot be counted. -/
def Conserves (manager : Manager) :
    List Holding → Process → List (Step Request (Option Nat) Manager) → Prop
  | _, _, [] => True
  | shelf, before, step :: rest =>
    Untouched before.heap step.request step.after.2.heap ∧
      (manager.Overcounts before step.request step.outcome ∨
        manager.Preserves shelf before.heap step.request step.outcome step.after.2.heap ∧
          Conserves manager (shelved shelf step.request step.outcome) step.after.2 rest)

/-- What holds between the calls: the shelf has the live blocks of the manager. -/
structure Shelves (manager : Manager) (shelf : List Holding) (process : Process) : Prop where
  sound : process.Sound
  held : ∀ holding ∈ shelf, manager.Holds process holding.address holding.size
  aligned : ∀ holding ∈ shelf, isPowerOfTwo holding.align = true ∧
    ∃ block, process.heap.find? holding.address = some block ∧ block.align = holding.align
  whole : ∀ a size, manager.Holds process a size → ∃ holding ∈ shelf, holding.address = a
  given : ∀ a, manager.Given process a

variable {manager : Manager} {shelf : List Holding} {process after : Process}

theorem live_acquired (ledger : Ledger) {address size a : Nat} (different : a ≠ address) :
    (ledger.acquired address size).live[a]? = ledger.live[a]? := by
  unfold Ledger.acquired
  split
  · rw [Ledger.live_withBlock, if_neg (Ne.symm different)]
  · rfl

theorem live_released (ledger : Ledger) {address size a : Nat} (different : a ≠ address) :
    (ledger.released address size).live[a]? = ledger.live[a]? := by
  unfold Ledger.released
  split
  · rw [Ledger.live_withoutBlock, if_neg (Ne.symm different)]
  · rfl

theorem live_resized (ledger : Ledger) {address size newAddress newSize a : Nat}
    (here : a ≠ address) (there : a ≠ newAddress) :
    (ledger.resized address size newAddress newSize).live[a]? = ledger.live[a]? := by
  unfold Ledger.resized
  split
  · rw [Ledger.live_withMoved, if_neg (Ne.symm there), if_neg (Ne.symm here)]
  · rfl

theorem Holds.of_turns {heap : Heap} {ledger : Ledger} {a size : Nat}
    (holds : manager.Holds after a size) (turns : process.Turns after manager heap ledger)
    (tracked : ledger.isTracked = (manager.ledgerIn process).isTracked)
    (block : heap.find? a = process.heap.find? a)
    (live : ledger.live[a]? = (manager.ledgerIn process).live[a]?) :
    manager.Holds process a size where
  present := by
    rw [← block, ← turns.heap_eq]
    exact holds.present
  recorded there := by
    have same := turns.ledgers manager
    rw [if_pos rfl] at same
    rw [← live, ← same]
    apply holds.recorded
    rw [same, tracked, there]

namespace Shelves

variable (shelves : manager.Shelves shelf process)
include shelves

theorem power {address : Nat} : ∀ block, process.heap.find? address = some block →
    manager.Holds process address block.size → isPowerOfTwo block.align = true := by
  intro block found holds
  obtain ⟨holding, member, rfl⟩ := shelves.whole address _ holds
  obtain ⟨power, other, present, align⟩ := shelves.aligned holding member
  rw [found] at present
  cases present
  rw [align]
  exact power

theorem liesIn {holding : Holding} (member : holding ∈ shelf) :
    holding.LiesIn manager process.heap := by
  obtain ⟨block, found, size, owner⟩ := (shelves.held holding member).present
  obtain ⟨power, other, present, align⟩ := shelves.aligned holding member
  rw [found] at present
  cases present
  have multiple := shelves.sound.heap.multiple found (align.symm ▸ power)
  have headed := shelves.sound.heap.headed _ block found
  have header : block.header = holding.payload := by
    rw [Holding.payload, ← size, ← align, headed.size_eq]
    rfl
  rw [align] at multiple
  exact ⟨⟨block, found, owner, size, header, header ▸ headed⟩, multiple⟩

theorem spared (sound : after.Sound) (heap : after.heap = process.heap)
    (ledger : ∃ holders, manager.ledgerIn after = { manager.ledgerIn process with holders }) :
    manager.Shelves shelf after := by
  obtain ⟨holders, same⟩ := ledger
  have holds_iff : ∀ a size, manager.Holds after a size ↔ manager.Holds process a size := by
    intro a size
    constructor
    · intro holds
      have recorded := holds.recorded
      rw [same] at recorded
      exact ⟨heap ▸ holds.present, recorded⟩
    · intro holds
      have recorded := holds.recorded
      refine ⟨heap ▸ holds.present, ?_⟩
      rw [same]
      exact recorded
  refine ⟨sound, ?_, ?_, ?_, ?_⟩
  · intro holding member
    exact (holds_iff _ _).mpr (shelves.held holding member)
  · rw [heap]
    exact shelves.aligned
  · intro a size holds
    exact shelves.whole a size ((holds_iff a size).mp holds)
  · intro a tracked size recorded
    rw [same] at tracked recorded
    exact (holds_iff a size).mpr (shelves.given a tracked size recorded)

theorem handedOut {payload : Layout} {address : Nat}
    (handed : manager.HandsOut process after payload address) :
    manager.Shelves (⟨address, payload.size, payload.align⟩ :: shelf) after where
  sound := handed.evolves.sound
  held := by
    intro holding member
    rcases List.mem_cons.mp member with rfl | old
    · exact handed.grants.holds
    · exact handed.evolves.held _ _ _ List.not_mem_nil (shelves.held holding old)
  aligned := by
    intro holding member
    rcases List.mem_cons.mp member with rfl | old
    · exact ⟨handed.power, _, handed.grants.block, Block.align_issued handed.words _⟩
    · obtain ⟨power, block, found, align⟩ := shelves.aligned holding old
      exact ⟨power, block, handed.evolves.blocks _ _ List.not_mem_nil found, align⟩
  whole := by
    intro a size holds
    by_cases same : a = address
    · exact ⟨_, List.mem_cons_self, same.symm⟩
    · have earlier := holds.of_turns handed.turns (Ledger.isTracked_acquired _ _ _)
        (by rw [Heap.find?_handed, if_neg (Ne.symm same)]) (live_acquired _ same)
      obtain ⟨holding, member, there⟩ := shelves.whole a size earlier
      exact ⟨holding, List.mem_cons_of_mem _ member, there⟩
  given := by
    intro a tracked size recorded
    have ledger := handed.turns.ledgers manager
    rw [if_pos rfl] at ledger
    by_cases same : a = address
    · subst same
      have holds := handed.grants.holds
      rw [holds.recorded tracked] at recorded
      cases recorded
      exact holds
    · rw [ledger, Ledger.isTracked_acquired] at tracked
      rw [ledger, live_acquired _ same] at recorded
      exact handed.evolves.held _ _ _ List.not_mem_nil (shelves.given a tracked size recorded)

theorem takenBack {address size : Nat} (taken : manager.TakesBack process after address size) :
    manager.Shelves (shelf.filter fun holding => holding.address ≠ address) after where
  sound := taken.evolves.sound
  held := by
    intro holding member
    obtain ⟨old, different⟩ := List.mem_filter.mp member
    exact taken.evolves.held _ _ _ (by simpa using different) (shelves.held holding old)
  aligned := by
    intro holding member
    obtain ⟨old, different⟩ := List.mem_filter.mp member
    obtain ⟨power, block, found, align⟩ := shelves.aligned holding old
    exact ⟨power, block, taken.evolves.blocks _ _ (by simpa using different) found, align⟩
  whole := by
    intro a s holds
    have different : a ≠ address := by
      rintro rfl
      obtain ⟨block, found, -⟩ := holds.present
      rw [taken.turns.heap_eq, Heap.find?_erase, if_pos rfl] at found
      cases found
    have earlier := holds.of_turns taken.turns (Ledger.isTracked_released _ _ _)
      (Heap.find?_erase_of_ne different) (live_released _ different)
    obtain ⟨holding, member, there⟩ := shelves.whole a s earlier
    exact ⟨holding, List.mem_filter.mpr ⟨member, by simpa [there] using different⟩, there⟩
  given := by
    intro a tracked s recorded
    have ledger := taken.turns.ledgers manager
    rw [if_pos rfl] at ledger
    rw [ledger, Ledger.isTracked_released] at tracked
    have different : a ≠ address := by
      rintro rfl
      rw [ledger, Ledger.released, if_pos tracked, Ledger.live_withoutBlock, if_pos rfl] at recorded
      cases recorded
    rw [ledger, live_released _ different] at recorded
    exact taken.evolves.held _ _ _ (by simpa using different) (shelves.given a tracked s recorded)

/-- What is known of a block in the place that it has now. -/
theorem moved {address newAddress newSize : Nat} {block : Block}
    (moves : manager.Moves process after address block newAddress newSize) :
    manager.Shelves (shelf.map (Holding.moved address newAddress newSize)) after where
  sound := moves.evolves.sound
  held := by
    intro holding member
    obtain ⟨old, there, rfl⟩ := List.mem_map.mp member
    unfold Holding.moved
    split
    · exact moves.held
    · rename_i different
      exact moves.evolves.held _ _ _ (by simpa using different) (shelves.held old there)
  aligned := by
    intro holding member
    obtain ⟨old, there, rfl⟩ := List.mem_map.mp member
    obtain ⟨power, other, found, align⟩ := shelves.aligned old there
    unfold Holding.moved
    split
    · rename_i same
      rw [same, moves.found] at found
      cases found
      exact ⟨power, _, moves.block, (Block.align_resize moves.word).trans align⟩
    · rename_i different
      exact ⟨power, other, moves.evolves.blocks _ _ (by simpa using different) found, align⟩
  whole := by
    intro a size holds
    by_cases target : a = newAddress
    · obtain ⟨holding, member, there⟩ := shelves.whole _ _ moves.holds
      refine ⟨_, List.mem_map_of_mem member, ?_⟩
      rw [Holding.moved, if_pos there, target]
    · have different : a ≠ address := by
        rintro rfl
        obtain ⟨other, found, -⟩ := holds.present
        rw [moves.turns.heap_eq, Heap.find?_moved, if_neg (Ne.symm target), if_pos rfl] at found
        cases found
      have earlier := holds.of_turns moves.turns (Ledger.isTracked_resized _ _ _ _ _)
        (by rw [Heap.find?_moved, if_neg (Ne.symm target), if_neg (Ne.symm different)])
        (live_resized _ different target)
      obtain ⟨holding, member, rfl⟩ := shelves.whole a size earlier
      refine ⟨_, List.mem_map_of_mem member, ?_⟩
      rw [Holding.moved, if_neg different]
  given := by
    intro a tracked size recorded
    have ledger := moves.turns.ledgers manager
    rw [if_pos rfl] at ledger
    by_cases target : a = newAddress
    · subst target
      have holds := moves.held
      rw [holds.recorded tracked] at recorded
      cases recorded
      exact holds
    · rw [ledger, Ledger.isTracked_resized] at tracked
      have different : a ≠ address := by
        rintro rfl
        rw [ledger, Ledger.resized, if_pos tracked, Ledger.live_withMoved,
          if_neg (Ne.symm target), if_pos rfl] at recorded
        cases recorded
      rw [ledger, live_resized _ different target] at recorded
      exact moves.evolves.held _ _ _ (by simpa using different)
        (shelves.given a tracked size recorded)

theorem written (pointer : Pointer) (values : List UInt8) :
    manager.Shelves shelf { process with heap := process.heap.write pointer values } where
  sound := shelves.sound.write pointer values
  held holding member := Process.holds_write (shelves.held holding member) pointer values
  aligned holding member := by
    obtain ⟨power, block, found, align⟩ := shelves.aligned holding member
    obtain ⟨other, present, -, same, -⟩ := Heap.find?_write_of_some pointer values found
    exact ⟨power, other, present, same.trans align⟩
  whole a size holds := by
    obtain ⟨block, found, sized, owner⟩ := holds.present
    obtain ⟨other, present, size, -, same⟩ := Heap.find?_write_some found
    exact shelves.whole a _
      { present := ⟨other, present, size.symm.trans sized, same.symm.trans owner⟩
        recorded := holds.recorded }
  given a tracked size recorded :=
    Process.holds_write (shelves.given a tracked size recorded) pointer values

end Shelves

def Ordered (manager : Manager) (shelf : List Holding) (before : Process) (request : Request)
    (outcome : Except Failure (Option Nat)) (after : Manager × Process) : Prop :=
  after.1 = manager ∧ Untouched before.heap request after.2.heap ∧
    (manager.Overcounts before request outcome ∨
      manager.Preserves shelf before.heap request outcome after.2.heap ∧
        manager.Shelves (shelved shelf request outcome) after.2)

theorem shelved_error (shelf : List Holding) (request : Request) (failure : Failure) :
    shelved shelf request (.error failure) = shelf := by
  cases request <;> rfl

namespace Shelves

variable (shelves : manager.Shelves shelf process) {request : Request}
include shelves

theorem fails_remarks {failure : Failure} (remarks : process.Remarks after)
    (right : failure ≠ .refused .wrongLayout) :
    manager.Ordered shelf process request (.error failure) (manager, after) := by
  have evolves := remarks.evolves shelves.sound
  have there := shelves.spared evolves.sound remarks.heap_eq ⟨_, remarks.ledgerIn_eq manager⟩
  have blocks (a : Nat) (block : Block) (found : process.heap.find? a = some block) :
      after.heap.find? a = some block := evolves.blocks a block List.not_mem_nil found
  refine ⟨rfl, fun a block _ => blocks a block,
    .inr ⟨?_, (shelved_error shelf request failure).symm ▸ there⟩⟩
  exact
    { present := by
        rw [shelved_error]
        exact fun _ member => there.liesIn member
      resized := fun _ _ _ _ _ succeeded => nomatch succeeded
      failed := fun _ _ => blocks
      layouts := fun wrong => right (Except.error.inj wrong) }

theorem fails_unchanged {failure : Failure} (right : failure ≠ .refused .wrongLayout) :
    manager.Ordered shelf process request (.error failure) (manager, process) :=
  shelves.fails_remarks (.refl process) right

theorem fails_rejects {call : BlockCall} {address : Nat} {claimed : Option Nat}
    {failure : Failure} (rejects : manager.Rejects process call address claimed failure) :
    manager.Ordered shelf process request (.error failure) (manager, process) := by
  apply shelves.fails_unchanged
  rw [rejects.told, complaint]
  split
  · split
    · simp
    · simp
  · simp

theorem fails_refuses {align : Nat} {failure : Failure} (counts : 0 < request.weight)
    (refuses : manager.Refuses process align failure after) :
    manager.Ordered shelf process request (.error failure) (manager, after) := by
  rcases refuses with ⟨⟨-, rfl⟩ | ⟨_, rfl⟩, remarks⟩ | ⟨rfl, exhausted, evolves, -⟩
  · exact shelves.fails_remarks remarks (by simp)
  · exact shelves.fails_remarks remarks (by simp)
  · exact ⟨rfl, fun a block _ => evolves.blocks a block List.not_mem_nil,
      .inl ⟨counts, rfl, exhausted⟩⟩

theorem fails_leaves {address newSize : Nat} {failure : Failure}
    (about : request.block? = some address) (counts : 0 < newSize → 0 < request.weight)
    (leaves : manager.Leaves process address newSize failure after) :
    manager.Ordered shelf process request (.error failure) (manager, after) := by
  rcases leaves with ⟨⟨_, rfl⟩, remarks⟩ | ⟨rfl, positive, exhausted, kept⟩
  · exact shelves.fails_remarks remarks (by simp)
  · refine ⟨rfl, ?_, .inl ⟨counts positive, rfl, exhausted⟩⟩
    intro a block different
    rw [about] at different
    exact kept a block fun same => different (congrArg some same.symm)

omit shelves in
theorem succeeds {answer : Option Nat} (fixed : request.resize? = none)
    (others : Untouched process.heap request after.heap)
    (there : manager.Shelves (shelved shelf request (.ok answer)) after) :
    manager.Ordered shelf process request (.ok answer) (manager, after) := by
  refine ⟨rfl, others, .inr ⟨?_, there⟩⟩
  exact
    { present := fun _ member => there.liesIn member
      resized := by
        intro address oldSize newSize newAddress resizes
        rw [fixed] at resizes
        cases resizes
      failed := fun _ failed => nomatch failed
      layouts := by simp }

theorem succeeds_moved {address newAddress newSize : Nat} {block : Block}
    (moves : manager.Moves process after address block newAddress newSize)
    (about : request.block? = some address)
    (resizes : request.resize? = some (address, block.size, newSize))
    (onward : shelved shelf request (.ok (some newAddress)) =
      shelf.map (Holding.moved address newAddress newSize)) :
    manager.Ordered shelf process request (.ok (some newAddress)) (manager, after) := by
  have there := shelves.moved moves
  rw [← onward] at there
  refine ⟨rfl, ?_, .inr ⟨?_, there⟩⟩
  · intro a other different found
    rw [about] at different
    apply moves.evolves.blocks a other ?_ found
    rintro member
    exact different (congrArg some (List.mem_singleton.mp member).symm)
  exact
    { present := fun _ member => there.liesIn member
      resized := by
        intro a oldSize size new asked succeeded
        rw [resizes] at asked
        cases asked
        cases succeeded
        obtain ⟨holding, member, same⟩ := shelves.whole _ _ moves.holds
        refine ⟨block, _, moves.found, rfl, moves.block, block.size_resize newSize, ?_, holding,
          member, same, ?_⟩
        · exact block.read_resize (by omega)
        · rw [onward, List.mem_map]
          exact ⟨holding, member, by rw [Holding.moved, if_pos same]⟩
      failed := fun _ failed => nomatch failed
      layouts := by simp }

theorem counted (count : Nat) :
    manager.Shelves shelf { process with
      ledgers := process.ledgers.modify manager.id fun _ =>
        { manager.ledgerIn process with holders := count } } := by
  exact shelves.spared (evolves_holders shelves.sound count).sound rfl
    (manager.ledgerIn_holders process count manager)

theorem performed (request : Request) :
    manager.Ordered shelf process request
      ((perform request).runFrom (manager, process)).1
      ((perform request).runFrom (manager, process)).2 := by
  apply Action.ends_outcome.mp
  cases request with
  | allocate payload =>
      rw [ends_perform_allocate]
      apply (allocate_effect payload shelves.sound).mono
      · intro address after handed
        exact succeeds rfl (fun a block _ found =>
          handed.evolves.blocks a block List.not_mem_nil found) (shelves.handedOut handed)
      · intro failure after refuses
        exact shelves.fails_refuses Nat.one_pos refuses
  | allocateArray element count =>
      rw [ends_perform_allocateArray]
      apply (allocateArray_effect element count shelves.sound).mono
      · intro address after handed
        exact succeeds rfl (fun a block _ found =>
          handed.evolves.blocks a block List.not_mem_nil found) (shelves.handedOut handed)
      · intro failure after refuses
        exact shelves.fails_refuses Nat.one_pos refuses
  | reallocate address oldSize newSize =>
      rw [ends_perform_reallocate]
      apply (reallocate_effect address oldSize newSize shelves.sound (shelves.given address)
        shelves.power).mono
      · intro newAddress after moves
        obtain ⟨block, rfl, moves⟩ := moves
        exact shelves.succeeds_moved moves rfl rfl rfl
      · intro failure after failed
        rcases failed with ⟨rfl, rejects⟩ | ⟨-, leaves⟩
        · exact shelves.fails_rejects rejects
        · exact shelves.fails_leaves rfl Request.weight_reallocate_pos leaves
  | reallocateArray address element oldCount newCount =>
      rw [ends_perform_reallocateArray]
      apply (reallocateArray_effect address element oldCount newCount shelves.sound
        (shelves.given address) shelves.power).mono
      · intro newAddress after moves
        obtain ⟨-, block, sized, moves⟩ := moves
        exact shelves.succeeds_moved moves rfl (by rw [sized]; rfl) rfl
      · intro failure after failed
        rcases failed with ⟨rfl, rejects, -⟩ | ⟨-, rfl, rfl⟩ | ⟨-, -, leaves⟩
        · exact shelves.fails_rejects rejects
        · exact shelves.fails_unchanged (by simp)
        · exact shelves.fails_leaves rfl Request.weight_reallocateArray_pos leaves
  | free address =>
      rw [ends_perform_free]
      apply (free_effect address shelves.sound (shelves.given address)).mono
      · intro _ after taken
        obtain ⟨size, taken⟩ := taken
        refine succeeds rfl ?_ (shelves.takenBack taken)
        intro a block different found
        apply taken.evolves.blocks a block ?_ found
        intro member
        exact different (congrArg some (List.mem_singleton.mp member).symm)
      · intro failure after rejected
        obtain ⟨rfl, rejects⟩ := rejected
        exact shelves.fails_rejects rejects
  | share =>
      rw [ends_perform_share]
      exact succeeds rfl (fun _ _ _ found => found) (shelves.counted _)
  | part =>
      rw [ends_perform_part]
      split
      · exact succeeds rfl (fun _ _ _ found => found) (shelves.counted _)
      · exact succeeds rfl (fun _ _ _ found => found) shelves
  | write address offset values =>
      rw [ends_perform_write]
      cases process.heap.find? address with
      | none => exact shelves.fails_unchanged (by simp)
      | some block =>
          dsimp only
          split
          · refine succeeds rfl ?_ (shelves.written _ values)
            intro a other different found
            rw [Heap.find?_write, if_neg, found]
            intro same
            exact different (congrArg some same)
          · exact shelves.fails_unchanged (by simp)

theorem conserves (requests : List Request) :
    manager.Conserves shelf process (Method.run perform requests (manager, process)) := by
  induction requests generalizing shelf process with
  | nil => trivial
  | cons request rest ih =>
      obtain ⟨same, untouched, ordered⟩ := shelves.performed request
      rw [Method.run_cons]
      refine ⟨untouched, ?_⟩
      rcases ordered with overcounts | ⟨preserves, there⟩
      · exact .inl overcounts
      · have state : ((perform request).runFrom (manager, process)).2 =
            (manager, ((perform request).runFrom (manager, process)).2.2) := Prod.ext same rfl
        refine .inr ⟨preserves, ?_⟩
        dsimp only
        rw [state]
        exact ih there

end Shelves

theorem shelves_created {config : Config} (sound : process.Sound)
    (unused : ∀ a block, process.heap.find? a = some block → block.owner ≠ some process.nextManager)
    (created : (create config).runFrom process = (.ok manager, after)) :
    manager.Shelves [] after where
  sound := by
    have there := sound_created sound config
    rw [created] at there
    exact there
  held holding member := nomatch member
  aligned holding member := nomatch member
  whole a size holds := by
    obtain ⟨block, found, -, owner⟩ := holds.present
    cases created
    exact absurd owner (unused a block found)
  given a tracked size recorded := by
    have ledger := ledgerIn_create config process manager
    rw [created] at ledger
    have id : process.nextManager = manager.id := by
      cases created
      rfl
    rw [if_pos id] at ledger
    rw [ledger, Std.TreeMap.getElem?_emptyc] at recorded
    cases recorded

/-- In every run of calls to a new manager, tracked or raw and under any limit, with any arguments and
with any writes into live blocks in between: every block that was handed out and not taken back is
there, with its size, at a multiple of 16 and of the alignment that was asked for when it was handed
out, however often it was resized. Its header says so, and the system is always told the layout that
it was asked for. A block that is resized from an old to a new size starts with the bytes that it
had, as many as both sizes allow. A call that fails leaves every block in place, byte for byte. No
call changes anything of a block other than the one that it is about, not even one that is stopped
because 2⁶⁴ − 1 allocations were counted; but with such a call a run ends. -/
theorem run_conserves_blocks {config : Config} (sound : process.Sound)
    (unused : ∀ a block, process.heap.find? a = some block → block.owner ≠ some process.nextManager)
    (created : (create config).runFrom process = (.ok manager, after)) (requests : List Request) :
    manager.Conserves [] after (Method.run perform requests (manager, after)) :=
  (shelves_created sound unused created).conserves requests

/-- Two blocks, one of them at a multiple of 64. That one shrinks and grows again, with the bytes that
were left, and the other one cannot grow beyond the limit. -/
def sampleRequests : List Request :=
  [.allocate ⟨40, 16⟩, .allocate ⟨24, 64⟩, .write 65552 0 [1, 2, 3], .write 65664 0 [7, 8, 9],
    .reallocate 65664 24 2, .reallocate 65792 2 100, .reallocate 65552 40 200, .free 65552]

theorem run_conserves_blocks_sampleRequests : ∃ (manager : Manager) (start : Process),
    (create (Config.tracked.withByteLimit 200)).runFrom {} = (.ok manager, start) ∧
    (Method.run perform sampleRequests (manager, start)).map Step.outcome =
      [.ok (some 65552), .ok (some 65664), .ok none, .ok none, .ok (some 65792), .ok (some 65920),
        .error (.error (.outOfMemory 200)), .ok none] ∧
    manager.Conserves [] start (Method.run perform sampleRequests (manager, start)) := by
  refine ⟨⟨0⟩, ((create (Config.tracked.withByteLimit 200)).runFrom {}).2, rfl, by decide +kernel, ?_⟩
  apply run_conserves_blocks (sound_unused Allocator.ascending_lawful) ?_ rfl
  intro a block found
  have none : ({} : Process).heap.find? a = none := Heap.find?_empty a
  rw [none] at found
  cases found

end Manager

end SymbolStore
