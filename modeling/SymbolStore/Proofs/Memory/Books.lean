import Mathlib.Algebra.GroupWithZero.Nat
import SymbolStore.Proofs.Memory.Manager
import SymbolStore.Proofs.Run

/-!
Books of one tracked manager that are kept from the calls and their answers alone: which blocks were
handed out and not taken back, with their sizes, what the most live bytes were, and how many
allocations there were. The ledger has what the books say, and turns as they do.
-/

namespace SymbolStore

open SymbolStore.Action (Ends)

namespace Manager

/-- What a holder of the manager may ask for, with any arguments. -/
inductive Request
  | allocate (payload : Layout)
  | allocateArray (element : Layout) (count : Nat)
  | reallocate (address oldSize newSize : Nat)
  | reallocateArray (address : Nat) (element : Layout) (oldCount newCount : Nat)
  | free (address : Nat)
  /-- Another copy of the manager comes. -/
  | share
  /-- A copy of the manager goes, if it is not the last. -/
  | part
  /-- The holder writes into a block. -/
  | write (address offset : Nat) (values : List UInt8)
  deriving DecidableEq, Repr

/-- Carries a request out and answers the address of the block that was handed out, if any. -/
def perform : Request → Method Manager (Option Nat)
  | .allocate payload => do
    let manager ← Method.self
    return some (← manager.allocate payload)
  | .allocateArray element count => do
    let manager ← Method.self
    return some (← manager.allocateArray element count)
  | .reallocate address oldSize newSize => do
    let manager ← Method.self
    return some (← manager.reallocate address oldSize newSize)
  | .reallocateArray address element oldCount newCount => do
    let manager ← Method.self
    return some (← manager.reallocateArray address element oldCount newCount)
  | .free address => do
    let manager ← Method.self
    manager.free address
    return none
  | .share => do
    let manager ← Method.self
    manager.retain
    return none
  | .part => do
    let manager ← Method.self
    if 1 < (← manager.ledger).holders then manager.release
    return none
  | .write address offset values => do
    match (← Method.heap).find? address with
    | some _ =>
      Process.store { block := address, offset } values
      return none
    | none => throw (.refused .deadBlock)

namespace Request

def obtains : Request → Bool
  | .allocate _ | .allocateArray .. | .reallocate .. | .reallocateArray .. => true
  | .free _ | .share | .part | .write .. => false

def empties : Request → Bool
  | .reallocate _ _ newSize => newSize = 0
  | .reallocateArray _ element _ newCount => element.size * newCount = 0
  | _ => false

/-- As how many allocations the request is counted if it succeeds. -/
def weight (request : Request) : Nat := if request.obtains ∧ ¬ request.empties then 1 else 0

theorem weight_reallocate (address oldSize newSize : Nat) :
    (reallocate address oldSize newSize).weight = if 0 < newSize then 1 else 0 := by
  simp [weight, obtains, empties, Nat.pos_iff_ne_zero]

theorem weight_reallocateArray (address : Nat) (element : Layout) (oldCount newCount : Nat) :
    (reallocateArray address element oldCount newCount).weight =
      if 0 < element.size * newCount then 1 else 0 := by
  simp [weight, obtains, empties, Nat.pos_iff_ne_zero]

theorem weight_reallocate_pos {address oldSize newSize : Nat} (positive : 0 < newSize) :
    0 < (reallocate address oldSize newSize).weight := by
  rw [weight_reallocate, if_pos positive]
  exact Nat.one_pos

theorem weight_reallocateArray_pos {address : Nat} {element : Layout} {oldCount newCount : Nat}
    (positive : 0 < element.size * newCount) :
    0 < (reallocateArray address element oldCount newCount).weight := by
  rw [weight_reallocateArray, if_pos positive]
  exact Nat.one_pos

end Request

/-- What the calls and their answers say about the manager. -/
structure Books where
  /-- The live blocks, each with its size. -/
  live : List (Nat × Nat) := []
  /-- The most live bytes that there ever were. -/
  peak : Nat := 0
  /-- How many blocks were handed out, or resized to more than nothing. -/
  counted : Nat := 0
  deriving DecidableEq, Repr

namespace Books

def bytes (books : Books) : Nat := (books.live.map Prod.snd).sum

def size? (books : Books) (address : Nat) : Option Nat := books.live.lookup address

def turn (books : Books) (live : List (Nat × Nat)) (counted : Nat) : Books :=
  { live, peak := max books.peak (live.map Prod.snd).sum, counted := books.counted + counted }

def others (books : Books) (address : Nat) : List (Nat × Nat) :=
  books.live.filter fun entry => entry.1 ≠ address

def handedOut (books : Books) (address size : Nat) : Books :=
  books.turn ((address, size) :: books.live) 1

def moved (books : Books) (address newAddress newSize : Nat) : Books :=
  books.turn ((newAddress, newSize) :: books.others address) (if 0 < newSize then 1 else 0)

def takenBack (books : Books) (address : Nat) : Books := books.turn (books.others address) 0

def after (books : Books) : Request → Except Failure (Option Nat) → Books
  | .allocate payload, .ok (some address) => books.handedOut address payload.size
  | .allocateArray element count, .ok (some address) =>
    books.handedOut address (element.size * count)
  | .reallocate address _ newSize, .ok (some newAddress) => books.moved address newAddress newSize
  | .reallocateArray address element _ newCount, .ok (some newAddress) =>
    books.moved address newAddress (element.size * newCount)
  | .free address, .ok _ => books.takenBack address
  | _, _ => books

def freeFault? (books : Books) (address : Nat) : Option Fault :=
  match books.size? address with
  | some _ => none
  | none => some (.unownedBlock .free address)

def resizeFault? (books : Books) (address oldSize : Nat) : Option Fault :=
  match books.size? address with
  | some recorded =>
    if recorded = oldSize then none else some (.sizeMismatch recorded oldSize)
  | none => some (.unownedBlock .reallocate address)

/-- Why a request has to stop: its address is not that of a live block, or its size is not that of
the block. An array whose bytes cannot be counted is never looked up. -/
def misuse? (books : Books) : Request → Option Fault
  | .free address => books.freeFault? address
  | .reallocate address oldSize _ => books.resizeFault? address oldSize
  | .reallocateArray address element oldCount newCount =>
    if Countable element oldCount newCount then
      books.resizeFault? address (element.size * oldCount)
    else none
  | _ => none

/-- No further allocation can be counted. -/
def Full (books : Books) : Prop := wordLimit ≤ books.counted + 1

end Books

/-- The ledger and the heap have what the books say. -/
structure Describes (manager : Manager) (books : Books) (process : Process) : Prop where
  live : ∀ a size, (manager.ledgerIn process).live[a]? = some size ↔ (a, size) ∈ books.live
  distinct : (books.live.map Prod.fst).Nodup
  present : ∀ a size, (a, size) ∈ books.live →
    ∃ block, process.heap.find? a = some block ∧ block.size = size ∧ block.owner = some manager.id
  liveBlocks : (manager.ledgerIn process).counters.liveBlocks = books.live.length
  liveBytes : (manager.ledgerIn process).counters.liveBytes = books.bytes
  peakBytes : (manager.ledgerIn process).counters.peakBytes = books.peak
  totalAllocations : (manager.ledgerIn process).counters.totalAllocations = books.counted

/-- What holds between the calls. -/
structure Orderly (manager : Manager) (limit : Option Nat) (books : Books) (process : Process) :
    Prop where
  sound : process.Sound
  tracked : (manager.ledgerIn process).isTracked = true
  config : (manager.ledgerIn process).config.byteLimit = limit
  describes : manager.Describes books process
  powers : ∀ a size, (a, size) ∈ books.live → ∀ block, process.heap.find? a = some block →
    isPowerOfTwo block.align = true
  within : ∀ bytes ∈ limit, books.bytes ≤ bytes

end Manager

theorem perm_cons_filter {α β : Type} [DecidableEq β] (key : α → β) {list : List α} {x : α}
    (distinct : (list.map key).Nodup) (member : x ∈ list) :
    list.Perm (x :: list.filter fun y => key y ≠ key x) := by
  induction list with
  | nil => cases member
  | cons y rest ih =>
      obtain ⟨unlike, distinct⟩ := List.nodup_cons.mp distinct
      rcases List.mem_cons.mp member with rfl | behind
      · have others : (rest.filter fun y => key y ≠ key x) = rest := by
          apply List.filter_eq_self.mpr
          intro z there
          rw [decide_eq_true_eq]
          intro same
          exact unlike (same ▸ List.mem_map_of_mem there)
        rw [List.filter_cons_of_neg (by simp), others]
      · have different : key y ≠ key x := by
          intro same
          exact unlike (same ▸ List.mem_map_of_mem behind)
        rw [List.filter_cons_of_pos (by simpa using different)]
        exact ((ih distinct behind).cons y).trans (List.Perm.swap x y _)

theorem lookup_eq_some_iff {list : List (Nat × Nat)} (distinct : (list.map Prod.fst).Nodup)
    (a size : Nat) : list.lookup a = some size ↔ (a, size) ∈ list := by
  induction list with
  | nil => simp
  | cons entry rest ih =>
      obtain ⟨b, s⟩ := entry
      obtain ⟨unlike, distinct⟩ := List.nodup_cons.mp distinct
      by_cases same : a = b
      · subst same
        have absent : ∀ t, (a, t) ∉ rest := by
          intro t there
          exact unlike (List.mem_map.mpr ⟨(a, t), there, rfl⟩)
        simp [absent, eq_comm]
      · have different : (a == b) = false := by simpa using same
        simp [List.lookup_cons, different, same, ih distinct]

namespace Manager

variable {manager : Manager} {limit : Option Nat} {books : Books} {process after : Process}

/-! How each request ends, in terms of what it asks the manager for. -/

section Perform

variable {done : Option Nat → Manager × Process → Prop}
  {failed : Failure → Manager × Process → Prop}

theorem ends_perform_allocate (payload : Layout) :
    Ends (perform (.allocate payload)) (manager, process) done failed ↔
      Ends (manager.allocate payload) process
        (fun address after => done (some address) (manager, after))
        fun failure after => failed failure (manager, after) := by
  simp only [perform, Action.ends_bind, Method.ends_self, Method.ends_liftProcess,
    Action.ends_pure]

theorem ends_perform_allocateArray (element : Layout) (count : Nat) :
    Ends (perform (.allocateArray element count)) (manager, process) done failed ↔
      Ends (manager.allocateArray element count) process
        (fun address after => done (some address) (manager, after))
        fun failure after => failed failure (manager, after) := by
  simp only [perform, Action.ends_bind, Method.ends_self, Method.ends_liftProcess,
    Action.ends_pure]

theorem ends_perform_reallocate (address oldSize newSize : Nat) :
    Ends (perform (.reallocate address oldSize newSize)) (manager, process) done failed ↔
      Ends (manager.reallocate address oldSize newSize) process
        (fun newAddress after => done (some newAddress) (manager, after))
        fun failure after => failed failure (manager, after) := by
  simp only [perform, Action.ends_bind, Method.ends_self, Method.ends_liftProcess,
    Action.ends_pure]

theorem ends_perform_reallocateArray (address : Nat) (element : Layout)
    (oldCount newCount : Nat) :
    Ends (perform (.reallocateArray address element oldCount newCount)) (manager, process)
        done failed ↔
      Ends (manager.reallocateArray address element oldCount newCount) process
        (fun newAddress after => done (some newAddress) (manager, after))
        fun failure after => failed failure (manager, after) := by
  simp only [perform, Action.ends_bind, Method.ends_self, Method.ends_liftProcess,
    Action.ends_pure]

theorem ends_perform_free (address : Nat) :
    Ends (perform (.free address)) (manager, process) done failed ↔
      Ends (manager.free address) process (fun _ after => done none (manager, after))
        fun failure after => failed failure (manager, after) := by
  simp only [perform, Action.ends_bind, Method.ends_self, Method.ends_liftProcess,
    Action.ends_pure]

theorem ends_perform_share :
    Ends (perform .share) (manager, process) done failed ↔
      done none (manager, { process with
        ledgers := process.ledgers.modify manager.id fun _ =>
          { manager.ledgerIn process with
            holders := (manager.ledgerIn process).holders + 1 } }) := by
  simp only [perform, retain, Action.ends_bind, Method.ends_self, Method.ends_liftProcess,
    ends_ledger, ends_setLedger, Action.ends_pure]

theorem ends_perform_part :
    Ends (perform .part) (manager, process) done failed ↔
      if 1 < (manager.ledgerIn process).holders then
        done none (manager, { process with
          ledgers := process.ledgers.modify manager.id fun _ =>
            { manager.ledgerIn process with
              holders := (manager.ledgerIn process).holders - 1 } })
      else done none (manager, process) := by
  simp only [perform, Action.ends_bind, Method.ends_self, Method.ends_liftProcess, ends_ledger]
  by_cases several : 1 < (manager.ledgerIn process).holders
  · simp only [release, Action.ends_bind, Method.ends_liftProcess, ends_ledger, if_pos several,
      ends_setLedger, Action.ends_pure]
  · simp only [if_neg several, Action.ends_pure]

theorem ends_perform_write (address offset : Nat) (values : List UInt8) :
    Ends (perform (.write address offset values)) (manager, process) done failed ↔
      match process.heap.find? address with
      | none => failed (.refused .deadBlock) (manager, process)
      | some _ =>
        if process.heap.covers { block := address, offset } values.length then
          done none (manager, { process with
            heap := process.heap.write { block := address, offset } values })
        else failed (.refused .outsideBlock) (manager, process) := by
  simp only [perform, Action.ends_bind, Method.ends_heap]
  cases process.heap.find? address with
  | none => exact Iff.rfl
  | some block =>
      simp only [Action.ends_bind, Method.ends_liftProcess, Process.ends_store, Action.ends_pure]

end Perform

namespace Describes

variable (describes : manager.Describes books process)
include describes

theorem size?_eq (address : Nat) :
    books.size? address = (manager.ledgerIn process).live[address]? := by
  apply Option.ext
  intro size
  rw [describes.live, Books.size?]
  exact lookup_eq_some_iff describes.distinct address size

theorem perm_others {address size : Nat} (live : (address, size) ∈ books.live) :
    books.live.Perm ((address, size) :: books.others address) :=
  perm_cons_filter Prod.fst describes.distinct live

theorem bytes_others {address size : Nat} (live : (address, size) ∈ books.live) :
    books.bytes = size + ((books.others address).map Prod.snd).sum := by
  have sums := ((describes.perm_others live).map Prod.snd).sum_eq
  rw [List.map_cons, List.sum_cons] at sums
  exact sums

theorem length_others {address size : Nat} (live : (address, size) ∈ books.live) :
    books.live.length = (books.others address).length + 1 :=
  (describes.perm_others live).length_eq

theorem distinct_others (address : Nat) : ((books.others address).map Prod.fst).Nodup :=
  (List.filter_sublist.map Prod.fst).nodup describes.distinct

theorem not_mem_of_fresh {address : Nat} (fresh : process.heap.find? address = none) :
    address ∉ books.live.map Prod.fst := by
  intro member
  obtain ⟨⟨a, size⟩, live, rfl⟩ := List.mem_map.mp member
  obtain ⟨block, found, -⟩ := describes.present a size live
  rw [fresh] at found
  cases found

end Describes

theorem mem_others {address a size : Nat} :
    (a, size) ∈ books.others address ↔ (a, size) ∈ books.live ∧ a ≠ address := by
  rw [Books.others, List.mem_filter, decide_eq_true_eq]

namespace Orderly

variable (orderly : manager.Orderly limit books process)
include orderly

theorem holds_iff {address size : Nat} :
    manager.Holds process address size ↔ (address, size) ∈ books.live := by
  rw [← orderly.describes.live]
  constructor
  · intro holds
    exact holds.recorded orderly.tracked
  · intro recorded
    exact ⟨orderly.describes.present address size (orderly.describes.live address size |>.mp recorded),
      fun _ => recorded⟩

/-- Everything that is recorded was handed out. -/
theorem given (address : Nat) : manager.Given process address := by
  intro _ size recorded
  exact orderly.holds_iff.mpr ((orderly.describes.live address size).mp recorded)

theorem power {address : Nat} : ∀ block, process.heap.find? address = some block →
    manager.Holds process address block.size → isPowerOfTwo block.align = true := by
  intro block found holds
  exact orderly.powers address block.size (orderly.holds_iff.mp holds) block found

theorem exhausted_iff : (manager.ledgerIn process).Exhausted ↔ books.Full := by
  rw [Ledger.Exhausted, orderly.describes.totalAllocations]
  exact and_iff_right orderly.tracked

theorem spared (sound : after.Sound)
    (ledger : ∃ holders, manager.ledgerIn after = { manager.ledgerIn process with holders })
    (blocks : ∀ entry ∈ books.live, after.heap.find? entry.1 = process.heap.find? entry.1) :
    manager.Orderly limit books after where
  sound := sound
  tracked := by
    obtain ⟨holders, equal⟩ := ledger
    rw [equal]
    exact orderly.tracked
  config := by
    obtain ⟨holders, equal⟩ := ledger
    rw [equal]
    exact orderly.config
  describes := by
    obtain ⟨holders, equal⟩ := ledger
    have described := orderly.describes
    refine ⟨?_, described.distinct, ?_, ?_, ?_, ?_, ?_⟩
    · rw [equal]
      exact described.live
    · intro a size live
      rw [blocks _ live]
      exact described.present a size live
    · rw [equal]
      exact described.liveBlocks
    · rw [equal]
      exact described.liveBytes
    · rw [equal]
      exact described.peakBytes
    · rw [equal]
      exact described.totalAllocations
  powers := by
    intro a size live block found
    rw [blocks _ live] at found
    exact orderly.powers a size live block found
  within := orderly.within

/-- The blocks in the books are those of the manager, aligned as they were asked for. -/
theorem block_of_live {address size : Nat} (live : (address, size) ∈ books.live) :
    ∃ block, process.heap.find? address = some block ∧ block.size = size ∧
      block.owner = some manager.id ∧ isPowerOfTwo block.align = true := by
  obtain ⟨block, found, same, owner⟩ := orderly.describes.present address size live
  exact ⟨block, found, same, owner, orderly.powers address size live block found⟩

theorem turned {live : List (Nat × Nat)} {counted : Nat} (sound : after.Sound)
    (config : (manager.ledgerIn after).config = (manager.ledgerIn process).config)
    (recorded : ∀ a size, (manager.ledgerIn after).live[a]? = some size ↔ (a, size) ∈ live)
    (distinct : (live.map Prod.fst).Nodup)
    (present : ∀ a size, (a, size) ∈ live →
      ∃ block, after.heap.find? a = some block ∧ block.size = size ∧
        block.owner = some manager.id ∧ isPowerOfTwo block.align = true)
    (liveBlocks : (manager.ledgerIn after).counters.liveBlocks = live.length)
    (liveBytes : (manager.ledgerIn after).counters.liveBytes = (live.map Prod.snd).sum)
    (peakBytes : (manager.ledgerIn after).counters.peakBytes =
      max (manager.ledgerIn process).counters.peakBytes
        (manager.ledgerIn after).counters.liveBytes)
    (totalAllocations : (manager.ledgerIn after).counters.totalAllocations =
      (manager.ledgerIn process).counters.totalAllocations + counted)
    (within : ∀ most ∈ limit, (manager.ledgerIn after).counters.liveBytes ≤ most) :
    manager.Orderly limit (books.turn live counted) after where
  sound := sound
  tracked := by
    rw [Ledger.isTracked, config]
    exact orderly.tracked
  config := by
    rw [config]
    exact orderly.config
  describes :=
    { live := recorded
      distinct := distinct
      present := by
        intro a size there
        obtain ⟨block, found, same, owner, -⟩ := present a size there
        exact ⟨block, found, same, owner⟩
      liveBlocks := liveBlocks
      liveBytes := liveBytes
      peakBytes := by
        rw [peakBytes, liveBytes, orderly.describes.peakBytes]
        rfl
      totalAllocations := by
        rw [totalAllocations, orderly.describes.totalAllocations]
        rfl }
  powers := by
    intro a size there block found
    obtain ⟨other, same, -, -, power⟩ := present a size there
    rw [found] at same
    cases same
    exact power
  within := by
    intro most limited
    show (live.map Prod.snd).sum ≤ most
    rw [← liveBytes]
    exact within most limited

theorem handedOut {payload : Layout} {address : Nat}
    (handed : manager.HandsOut process after payload address) :
    manager.Orderly limit (books.handedOut address payload.size) after := by
  have described := orderly.describes
  have absent := described.not_mem_of_fresh handed.fresh
  have ledger := handed.turns.ledgers manager
  rw [if_pos rfl, Ledger.acquired, if_pos orderly.tracked] at ledger
  have found : ∀ a, after.heap.find? a =
      if address = a then some (Block.issued payload manager.id) else process.heap.find? a := by
    intro a
    rw [handed.turns.heap_eq, Heap.find?_handed]
  have apart : ∀ a size, (a, size) ∈ books.live → address ≠ a := by
    intro a size live same
    exact absent (same ▸ List.mem_map_of_mem live)
  have bytes : (manager.ledgerIn after).counters.liveBytes =
      (((address, payload.size) :: books.live).map Prod.snd).sum := by
    rw [List.map_cons, List.sum_cons, Nat.add_comm, ledger]
    exact congrArg (· + payload.size) described.liveBytes
  refine orderly.turned handed.evolves.sound ?config ?recorded
    (List.nodup_cons.mpr ⟨absent, described.distinct⟩) ?present ?liveBlocks bytes ?peakBytes
    ?totalAllocations ?within
  case recorded =>
    intro a size
    rw [ledger, Ledger.live_withBlock]
    by_cases same : address = a
    · subst same
      have none : ∀ s, (address, s) ∉ books.live :=
        fun s live => absent (List.mem_map_of_mem live)
      simp [none, eq_comm]
    · rw [if_neg same, described.live]
      simp [Ne.symm same]
  case present =>
    intro a size live
    rw [found]
    rcases List.mem_cons.mp live with new | live
    · cases new
      refine ⟨_, if_pos rfl, Block.size_issued _ _, rfl, ?_⟩
      rw [Block.align_issued handed.words]
      exact handed.power
    · rw [if_neg (apart a size live)]
      exact orderly.block_of_live live
  case liveBlocks =>
    rw [ledger]
    exact congrArg (· + 1) described.liveBlocks
  case within =>
    intro most limited
    rw [ledger]
    exact handed.within orderly.tracked most (orderly.config ▸ limited)
  all_goals rw [ledger]; rfl

theorem takenBack {address size : Nat}
    (taken : manager.TakesBack process after address size) :
    manager.Orderly limit (books.takenBack address) after := by
  have described := orderly.describes
  have live := orderly.holds_iff.mp taken.holds
  have ledger := taken.turns.ledgers manager
  rw [if_pos rfl, Ledger.released, if_pos orderly.tracked] at ledger
  have found : ∀ a, a ≠ address → after.heap.find? a = process.heap.find? a := by
    intro a different
    rw [taken.turns.heap_eq, Heap.find?_erase_of_ne different]
  have fewer : (manager.ledgerIn after).counters.liveBytes = books.bytes - size := by
    rw [ledger, ← described.liveBytes]
    rfl
  refine orderly.turned taken.evolves.sound ?config ?recorded (described.distinct_others address)
    ?present ?liveBlocks ?liveBytes ?peakBytes ?totalAllocations ?within
  case recorded =>
    intro a s
    rw [ledger, Ledger.live_withoutBlock, mem_others]
    by_cases same : address = a
    · subst same
      simp
    · rw [if_neg same, described.live]
      simp [Ne.symm same]
  case present =>
    intro a s there
    obtain ⟨there, different⟩ := mem_others.mp there
    rw [found a different]
    exact orderly.block_of_live there
  case liveBlocks =>
    rw [ledger]
    show _ - 1 = (books.others address).length
    rw [described.liveBlocks, described.length_others live, Nat.add_sub_cancel]
  case liveBytes => rw [fewer, described.bytes_others live, Nat.add_sub_cancel_left]
  case within =>
    intro most limited
    rw [fewer]
    exact Nat.le_trans (Nat.sub_le _ _) (orderly.within most limited)
  all_goals rw [ledger]; rfl

theorem moved {address newAddress newSize : Nat} {block : Block}
    (moves : manager.Moves process after address block newAddress newSize) :
    manager.Orderly limit (books.moved address newAddress newSize) after := by
  have described := orderly.describes
  have live := orderly.holds_iff.mp moves.holds
  have ledger := moves.turns.ledgers manager
  rw [if_pos rfl, Ledger.resized, if_pos orderly.tracked] at ledger
  have found : ∀ a, after.heap.find? a =
      if newAddress = a then some (block.resize newSize)
      else if address = a then none else process.heap.find? a := by
    intro a
    rw [moves.turns.heap_eq, Heap.find?_moved]
  have apart : ∀ a size, (a, size) ∈ books.others address → newAddress ≠ a := by
    intro a size there
    obtain ⟨there, different⟩ := mem_others.mp there
    obtain ⟨other, present, -⟩ := described.present a size there
    exact Heap.ne_of_moved moves.fresh different present
  refine orderly.turned moves.evolves.sound ?config ?recorded ?distinct ?present ?liveBlocks
    ?liveBytes ?peakBytes ?totalAllocations ?within
  case recorded =>
    intro a s
    rw [ledger, Ledger.live_withMoved, List.mem_cons]
    by_cases same : newAddress = a
    · subst same
      have none : (newAddress, s) ∉ books.others address := fun there => apart _ _ there rfl
      simp [none, eq_comm]
    · rw [if_neg same, mem_others]
      by_cases gone : address = a
      · subst gone
        simp [Ne.symm same]
      · rw [if_neg gone, described.live]
        simp [Ne.symm same, Ne.symm gone]
  case distinct =>
    refine List.nodup_cons.mpr ⟨?_, described.distinct_others address⟩
    intro member
    obtain ⟨⟨a, s⟩, there, rfl⟩ := List.mem_map.mp member
    exact apart a s there rfl
  case present =>
    intro a s there
    rcases List.mem_cons.mp there with new | there
    · cases new
      refine ⟨block.resize newSize, by rw [found, if_pos rfl], block.size_resize newSize, ?_, ?_⟩
      · rw [Block.owner_resize, moves.owner]
      · rw [Block.align_resize moves.word]
        exact orderly.powers _ _ live block moves.found
    · obtain ⟨known, different⟩ := mem_others.mp there
      rw [found, if_neg (apart a s there), if_neg (Ne.symm different)]
      exact orderly.block_of_live known
  case liveBlocks =>
    rw [ledger]
    exact described.liveBlocks.trans (described.length_others live)
  case liveBytes =>
    rw [ledger]
    show _ - block.size + newSize = newSize + ((books.others address).map Prod.snd).sum
    rw [described.liveBytes, described.bytes_others live, Nat.add_sub_cancel_left, Nat.add_comm]
  case totalAllocations =>
    rw [ledger]
    show (if 0 < newSize then _ + 1 else _) = _ + if 0 < newSize then 1 else 0
    split <;> rfl
  case within =>
    intro most limited
    rw [ledger]
    exact moves.within orderly.tracked most (orderly.config ▸ limited)
  all_goals rw [ledger]; rfl

end Orderly

end Manager

end SymbolStore
