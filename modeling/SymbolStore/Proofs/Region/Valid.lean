import Mathlib.Algebra.Order.BigOperators.Group.List
import SymbolStore.Proofs.Memory.Manager
import SymbolStore.Region.Basic

/-!
What holds of the chunks of a region at all times, where in a chunk a range is put, and what handing
out a range does to the chunks.
-/

namespace SymbolStore

namespace Chunk

variable {chunk : Chunk} {range : Layout}

@[simp] theorem total_nil (measure : Chunk → Nat) : total measure [] = 0 := rfl

@[simp] theorem total_cons (measure : Chunk → Nat) (chunk : Chunk) (chunks : List Chunk) :
    total measure (chunk :: chunks) = measure chunk + total measure chunks := rfl

@[simp] theorem total_append (measure : Chunk → Nat) (front back : List Chunk) :
    total measure (front ++ back) = total measure front + total measure back := by
  induction front with
  | nil => simp
  | cons chunk rest ih => simp [ih, Nat.add_assoc]

def start (chunk : Chunk) (align : Nat) : Nat :=
  alignUp (chunk.block + chunk.used) align - chunk.block

/-- The range may be put there: behind the bytes in use, aligned, and inside the chunk. -/
structure Serves (chunk : Chunk) (range : Layout) (offset : Nat) : Prop where
  behind : chunk.used ≤ offset
  aligned : (chunk.block + offset) % range.align = 0
  inside : offset + range.size ≤ chunk.capacity

theorem block_add_start {align : Nat} (positive : 0 < align) :
    chunk.block + chunk.start align = alignUp (chunk.block + chunk.used) align := by
  have above := le_alignUp (chunk.block + chunk.used) positive
  unfold start
  omega

/-- The range fits at the first aligned address, and so does the calculation of it. -/
def HasRoom (chunk : Chunk) (range : Layout) : Prop :=
  chunk.block + chunk.used + (range.align - 1) < wordLimit ∧
    chunk.start range.align + range.size ≤ chunk.capacity

instance (chunk : Chunk) (range : Layout) : Decidable (chunk.HasRoom range) :=
  inferInstanceAs (Decidable (_ ∧ _))

/-- No calculation in the search for room overflows. -/
theorem room?_eq (positive : 0 < range.align) (used : chunk.used ≤ chunk.capacity)
    (fits : chunk.block + chunk.capacity < wordLimit) :
    chunk.room? range =
      .ok (if chunk.HasRoom range then some (chunk.start range.align) else none) := by
  have current : chunk.block + chunk.used < wordLimit := by omega
  have above := le_alignUp (chunk.block + chunk.used) positive
  have block : chunk.block ≤ alignUp (chunk.block + chunk.used) range.align := by omega
  have aligned : alignDown (chunk.block + chunk.used + (range.align - 1)) range.align =
    alignUp (chunk.block + chunk.used) range.align := rfl
  have found : alignUp (chunk.block + chunk.used) range.align - chunk.block =
    chunk.start range.align := rfl
  simp only [room?, Word.add, if_pos current, bind, Except.bind, Word.add?]
  by_cases padded : chunk.block + chunk.used + (range.align - 1) < wordLimit
  · simp only [if_pos padded, Word.subtract, aligned, if_pos block, found]
    by_cases inside : chunk.start range.align + range.size ≤ chunk.capacity
    · have room : chunk.HasRoom range := ⟨padded, inside⟩
      have word : chunk.start range.align + range.size < wordLimit := by omega
      simp only [if_pos word, if_neg (Nat.not_lt.mpr inside), if_pos room]
      rfl
    · have full : ¬ chunk.HasRoom range := fun room => inside room.2
      by_cases word : chunk.start range.align + range.size < wordLimit
      · simp only [if_pos word, if_pos (Nat.lt_of_not_le inside), if_neg full]
        rfl
      · simp only [if_neg word, if_neg full]
        rfl
  · have full : ¬ chunk.HasRoom range := fun room => padded room.1
    simp only [if_neg padded, if_neg full]
    rfl

theorem serves_start (positive : 0 < range.align)
    (inside : chunk.start range.align + range.size ≤ chunk.capacity) :
    chunk.Serves range (chunk.start range.align) where
  behind := by
    have above := le_alignUp (chunk.block + chunk.used) positive
    unfold start
    omega
  aligned := by
    rw [block_add_start positive]
    exact alignUp_mod _ _
  inside := inside

theorem room?_serves (positive : 0 < range.align) (used : chunk.used ≤ chunk.capacity)
    (fits : chunk.block + chunk.capacity < wordLimit) :
    ∃ found, chunk.room? range = .ok found ∧ ∀ offset ∈ found, chunk.Serves range offset := by
  refine ⟨_, room?_eq positive used fits, ?_⟩
  intro offset member
  split at member
  · rename_i room
    cases member
    exact serves_start positive room.2
  · cases member

end Chunk

namespace Region

/-- What a search for room comes to: the index of a chunk from `i` on, and a place in it if there is
one. -/
structure Sought (range : Layout) (chunks : List Chunk) (i j : Nat) (found : Option Nat) :
    Prop where
  ahead : i ≤ j
  inside : j < i + chunks.length ∨ chunks = [] ∧ j = i
  last : found = none → j = i + (chunks.length - 1)
  serves : ∀ offset ∈ found, ∃ chunk, chunks[j - i]? = some chunk ∧ chunk.Serves range offset

theorem seek_sought {range : Layout} (positive : 0 < range.align) (chunks : List Chunk) (i : Nat)
    (used : ∀ chunk ∈ chunks, chunk.used ≤ chunk.capacity)
    (fits : ∀ chunk ∈ chunks, chunk.block + chunk.capacity < wordLimit) :
    ∃ j found, seek range chunks i = .ok (j, found) ∧ Sought range chunks i j found := by
  induction chunks generalizing i with
  | nil =>
      exact ⟨i, none, rfl, Nat.le_refl i, .inr ⟨rfl, rfl⟩, fun _ => rfl, fun _ member => by cases member⟩
  | cons chunk rest ih =>
      rcases Chunk.room?_serves positive (used chunk List.mem_cons_self)
          (fits chunk List.mem_cons_self) with ⟨room, searched, serves⟩
      simp only [seek, searched, bind, Except.bind]
      cases room with
      | some offset =>
          refine ⟨i, some offset, rfl, Nat.le_refl i, .inl (by simp), nofun, ?_⟩
          intro _ equal
          cases equal
          exact ⟨chunk, by simp, serves offset rfl⟩
      | none =>
          cases rest with
          | nil =>
              exact ⟨i, none, rfl, Nat.le_refl i, .inl (by simp), fun _ => rfl,
                fun _ member => by cases member⟩
          | cons next later =>
              rcases ih (i + 1) (fun c member => used c (List.mem_cons_of_mem _ member))
                  (fun c member => fits c (List.mem_cons_of_mem _ member)) with
                ⟨j, found, sought, ahead, inside, last, there⟩
              refine ⟨j, found, sought, by omega, .inl ?_, fun none => ?_, ?_⟩
              · rcases inside with small | ⟨none, -⟩
                · simp only [List.length_cons] at small ⊢
                  omega
                · cases none
              · have reached := last none
                simp only [List.length_cons] at reached ⊢
                omega
              · intro offset member
                rcases there offset member with ⟨c, present, serves⟩
                have position : j - i = j - (i + 1) + 1 := by omega
                exact ⟨c, by rw [position, List.getElem?_cons_succ, present], serves⟩

/-- What holds of a region at all times. -/
structure Valid (region : Region) : Prop where
  used : ∀ chunk ∈ region.chunks, chunk.used ≤ chunk.capacity
  ahead : ∀ i chunk, region.current < i → region.chunks[i]? = some chunk → chunk.used = 0
  current : region.current < region.chunks.length ∨ region.chunks = [] ∧ region.current = 0
  total : region.totalAllocated ≤ Chunk.total Chunk.used region.chunks

variable {region after : Region} {range : Layout} {place : Range} {chunks : List Chunk}
  {chunk : Chunk}

def Extended (region : Region) (chunks : List Chunk) : Prop :=
  chunks = region.chunks ∨ ∃ fresh, fresh.used = 0 ∧ chunks = region.chunks ++ [fresh]

def taken (region : Region) (chunks : List Chunk) (range : Layout) (place : Range) : Region :=
  { region with
    chunks := chunks.modify place.chunk fun chunk => { chunk with used := place.offset + range.size }
    current := place.chunk
    totalAllocated := region.totalAllocated + range.size }

def Takes (region after : Region) (range : Layout) (place : Range) : Prop :=
  ∃ chunks chunk, region.Extended chunks ∧ chunks[place.chunk]? = some chunk ∧
    chunk.Serves range place.offset ∧ region.current ≤ place.chunk ∧
    after = region.taken chunks range place

theorem modify_split {α : Type} {l : List α} {i : Nat} {a : α} (present : l[i]? = some a) :
    ∃ front back, l = front ++ [a] ++ back ∧ front.length = i ∧
      ∀ f, l.modify i f = front ++ [f a] ++ back := by
  obtain ⟨inside, rfl⟩ := List.getElem?_eq_some_iff.mp present
  refine ⟨l.take i, l.drop (i + 1), ?_, ?_, ?_⟩
  · simp
  · simp only [List.length_take]
    omega
  · intro f
    rw [List.modify_eq_take_cons_drop inside]
    simp

theorem Extended.ahead (extended : region.Extended chunks) (valid : region.Valid) {i : Nat}
    (behind : region.current < i) (present : chunks[i]? = some chunk) : chunk.used = 0 := by
  rcases extended with rfl | ⟨fresh, unused, rfl⟩
  · exact valid.ahead i chunk behind present
  · rw [List.getElem?_append] at present
    split at present
    · exact valid.ahead i chunk behind present
    · obtain ⟨same⟩ := List.mem_singleton.mp (List.mem_of_getElem? present)
      exact unused

theorem Extended.used_le (extended : region.Extended chunks) (valid : region.Valid) :
    ∀ chunk ∈ chunks, chunk.used ≤ chunk.capacity := by
  rcases extended with rfl | ⟨fresh, unused, rfl⟩
  · exact valid.used
  · intro chunk member
    rcases List.mem_append.mp member with old | new
    · exact valid.used chunk old
    · rw [List.mem_singleton.mp new, unused]
      exact Nat.zero_le _

theorem Extended.total_le (extended : region.Extended chunks) (valid : region.Valid) :
    region.totalAllocated ≤ Chunk.total Chunk.used chunks := by
  rcases extended with rfl | ⟨fresh, unused, rfl⟩
  · exact valid.total
  · rw [Chunk.total_append]
    exact Nat.le_trans valid.total (Nat.le_add_right _ _)

theorem Extended.valid_taken (extended : region.Extended chunks) (valid : region.Valid)
    (present : chunks[place.chunk]? = some chunk) (serves : chunk.Serves range place.offset)
    (ahead : region.current ≤ place.chunk) : (region.taken chunks range place).Valid := by
  rcases modify_split present with ⟨front, back, whole, position, modified⟩
  have after : (region.taken chunks range place).chunks =
      front ++ [{ chunk with used := place.offset + range.size }] ++ back := modified _
  have used := extended.used_le valid
  have total := extended.total_le valid
  rw [whole] at used total
  constructor
  · intro other member
    rw [after] at member
    simp only [List.mem_append, List.mem_singleton] at member
    rcases member with (first | rfl) | last
    · exact used other (by simp [first])
    · exact serves.inside
    · exact used other (by simp [last])
  · intro i other behind there
    have behind : place.chunk < i := behind
    apply extended.ahead valid (Nat.lt_of_le_of_lt ahead behind) (i := i)
    rw [← there]
    simp only [taken, List.getElem?_modify, if_neg (Nat.ne_of_lt behind)]
    cases chunks[i]? <;> rfl
  · apply Or.inl
    rw [after]
    show place.chunk < _
    simp only [List.length_append, List.length_singleton]
    omega
  · have behind := serves.behind
    rw [after]
    show region.totalAllocated + range.size ≤ _
    simp only [Chunk.total_append, Chunk.total_cons, Chunk.total_nil] at total ⊢
    omega

def Covers (region : Region) (pointer : Pointer) (length : Nat) : Prop :=
  ∃ chunk ∈ region.chunks, chunk.block = pointer.block ∧ pointer.offset + length ≤ chunk.used

theorem Takes.pointer_eq (takes : region.Takes after range place) :
    ∃ chunk, after.chunks[place.chunk]? = some chunk ∧
      chunk.block = (after.pointer place).block ∧
      chunk.used = place.offset + range.size ∧ chunk.used ≤ chunk.capacity ∧
      (chunk.block + place.offset) % range.align = 0 := by
  rcases takes with ⟨chunks, chunk, -, present, serves, -, rfl⟩
  have there : (region.taken chunks range place).chunks[place.chunk]? =
      some { chunk with used := place.offset + range.size } := by
    simp [taken, present]
  refine ⟨_, there, ?_, rfl, serves.inside, serves.aligned⟩
  rw [pointer, there]
  rfl

theorem Takes.current_eq (takes : region.Takes after range place) : after.current = place.chunk := by
  rcases takes with ⟨_, _, -, -, -, -, rfl⟩
  rfl

theorem Takes.generation_eq (takes : region.Takes after range place) :
    after.generation = region.generation := by
  rcases takes with ⟨_, _, -, -, -, -, rfl⟩
  rfl

theorem Takes.id_eq (takes : region.Takes after range place) : after.id = region.id := by
  rcases takes with ⟨_, _, -, -, -, -, rfl⟩
  rfl

theorem Takes.manager_eq (takes : region.Takes after range place) :
    after.manager = region.manager := by
  rcases takes with ⟨_, _, -, -, -, -, rfl⟩
  rfl

theorem Takes.covers (takes : region.Takes after range place) :
    after.Covers (after.pointer place) range.size := by
  rcases takes.pointer_eq with ⟨chunk, there, block, used, -⟩
  exact ⟨chunk, List.mem_of_getElem? there, block, Nat.le_of_eq used.symm⟩

theorem Takes.keeps (takes : region.Takes after range place) {pointer : Pointer} {length : Nat}
    (covered : region.Covers pointer length) : after.Covers pointer length := by
  rcases takes with ⟨chunks, chunk, extended, present, serves, -, rfl⟩
  rcases modify_split present with ⟨front, back, whole, -, modified⟩
  have after : (region.taken chunks range place).chunks =
      front ++ [{ chunk with used := place.offset + range.size }] ++ back := modified _
  rcases covered with ⟨old, member, block, inside⟩
  have there : old ∈ chunks := by
    rcases extended with rfl | ⟨fresh, -, rfl⟩
    · exact member
    · exact List.mem_append_left _ member
  rw [Covers, after]
  rw [whole] at there
  simp only [List.mem_append, List.mem_singleton] at there
  rcases there with (first | rfl) | last
  · exact ⟨old, by simp [first], block, inside⟩
  · have behind := serves.behind
    refine ⟨{ old with used := place.offset + range.size }, by simp, block, ?_⟩
    show _ ≤ place.offset + range.size
    omega
  · exact ⟨old, by simp [last], block, inside⟩

theorem extents_taken (present : chunks[place.chunk]? = some chunk) :
    (region.taken chunks range place).chunks.map (fun chunk => (chunk.block, chunk.capacity)) =
      chunks.map fun chunk => (chunk.block, chunk.capacity) := by
  rcases modify_split present with ⟨front, back, whole, -, modified⟩
  have after : (region.taken chunks range place).chunks =
      front ++ [{ chunk with used := place.offset + range.size }] ++ back := modified _
  rw [after, whole]
  simp

theorem blocks_taken (present : chunks[place.chunk]? = some chunk) :
    (region.taken chunks range place).chunks.map Chunk.block = chunks.map Chunk.block := by
  have extents : (region.taken chunks range place).chunks.map _ = _ := extents_taken present
  have same := congrArg (List.map Prod.fst) extents
  rwa [List.map_map, List.map_map] at same

/-- What was in use lies in another block, or in front. -/
theorem Takes.apart (takes : region.Takes after range place)
    (distinct : (after.chunks.map Chunk.block).Nodup) {pointer : Pointer} {length : Nat}
    (covered : region.Covers pointer length) :
    pointer.block ≠ (after.pointer place).block ∨
      pointer.offset + length ≤ (after.pointer place).offset := by
  rcases takes with ⟨chunks, chunk, extended, present, serves, -, rfl⟩
  rw [blocks_taken present] at distinct
  rcases covered with ⟨old, member, block, inside⟩
  have there : old ∈ chunks := by
    rcases extended with rfl | ⟨fresh, -, rfl⟩
    · exact member
    · exact List.mem_append_left _ member
  have own : ((region.taken chunks range place).pointer place).block = chunk.block := by
    simp [Region.pointer, taken, present]
  rw [own]
  by_cases same : pointer.block = chunk.block
  · have equal := List.inj_on_of_nodup_map distinct there (List.mem_of_getElem? present)
      (block.trans same)
    have behind := serves.behind
    rw [equal] at inside
    exact .inr (Nat.le_trans inside behind)
  · exact .inl same

end Region

end SymbolStore
