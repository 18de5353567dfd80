import SymbolStore.Proofs.Region.Stocked
import SymbolStore.Proofs.Twin.Renaming

/-!
Regions of two processes that stand for each other, with chunks at different addresses. Where a chunk
starts in its page is the same everywhere, so that a range of moderate alignment goes to the same
offset.
-/

namespace SymbolStore

open SymbolStore.Action (Ends Lockstep)
open SymbolStore.Process (Twins)

variable {allocator : Allocator} {grants : Nat → Bool} {manager : Manager} {names later : Renaming}
  {rest extents : Multiset Extent} {bound room : Nat} {p q : Process} {range : Layout}

namespace Chunk

def rename (names : Renaming) (chunk : Chunk) : Chunk :=
  { chunk with block := names.block chunk.block }

/-- The chunk and the one that stands for it start at the same place of a page. -/
structure Level (names : Renaming) (chunk : Chunk) : Prop where
  filled : chunk.used ≤ chunk.capacity
  here : chunk.block % Allocator.pageSize = blockAlign
  there : names.block chunk.block % Allocator.pageSize = blockAlign

variable {chunk : Chunk}

theorem alignDown_add_mul (n k : Nat) {align : Nat} (positive : 0 < align) :
    alignDown (n + align * k) align = alignDown n align + align * k := by
  rw [alignDown, alignDown, Nat.add_mul_div_left _ _ positive, Nat.add_mul, Nat.mul_comm k]

/-- Where a range would start depends on the place in a page only. -/
theorem start_eq {other : Chunk} {align : Nat} (divides : align ∣ Allocator.pageSize)
    (positive : 0 < align) (used : other.used = chunk.used)
    (level : other.block % Allocator.pageSize = chunk.block % Allocator.pageSize) :
    other.start align = chunk.start align := by
  have offset (c : Chunk) :
      c.start align = alignUp (c.block % align + c.used) align - c.block % align := by
    have split := Nat.mod_add_div c.block align
    have shifted : alignUp (c.block + c.used) align =
        alignUp (c.block % align + c.used) align + align * (c.block / align) := by
      rw [alignUp, alignUp, ← alignDown_add_mul _ _ positive]
      congr 1
      omega
    rw [start, shifted]
    omega
  have same : other.block % align = chunk.block % align := by
    rw [← Nat.mod_mod_of_dvd other.block divides, level, Nat.mod_mod_of_dvd _ divides]
  rw [offset other, offset chunk, same, used]

/-- A range that would end inside the chunk starts below the last word. -/
theorem hasRoom_iff (divides : range.align ∣ wordLimit) (positive : 0 < range.align)
    (fits : chunk.block + chunk.capacity < wordLimit) :
    chunk.HasRoom range ↔ chunk.start range.align + range.size ≤ chunk.capacity := by
  refine ⟨And.right, fun inside => ⟨?_, inside⟩⟩
  have start := chunk.block_add_start positive
  by_contra high
  have last : wordLimit ≤ alignUp (chunk.block + chunk.used) range.align := by
    rw [alignUp, alignDown]
    calc
      wordLimit = wordLimit / range.align * range.align := (Nat.div_mul_cancel divides).symm
      _ ≤ _ := Nat.mul_le_mul_right _ (Nat.div_le_div_right (Nat.not_lt.mp high))
  omega

theorem Level.room?_rename (level : chunk.Level names) (power : isPowerOfTwo range.align = true)
    (small : range.align ≤ Allocator.pageSize) (here : chunk.block + chunk.capacity < wordLimit)
    (there : names.block chunk.block + chunk.capacity < wordLimit) :
    (chunk.rename names).room? range = chunk.room? range := by
  have positive := isPowerOfTwo_pos power
  have page := isPowerOfTwo_dvd power (by decide : isPowerOfTwo Allocator.pageSize = true) small
  have word : range.align ∣ wordLimit := page.trans (by decide)
  have start : (chunk.rename names).start range.align = chunk.start range.align :=
    start_eq page positive rfl (level.there.trans level.here.symm)
  have filled : (chunk.rename names).used ≤ (chunk.rename names).capacity := level.filled
  have there : (chunk.rename names).block + (chunk.rename names).capacity < wordLimit := there
  rw [Chunk.room?_eq positive level.filled here, Chunk.room?_eq positive filled there]
  simp only [hasRoom_iff word positive here, hasRoom_iff word positive there, start]
  rfl

theorem Level.congr (level : chunk.Level names)
    (same : later.block chunk.block = names.block chunk.block) : chunk.Level later :=
  ⟨level.filled, level.here, same ▸ level.there⟩

theorem le_of_room? {offset : Nat} (found : chunk.room? range = .ok (some offset)) :
    offset + range.size ≤ chunk.capacity := by
  simp only [room?, bind, Except.bind] at found
  split at found
  · cases found
  · split at found
    · cases found
    · split at found
      · cases found
      · rename_i start _
        split at found
        · cases found
        · rename_i stop sum
          have total : stop = start + range.size := by
            rw [Word.add?] at sum
            split at sum <;> cases sum
            rfl
          have inside := Except.ok.inj found
          split at inside
          · cases inside
          · cases inside
            omega

end Chunk

namespace Region

def rename (names : Renaming) (region : Region) : Region :=
  { region with id := names.region region.id, chunks := region.chunks.map (Chunk.rename names) }

def Handle.rename (names : Renaming) (handle : Handle) : Handle :=
  { handle with region := names.region handle.region }

variable {region : Region}

@[simp] theorem usage_rename (names : Renaming) (region : Region) :
    (region.rename names).usage = region.usage := by
  simp only [usage, rename, List.length_map, Chunk.total, List.map_map]
  rfl

@[simp] theorem remaining_rename (names : Renaming) (region : Region) :
    (region.rename names).remaining = region.remaining := by
  simp only [remaining, rename, List.getElem?_map, Option.map_map]
  rfl

theorem pointer_rename (names : Renaming) {place : Range}
    (inside : place.chunk < region.chunks.length) :
    (region.rename names).pointer place = (region.pointer place).rename names := by
  simp only [pointer, rename, List.getElem?_map, List.getElem?_eq_getElem inside]
  rfl

theorem pointer_mem {place : Range} (inside : place.chunk < region.chunks.length) :
    (region.pointer place).block ∈ region.holdings.map Extent.address := by
  simp only [pointer, List.getElem?_eq_getElem inside]
  exact mem_holdings (List.mem_map_of_mem (List.getElem_mem inside))

theorem rename_congr (keeps : names.Keeps later region.holdings) :
    region.rename later = region.rename names := by
  have chunks : region.chunks.map (Chunk.rename later) = region.chunks.map (Chunk.rename names) := by
    refine List.map_congr_left fun chunk member => ?_
    have block : later.block chunk.block = names.block chunk.block :=
      keeps.block (chunk.extent region.manager) (Multiset.mem_map_of_mem _ member)
    rw [Chunk.rename, Chunk.rename, block]
  rw [rename, rename, chunks, keeps.region]

theorem seek_rename {chunks : List Chunk}
    (each : ∀ chunk ∈ chunks, (chunk.rename names).room? range = chunk.room? range) (i : Nat) :
    seek range (chunks.map (Chunk.rename names)) i = seek range chunks i := by
  induction chunks generalizing i with
  | nil => rfl
  | cons chunk chunks ih =>
      rw [List.map_cons, seek, seek, each chunk List.mem_cons_self, List.isEmpty_map,
        ih fun other member => each other (List.mem_cons_of_mem chunk member)]

theorem seek_some {chunks : List Chunk} {i j offset : Nat}
    (found : seek range chunks i = .ok (j, some offset)) :
    ∃ chunk, i ≤ j ∧ chunks[j - i]? = some chunk ∧ offset + range.size ≤ chunk.capacity := by
  induction chunks generalizing i with
  | nil => cases found
  | cons chunk chunks ih =>
      simp only [seek, bind, Except.bind] at found
      cases searched : chunk.room? range with
      | error _ =>
          rw [searched] at found
          cases found
      | ok room =>
          rw [searched] at found
          cases room with
          | some start =>
              cases found
              exact ⟨chunk, Nat.le_refl _, by rw [Nat.sub_self]; rfl, Chunk.le_of_room? searched⟩
          | none =>
              dsimp only at found
              split at found
              · cases found
              · obtain ⟨other, ahead, there, inside⟩ := ih found
                refine ⟨other, by omega, ?_, inside⟩
                rw [show j - i = (j - (i + 1)) + 1 by omega]
                exact there

/-- The chunks and those that stand for them start at the same places of their pages, and new ones
will do so as well. -/
structure Level (names : Renaming) (region : Region) : Prop where
  least : minChunkSize ≤ region.chunkSize
  chunks : ∀ chunk ∈ region.chunks, chunk.Level names

theorem Level.congr (level : region.Level names) (keeps : names.Keeps later region.holdings) :
    region.Level later :=
  ⟨level.least, fun chunk member => (level.chunks chunk member).congr
    (keeps.block (chunk.extent region.manager) (Multiset.mem_map_of_mem _ member))⟩

abbrev Beside := SymbolStore.Beside holdings rename Level

abbrev Onto := SymbolStore.Onto holdings rename Level holdings fun region => some region.id

namespace Beside

variable {s t : Region × Process}

theorem congr (beside : Beside allocator names rest room s t)
    (keeps : names.Keeps later (s.1.holdings + rest)) : Beside allocator later rest room s t where
  same := beside.same.trans (rename_congr (keeps.mono (Multiset.le_add_right _ _))).symm
  level := beside.level.congr (keeps.mono (Multiset.le_add_right _ _))
  twins := beside.twins.congr keeps

theorem room? (beside : Beside allocator names rest room s t) (power : isPowerOfTwo range.align = true)
    (small : range.align ≤ Allocator.pageSize) (chunk : Chunk) (member : chunk ∈ s.1.chunks) :
    (chunk.rename names).room? range = chunk.room? range := by
  have paired := beside.twins.paired (chunk.extent s.1.manager)
    (Multiset.mem_add.mpr (.inl (Multiset.mem_map_of_mem _ member)))
  exact (beside.level.chunks chunk member).room?_rename power small (paired.here.fits beside.twins.here.sound)
    (paired.there.fits beside.twins.there.sound)

end Beside

theorem take_rename (names : Renaming) (size i offset : Nat) :
    (region.rename names).take size i offset =
      (region.take size i offset).map (rename names) := by
  have chunks : (region.chunks.map (Chunk.rename names)).modify i (fun c => { c with used := offset + size }) =
      (region.chunks.modify i fun c => { c with used := offset + size }).map (Chunk.rename names) := by
    refine List.ext_getElem? fun j => ?_
    simp only [List.getElem?_modify, List.getElem?_map]
    cases region.chunks[j]? with
    | none => rfl
    | some chunk =>
        simp only [Option.map_some]
        split <;> rfl
  simp only [take, rename]
  cases Word.add region.totalAllocated size with
  | error => rfl
  | ok total =>
      simp only [bind, Except.bind, pure, Except.pure, Except.map, chunks]
      rfl

theorem map_extent_modify (manager : Manager) (chunks : List Chunk) (i used : Nat) :
    (chunks.modify i fun c => { c with used }).map (Chunk.extent manager) =
      chunks.map (Chunk.extent manager) := by
  refine List.ext_getElem? fun j => ?_
  simp only [List.getElem?_map, List.getElem?_modify]
  cases chunks[j]? with
  | none => rfl
  | some chunk =>
      simp only [Option.map_some]
      split <;> rfl

theorem Beside.taken {taken : Region} {i offset : Nat} {chunk : Chunk}
    (beside : Beside allocator names rest room (region, p) (region.rename names, q))
    (present : region.chunks[i]? = some chunk) (inside : offset + range.size ≤ chunk.capacity)
    (took : region.take range.size i offset = .ok taken) :
    i < taken.chunks.length ∧
      Onto allocator names rest room region (fun _ => True) (taken, p) (taken.rename names, q) := by
  obtain ⟨total, -, rfl⟩ := eq_of_take took
  have held : { region with
      chunks := region.chunks.modify i fun c => { c with used := offset + range.size }
      totalAllocated := total : Region }.holdings = region.holdings := by
    rw [holdings, holdings, Multiset.map_coe, Multiset.map_coe, map_extent_modify]
  refine ⟨?_, held.ge, rfl, .here ⟨⟨rfl, ⟨beside.level.least, ?_⟩, ?_⟩, trivial⟩⟩
  · rw [List.length_modify]
    exact (List.getElem?_eq_some_iff.mp present).1
  · intro other member
    obtain ⟨j, there⟩ := List.mem_iff_getElem?.mp member
    rw [List.getElem?_modify] at there
    obtain ⟨old, found, rfl⟩ := Option.map_eq_some_iff.mp there
    have level := beside.level.chunks old (List.mem_of_getElem? found)
    split
    · rename_i same
      rw [← same, present] at found
      cases found
      exact ⟨inside, level.here, level.there⟩
    · exact level
  · rw [held]
    exact beside.twins

theorem take_tandem {o o' other : Region} {i i' offset : Nat} {chunk : Chunk}
    (beside : Beside allocator names rest room (region, p) (other, q)) (index : i' = i)
    (present : region.chunks[i]? = some chunk) (inside : offset + range.size ≤ chunk.capacity)
    {failed : Failure → Region × Process → Region × Process → Prop}
    (failure : ∀ cause, failed (.fault cause) (o, p) (o', q)) :
    Method.Tandem bound
      (do
        let taken ← region.take range.size i offset
        Method.update fun _ => taken
        return ({ chunk := i, offset } : Range))
      (do
        let taken ← other.take range.size i' offset
        Method.update fun _ => taken
        return ({ chunk := i', offset } : Range)) (o, p) (o', q)
      (fun a b s t => b = a ∧ a.chunk < s.1.chunks.length ∧
        Onto allocator names rest room region (fun _ => True) s t) failed := by
  obtain rfl : other = region.rename names := beside.same
  rw [index, take_rename]
  refine .ofMapped failure fun taken took => .step (by rfl) (by rfl) ?_
  exact ⟨rfl, beside.taken present inside took⟩

abbrev withChunk (region : Region) (chunk : Chunk) : Region :=
  { region with chunks := region.chunks ++ [chunk], current := region.chunks.length }

theorem withChunk_rename (keeps : names.Keeps later (region.holdings + rest)) (chunk : Chunk) :
    (region.withChunk chunk).rename later =
      (region.rename names).withChunk (chunk.rename later) := by
  have same := rename_congr (keeps.mono (Multiset.le_add_right _ _))
  rw [← same, withChunk, withChunk, rename, rename]
  simp only [List.map_append, List.length_map, List.map_cons, List.map_nil]

theorem Beside.extended {more : Nat} {chunk : Chunk} {p' q' : Process}
    (beside : Beside allocator names rest more (region, p) (region.rename names, q))
    (keeps : names.Keeps later (region.holdings + rest)) (level : chunk.Level later)
    (twins : Twins allocator later (chunk.extent region.manager ::ₘ (region.holdings + rest)) room
      p' q') :
    Beside allocator later rest room (region.withChunk chunk, p')
      ((region.rename names).withChunk (chunk.rename later), q') where
  same := (withChunk_rename keeps chunk).symm
  level := by
    refine ⟨beside.level.least, fun other member => ?_⟩
    rcases List.mem_append.mp member with old | new
    · exact (beside.congr keeps).level.chunks other old
    · rw [List.mem_singleton.mp new]
      exact level
  twins := by
    rw [← Multiset.cons_add] at twins
    exact holdings_append.symm ▸ twins

end Region

section Operations

variable (bySize : allocator.BySize grants bound)
include bySize

/-- A chunk is a large block of no special alignment. -/
theorem Chunk.create_tandem (manager : Manager) {capacity : Nat}
    (least : Region.minChunkSize ≤ capacity)
    (twins : Twins allocator names extents (room + 1) p q) :
    Process.Tandem bound (create manager capacity) (create manager capacity) p q
      (fun chunk other p q => names.Onward extents fun later => other = chunk.rename later ∧
        chunk.Level later ∧ Twins allocator later (chunk.extent manager ::ₘ extents) room p q)
      fun _ => Twins allocator names extents room := by
  rw [create]
  refine (Manager.allocate_tandem bySize manager _ twins).bind (fun _ _ _ left => left) ?_
  rintro a b p q ⟨paged, paged', keeps, after⟩
  refine .step (by rfl) (by rfl) ⟨_, keeps, ?_, ?_, after.printed _ _⟩
  · rw [rename, Renaming.block_assign]
  · refine ⟨Nat.zero_le _, paged least (Nat.le_refl _), ?_⟩
    rw [Renaming.block_assign]
    exact paged' least (Nat.le_refl _)

namespace Region

variable {region : Region}

theorem grow_tandem (power : isPowerOfTwo range.align = true)
    (small : range.align ≤ Allocator.pageSize)
    (beside : Beside allocator names rest (room + 1) (region, p) (region.rename names, q)) :
    Method.Tandem bound (grow range) (grow range) (region, p) (region.rename names, q)
      (fun a b s t => b = a ∧ a.chunk < s.1.chunks.length ∧
        Onto allocator names rest room region (fun _ => True) s t)
      fun _ => Onto allocator names rest room region fun _ => True := by
  have lessened := beside.less (Nat.le_succ room)
  rw [grow]
  refine .step (by rfl) (by rfl) ?_
  cases Word.add? range.size (range.align - 1) with
  | none => exact Action.lockstep_fail (lessened.onto trivial)
  | some needed =>
      have least : minChunkSize ≤ max region.chunkSize needed :=
        Nat.le_trans beside.level.least (Nat.le_max_left _ needed)
      have returned {p q : Process}
          (twins : Twins allocator names (region.holdings + rest) room p q) :
          Onto allocator names rest room region (fun _ => True) (region, p)
            (region.rename names, q) := by
        have beside : Beside allocator names rest room (region, p) (region.rename names, q) :=
          { lessened with twins }
        exact beside.onto trivial
      refine Method.lockstep_process
        (Chunk.create_tandem bySize region.manager least beside.twins)
        (fun _ _ _ twins => returned twins) ?_
      rintro chunk _ p q ⟨later, keeps, rfl, level, twins⟩
      have extended := beside.extended keeps level twins
      have failed := returned ((twins.forget (Multiset.le_cons_self _ _)).congr keeps.symm)
      have last : chunk ∈ region.chunks ++ [chunk] :=
        List.mem_append_right _ (List.mem_singleton_self _)
      rw [extended.room? power small chunk last]
      refine .ofFault (fun _ => failed) fun found searched => ?_
      cases found with
      | none =>
          refine Method.lockstep_process (Manager.free_tandem twins) (fun _ _ _ => False.elim) ?_
          intro _ _ p q twins
          exact Action.lockstep_fail (returned (twins.congr keeps.symm))
      | some offset =>
          have length : (region.rename names).chunks.length = region.chunks.length :=
            List.length_map _
          have grows : region.holdings ≤ (region.withChunk chunk).holdings :=
            (Multiset.le_cons_self _ _).trans_eq holdings_append.symm
          have handed : Method.Tandem bound _ _ (region, p) (region.rename names, q) _
              (fun _ => Onto allocator names rest room region fun _ => True) :=
            take_tandem extended length List.getElem?_concat_length (Chunk.le_of_room? searched)
              fun _ => failed
          refine Lockstep.mono handed ?_ fun _ _ _ left => left
          rintro a b s t ⟨same, inside, onto⟩
          exact ⟨same, inside, onto.after grows rfl keeps fun _ known => known⟩

theorem allocate_tandem (small : range.align ≤ Allocator.pageSize)
    (beside : Beside allocator names rest (room + 1) (region, p) (region.rename names, q)) :
    Method.Tandem bound (allocate range) (allocate range) (region, p) (region.rename names, q)
      (fun a b s t => b = a ∧ a.chunk < s.1.chunks.length ∧
        Onto allocator names rest room region (fun _ => True) s t)
      fun _ => Onto allocator names rest room region fun _ => True := by
  have lessened := beside.less (Nat.le_succ room)
  rw [allocate]
  refine .require (lessened.onto trivial) fun power => .step (by rfl) (by rfl) ?_
  have sought : seek range ((region.rename names).chunks.drop region.current) region.current =
      seek range (region.chunks.drop region.current) region.current := by
    rw [rename, ← List.map_drop]
    exact seek_rename (fun chunk member => beside.room? power small chunk (List.mem_of_mem_drop member)) _
  show Method.Tandem bound (liftM (seek range (region.chunks.drop region.current) region.current) >>= _)
    (liftM (seek range ((region.rename names).chunks.drop region.current) region.current) >>= _)
    _ _ _ _
  rw [sought]
  refine .ofFault (fun _ => lessened.onto trivial) ?_
  rintro ⟨current, place⟩ found
  refine .step (by rfl) (by rfl) ?_
  -- The index of the current chunk is all that has changed so far.
  have moved {more : Nat}
      (beside : Beside allocator names rest more (region, p) (region.rename names, q)) :
      Beside allocator names rest more ({ region with current }, p)
        (rename names { region with current }, q) :=
    ⟨rfl, ⟨beside.level.least, beside.level.chunks⟩, beside.twins⟩
  have back {s t : Region × Process}
      (onto : Onto allocator names rest room { region with current } (fun _ => True) s t) :
      Onto allocator names rest room region (fun _ => True) s t :=
    ⟨onto.grows, onto.number, onto.onward⟩
  cases place with
  | none =>
      refine (grow_tandem bySize power small (moved beside)).mono ?_ fun _ _ _ => back
      exact fun _ _ _ _ handed => ⟨handed.1, handed.2.1, back handed.2.2⟩
  | some offset =>
      obtain ⟨chunk, ahead, there, inside⟩ := seek_some found
      rw [List.getElem?_drop, Nat.add_sub_cancel' ahead] at there
      have handed : Method.Tandem bound _ _ ({ region with current }, p)
          (rename names { region with current }, q) _
          (fun _ => Onto allocator names rest room region fun _ => True) :=
        take_tandem (moved lessened) rfl there inside
          fun _ => back ((moved lessened).onto trivial)
      refine Lockstep.mono handed ?_ fun _ _ _ left => left
      exact fun _ _ _ _ handed => ⟨handed.1, handed.2.1, back handed.2.2⟩

theorem store_tandem (content : Nat → UInt8) (small : range.align ≤ Allocator.pageSize)
    (beside : Beside allocator names rest (room + 1) (region, p) (region.rename names, q)) :
    Method.Tandem bound (store range content) (store range content) (region, p) (region.rename names, q)
      (fun a b => Onto allocator names rest room region fun later => b = a.rename later)
      fun _ => Onto allocator names rest room region fun _ => True := by
  rw [store]
  refine (allocate_tandem bySize small beside).bind (fun _ _ _ left => left) ?_
  rintro place _ ⟨stocked, p⟩ ⟨_, q⟩ ⟨rfl, inside, grows, number, later, keeps, beside, -⟩
  obtain rfl := beside.same
  have pointed := pointer_rename later inside
  refine .step (by rfl) (by rfl) ?_
  dsimp only
  rw [pointed]
  refine Method.lockstep_process (beside.store (pointer_mem inside) _) ?_ ?_
  · exact fun _ _ _ beside => ⟨grows, number, later, keeps, beside, trivial⟩
  · intro _ _ p q beside
    refine .last (by rfl) (by rfl) ?_
    exact ⟨grows, number, later, keeps, beside, rfl⟩

theorem storeBytes_tandem (bytes : List UInt8)
    (beside : Beside allocator names rest (room + 1) (region, p) (region.rename names, q)) :
    Method.Tandem bound (storeBytes bytes) (storeBytes bytes) (region, p) (region.rename names, q)
      (fun a b s t => a.region = s.1.id ∧
        Onto allocator names rest room region (fun later => b = a.rename later) s t)
      fun _ => Onto allocator names rest room region fun _ => True := by
  rw [storeBytes]
  have small : (1 : Nat) ≤ Allocator.pageSize := by decide
  refine (allocate_tandem bySize small beside).bind (fun _ _ _ left => left) ?_
  rintro place _ ⟨stocked, p⟩ ⟨_, q⟩ ⟨rfl, inside, grows, number, later, keeps, beside, -⟩
  obtain rfl := beside.same
  refine .step (by rfl) (by rfl) ?_
  dsimp only
  rw [pointer_rename later inside]
  refine Method.lockstep_process (beside.store (pointer_mem inside) _) ?_ ?_
  · exact fun _ _ _ beside => ⟨grows, number, later, keeps, beside, trivial⟩
  · intro _ _ p q beside
    refine .last (by rfl) (by rfl) ?_
    exact ⟨rfl, grows, number, later, keeps, beside, rfl⟩

end Region

end Operations

namespace Region

variable {region : Region} {excused pardoned : Failure → Process → Prop}

theorem erase_tandem {chunks : List Chunk}
    (own : ∀ chunk ∈ chunks, chunk.block ∈ extents.map Extent.address)
    (twins : Twins allocator names extents room p q) :
    Lockstep excused pardoned (chunks.forM Chunk.erase)
      ((chunks.map (Chunk.rename names)).forM Chunk.erase) p q
      (fun _ _ => Twins allocator names extents room) fun _ => Twins allocator names extents room := by
  induction chunks generalizing p q with
  | nil => exact twins
  | cons chunk chunks ih =>
      show Lockstep _ _ (chunk.erase >>= fun _ => chunks.forM Chunk.erase)
        ((chunk.rename names).erase >>= fun _ => (chunks.map (Chunk.rename names)).forM Chunk.erase)
        p q _ _
      obtain ⟨first, others⟩ := List.forall_mem_cons.mp own
      have erased : Lockstep excused pardoned chunk.erase (chunk.rename names).erase p q _ _ :=
        twins.store first (List.replicate chunk.used Chunk.poison)
      exact erased.bind (fun _ _ _ twins => twins) fun _ _ _ _ => ih others

theorem reset_tandem {excused pardoned : Failure → Region × Process → Prop}
    (beside : Beside allocator names rest room (region, p) (region.rename names, q)) :
    Lockstep excused pardoned reset reset (region, p) (region.rename names, q)
      (fun _ _ => Onto allocator names rest room region fun _ => True)
      fun _ => Onto allocator names rest room region fun _ => True := by
  rw [reset]
  refine .step (by rfl) (by rfl) ?_
  have own : ∀ chunk ∈ region.chunks,
      chunk.block ∈ (region.holdings + rest).map Extent.address := fun chunk member => by
    rw [Multiset.map_add]
    exact Multiset.mem_add.mpr (.inl (mem_holdings (List.mem_map_of_mem member)))
  refine Method.lockstep_process (erase_tandem own beside.twins) ?_ ?_
  · intro _ p q twins
    have kept : Beside allocator names rest room (region, p) (region.rename names, q) :=
      ⟨rfl, beside.level, twins⟩
    exact kept.onto trivial
  intro _ _ p q twins
  have rewound {p q : Process} (generation : Nat)
      (twins : Twins allocator names (region.holdings + rest) room p q) :
      Onto allocator names rest room region (fun _ => True)
        ({ region.rewound with generation }, p)
        ({ (region.rename names).rewound with generation }, q) := by
    refine ⟨holdings_rewound.ge, rfl, .here ⟨⟨?_, ⟨beside.level.least, ?_⟩, ?_⟩, trivial⟩⟩
    · simp only [Region.rewound, rename, List.map_map]
      rfl
    · intro chunk member
      obtain ⟨old, there, rfl⟩ := List.mem_map.mp member
      have level := beside.level.chunks old there
      exact ⟨Nat.zero_le _, level.here, level.there⟩
    · show Twins allocator names (region.rewound.holdings + rest) room p q
      rw [holdings_rewound]
      exact twins
  refine .step (by rfl) (by rfl) ?_
  refine .ensure (rewound region.generation twins) fun _ => ?_
  refine .step (by rfl) (by rfl) (.last (by rfl) (by rfl) ?_)
  exact rewound (region.generation + 1) (twins.printed _ _)

theorem freeAll_tandem (manager : Manager) {chunks : List Chunk}
    (twins : Twins allocator names ((chunks : Multiset Chunk).map (Chunk.extent manager) + rest) room
      p q) :
    Lockstep excused pardoned (chunks.forM fun chunk => manager.free chunk.block)
      ((chunks.map (Chunk.rename names)).forM fun chunk => manager.free chunk.block) p q
      (fun _ _ => Twins allocator names rest room) fun _ _ _ => False := by
  induction chunks generalizing p q with
  | nil =>
      rw [Multiset.coe_nil, Multiset.map_zero, zero_add] at twins
      exact twins
  | cons chunk chunks ih =>
      rw [← Multiset.cons_coe, Multiset.map_cons, Multiset.cons_add] at twins
      show Lockstep _ _ (manager.free chunk.block >>= fun _ => chunks.forM _)
        (manager.free (names.block chunk.block) >>= fun _ =>
          (chunks.map (Chunk.rename names)).forM _) p q _ _
      exact (Manager.free_tandem twins).bind (fun _ _ _ => False.elim) fun _ _ _ _ => ih

theorem discard_tandem (twins : Twins allocator names (region.holdings + rest) room p q) :
    Lockstep excused pardoned region.discard (region.rename names).discard p q
      (fun _ _ => Twins allocator names rest room) fun _ _ _ => False := by
  rw [discard, discard]
  refine (freeAll_tandem region.manager twins).bind (fun _ _ _ => False.elim) ?_
  exact fun _ _ _ _ twins => twins.release _

theorem discard_spent (none : region.chunks = []) (spent : p.Spent bound) :
    Ends region.discard p (fun _ => Process.Spent bound) fun _ => Process.Spent bound := by
  rw [discard, none]
  exact Manager.release_spent spent

theorem create_tandem (manager : Manager) (chunkSize : Nat)
    (next : names.region p.nextRegion = q.nextRegion)
    (twins : Twins allocator names extents room p q) :
    Lockstep excused pardoned (create manager chunkSize) (create manager chunkSize) p q
      (fun region other p' q' => region.chunks = [] ∧ region.id = p.nextRegion ∧
        Beside allocator names extents room (region, p') (other, q'))
      fun _ => Twins allocator names extents room := by
  rw [create]
  refine .require twins fun _ => ?_
  refine (twins.retain manager).bind (fun _ _ _ => False.elim) ?_
  rintro _ _ p' q' ⟨⟨number, number'⟩, twins⟩
  refine .step (by rfl) (by rfl) (.step (by rfl) (by rfl) ⟨rfl, number, ?_, ?_, ?_⟩)
  · simp only [rename, number, number', next, List.map_nil]
  · exact ⟨Nat.le_max_right _ _, fun _ member => absurd member List.not_mem_nil⟩
  · rw [holdings_unused rfl, zero_add]
    exact twins.counted

theorem resolve_rename (handle : Handle)
    (twins : Twins allocator names (region.holdings + extents) room p q) :
    (region.rename names).resolve q.heap (handle.rename names) = region.resolve p.heap handle := by
  have own : names.region handle.region = names.region region.id ↔ handle.region = region.id :=
    names.region.injective.eq_iff
  simp only [resolve, rename, Handle.rename, own, List.length_map, List.getElem?_map]
  cases found : region.chunks[handle.chunk]? with
  | none => rfl
  | some chunk =>
      have member : chunk.block ∈ (region.holdings + extents).map Extent.address := by
        rw [Multiset.map_add]
        exact Multiset.mem_add.mpr
          (.inl (mem_holdings (List.mem_map_of_mem (List.mem_of_getElem? found))))
      have read := twins.read ⟨chunk.block, handle.offset⟩ member handle.length
      simp only [Option.map_some, ← read]
      rfl

end Region

end SymbolStore
