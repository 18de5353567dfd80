import SymbolStore.Proofs.Dictionary.Failing

/-!
How the buckets of a dictionary grow over its history. Used buckets, live and deleted, are what
brings a rebuild on: only a new key uses one more of them, and a rebuild leaves less than half of them
used. So rebuilds are far apart, and there are never many more buckets than there were entries at some
time.
-/

namespace SymbolStore

open SymbolStore.Action (Ends)

namespace Dictionary

variable {K V : Type} {dictionary : Dictionary K V} {process : Process} {key : K} {hash : UInt64}
  {index : Nat}

/-- The buckets stay where they are, and at most so many more of them are used. -/
structure Fills (before after : Dictionary K V) (added : Nat) : Prop where
  block : after.table.block = before.table.block
  capacity : after.capacity = before.capacity
  used : after.count + after.deleted ≤ before.count + before.deleted + added

/-- There are other buckets now, and at most so many of them are used beside those for the entries. -/
structure Renews (before after : Dictionary K V) (added : Nat) : Prop where
  block : after.table.block ≠ before.table.block
  capacity : after.capacity = before.nextCapacity
  used : after.count + after.deleted ≤ before.count + added

structure Changes (before : Dictionary K V) (rebuilds : Prop) (added : Nat)
    (after : Dictionary K V) : Prop where
  fills : ¬ rebuilds → before.Fills after added
  renews : rebuilds → before.Renews after added

theorem Fills.changes {before after : Dictionary K V} {added : Nat} {rebuilds : Prop}
    (fills : before.Fills after added) (stays : ¬ rebuilds) :
    before.Changes rebuilds added after :=
  ⟨fun _ => fills, fun does => absurd does stays⟩

theorem Renews.changes {before after : Dictionary K V} {added : Nat} {rebuilds : Prop}
    (renews : before.Renews after added) (does : rebuilds) :
    before.Changes rebuilds added after :=
  ⟨fun stays => absurd does stays, fun _ => renews⟩

theorem Fills.refl (dictionary : Dictionary K V) : dictionary.Fills dictionary 0 :=
  ⟨rfl, rfl, Nat.le_refl _⟩

theorem fills_withBucket {bucket : Bucket (Node K V)} {count deleted added : Nat}
    (used : count + deleted ≤ dictionary.count + dictionary.deleted + added) :
    dictionary.Fills (dictionary.withBucket index bucket count deleted) added :=
  ⟨rfl, capacity_withBucket, used⟩

theorem fills_emptied : dictionary.Fills dictionary.emptied 0 :=
  ⟨rfl, capacity_emptied, Nat.zero_le _⟩

/-- A new entry uses one bucket more, or one that was deleted. -/
theorem storeAt_changes (value : V) :
    Ends (storeAt index hash key value) (dictionary, process)
      (fun _ after => dictionary.Fills after.1 1) fun _ after => after.1 = dictionary := by
  simp only [storeAt, Action.ends_bind, Method.ends_self, Method.ends_liftProcess]
  apply (Action.ends_trivial (dictionary.manager.allocateArray dictionary.node 1) process).mono
  · intro block after _
    split
    · simp only [Action.ends_bind, Action.ends_subtract, Action.ends_add, Method.ends_update]
      split
      · split
        · exact fills_withBucket (by omega)
        · trivial
      · trivial
    · simp only [Action.ends_bind, Action.ends_pure, Action.ends_add, Method.ends_update]
      split
      · exact fills_withBucket (by omega)
      · trivial
  · exact fun _ _ _ => trivial

/-- A rebuild that fails leaves the dictionary as it was. -/
theorem rebuild_changes (sound : dictionary.SoundIn process) :
    Ends rebuild (dictionary, process) (fun _ after => dictionary.Renews after.1 0)
      fun _ after => after.1 = dictionary := by
  obtain ⟨computed, size, room⟩ := sound.rebuiltCapacity_eq
  have least := Nat.le_trans sound.valid.least dictionary.capacity_le_nextCapacity
  apply rebuild_rehashes computed
  apply (dictionary.table.rehashed_ends .dictionary Node.hash sound.memory size
    sound.entries_le_nextCapacity).mono
  · intro fresh after ends text
    obtain ⟨granted, replaces⟩ := ends
    apply (free_table_ends sound granted replaces size least room _).mono ?_
      fun _ _ none => none.elim
    intro _ final _
    constructor
    · exact (sound.owns.table.ne_of_fresh granted.fresh).symm
    · exact replaces.capacity
    · exact Nat.le_refl dictionary.count
  · exact fun _ _ _ => rfl

theorem Renews.fills {before middle after : Dictionary K V} {added : Nat}
    (renews : before.Renews middle 0) (fills : middle.Fills after added) :
    before.Renews after added where
  block := by
    rw [fills.block]
    exact renews.block
  capacity := fills.capacity.trans renews.capacity
  used := by
    have first := renews.used
    have second := fills.used
    omega

theorem storeRebuilt_changes (value : V) (sound : dictionary.SoundIn process) :
    Ends (storeRebuilt hash key value) (dictionary, process)
      (fun _ after => dictionary.Changes (rebuild.runFrom (dictionary, process)).1.isOk 1 after.1)
      fun _ after =>
        dictionary.Changes (rebuild.runFrom (dictionary, process)).1.isOk 0 after.1 := by
  apply storeRebuilt_stores sound
  · intro failure after ran
    have kept : after.1 = dictionary := (rebuild_changes sound).of_error ran
    rw [ran, kept]
    exact (Fills.refl dictionary).changes Bool.false_ne_true
  · intro fresh after index ran _ _
    have renews : dictionary.Renews fresh 0 := (rebuild_changes sound).of_ok ran
    rw [ran]
    apply (storeAt_changes value).mono
    · intro _ final fills
      exact (renews.fills fills).changes rfl
    · intro _ final kept
      rw [kept]
      exact renews.changes rfl

def Rebuilding (request : Request K V) (state : Dictionary K V × Process) : Prop :=
  request.Adds state.1.rule state.1.toList ∧ state.1.Rebuilds state.2

instance (rule : KeyRule K) (entries : List (K × V)) (request : Request K V) :
    Decidable (request.Adds rule entries) :=
  match request with
  | .set key _ => inferInstanceAs (Decidable (lookup rule entries key = none))
  | .get _ | .modify _ _ | .contains _ | .remove _ | .delete _ | .clear => .isFalse id

instance (request : Request K V) (state : Dictionary K V × Process) :
    Decidable (Rebuilding request state) :=
  inferInstanceAs (Decidable (_ ∧ _ ∧ _))

def Request.added : Request K V → Except Failure (Answer V) → Bool
  | .set _ _, .ok (.value none) => true
  | _, _ => false

theorem set_changes (key : K) (value : V) (sound : dictionary.SoundIn process) :
    Ends (set key value) (dictionary, process)
      (fun answer after => dictionary.Changes (Rebuilding (.set key value) (dictionary, process))
        answer.isNone.toNat after.1)
      fun _ after =>
        dictionary.Changes (Rebuilding (.set key value) (dictionary, process)) 0 after.1 := by
  apply set_cases sound
  · intro index node stored same
    have known := lookup_stored sound.valid sound.consistent stored same
    have stays : ¬ Rebuilding (.set key value) (dictionary, process) := by
      intro rebuilding
      have absent : lookup dictionary.rule dictionary.toList key = none := rebuilding.1
      rw [known] at absent
      cases absent
    refine Fills.changes ?_ stays
    exact fills_withBucket (Nat.le_refl _)
  · intro lacks crowded
    have rebuilding : Rebuilding (.set key value) (dictionary, process) ↔
        (rebuild.runFrom (dictionary, process)).1.isOk = true :=
      ⟨fun does => does.2.2, fun done => ⟨lookup_of_lacks lacks, crowded, done⟩⟩
    rw [rebuilding]
    exact storeRebuilt_changes value sound
  · intro index old _ room _ _ _
    have stays : ¬ Rebuilding (.set key value) (dictionary, process) := fun rebuilding =>
      room rebuilding.2.1
    apply (storeAt_changes value).mono
    · intro _ after fills
      exact fills.changes stays
    · intro _ after kept
      rw [kept]
      exact (Fills.refl dictionary).changes stays

theorem remove_fills (key : K) (sound : dictionary.SoundIn process) :
    Ends (remove key) (dictionary, process) (fun _ after => dictionary.Fills after.1 0)
      fun _ _ => False := by
  apply (remove_removes key sound).mono ?_ fun _ _ none => none
  intro _ _ removed
  cases removed with
  | absent lacks => exact .refl dictionary
  | taken stored same freed =>
      have positive := sound.valid.count_pos stored
      rw [struck]
      split
      · exact fills_emptied
      · exact fills_withBucket (by omega)

theorem modify_fills (key : K) (f : V → V) (sound : dictionary.SoundIn process) :
    Ends (modify key f) (dictionary, process) (fun _ after => dictionary.Fills after.1 0)
      fun _ _ => False := by
  simp only [modify, Action.ends_bind, Method.ends_self, Action.ends_liftFault]
  rcases find_cases sound.valid sound.consistent key with
    ⟨index, node, found, stored, same⟩ | ⟨missed, lacks⟩
  · simp only [found, Action.ends_bind, ends_replaceAt stored, Action.ends_pure]
    exact fills_withBucket (Nat.le_refl _)
  · simp only [missed, Action.ends_pure]
    exact .refl dictionary

theorem clear_fills (sound : dictionary.SoundIn process) :
    Ends clear (dictionary, process) (fun _ after => dictionary.Fills after.1 0)
      fun _ _ => False := by
  apply (clear_empties sound).mono ?_ fun _ _ none => none
  rintro _ ⟨left, after⟩ ⟨rfl, -⟩
  exact fills_emptied

/-- What a request does to the buckets. Only one that sets a new key uses more of them. -/
theorem perform_changes (request : Request K V) (sound : dictionary.SoundIn process) :
    Ends (perform request) (dictionary, process)
      (fun answer after => dictionary.Changes (Rebuilding request (dictionary, process))
        (request.added (.ok answer)).toNat after.1)
      fun failure after => dictionary.Changes (Rebuilding request (dictionary, process))
        (request.added (.error failure)).toNat after.1 := by
  cases request with
  | set key value =>
      rw [perform, Action.ends_map]
      apply (set_changes key value sound).mono ?_ fun _ _ changes => changes
      intro answer _ changes
      cases answer <;> exact changes
  | get key =>
      simp only [perform, Action.ends_bind, Method.ends_self, Action.ends_liftFault,
        get_eq key sound, Action.ends_pure]
      exact (Fills.refl dictionary).changes And.left
  | modify key f =>
      rw [perform, Action.ends_map]
      apply (modify_fills key f sound).mono ?_ fun _ _ none => none.elim
      exact fun _ _ fills => fills.changes And.left
  | contains key =>
      simp only [perform, Action.ends_bind, Method.ends_self, Action.ends_liftFault,
        contains_eq key sound, Action.ends_pure]
      exact (Fills.refl dictionary).changes And.left
  | remove key =>
      rw [perform, Action.ends_map]
      apply (remove_fills key sound).mono ?_ fun _ _ none => none.elim
      exact fun _ _ fills => fills.changes And.left
  | delete key =>
      rw [perform, delete, Action.ends_map, Action.ends_map]
      apply (remove_fills key sound).mono ?_ fun _ _ none => none.elim
      exact fun _ _ fills => fills.changes And.left
  | clear =>
      rw [perform]
      apply (clear_fills sound).bind (fun _ _ none => none.elim)
      exact fun _ _ fills => fills.changes And.left

structure Deed (K V : Type) extends Step (Request K V) (Answer V) (Dictionary K V) where
  before : Dictionary K V × Process

namespace Deed

def Rebuilds (deed : Deed K V) : Prop := Rebuilding deed.request deed.before

instance (deed : Deed K V) : Decidable deed.Rebuilds :=
  inferInstanceAs (Decidable (Rebuilding _ _))

def adds (deed : Deed K V) : Bool := deed.request.added deed.outcome

def Done (deed : Deed K V) : Prop :=
  (perform deed.request).runFrom deed.before = (deed.outcome, deed.after)

@[simps]
def of (request : Request K V) (state : Dictionary K V × Process) : Deed K V where
  request := request
  before := state
  outcome := ((perform request).runFrom state).1
  after := ((perform request).runFrom state).2

end Deed

/-- The process may have changed, but in ways that leave the dictionary and its blocks alone. -/
def Aside (state later : Dictionary K V × Process) : Prop :=
  later.1 = state.1 ∧ ∃ freed, state.2.Evolves later.2 freed ∧
    ∀ block ∈ state.1.table.block :: state.1.blocks, block ∉ freed

/-- What is done to a dictionary from a state on. Between two requests the process may change in ways
that leave the blocks of the dictionary alone. -/
inductive History : Dictionary K V × Process → List (Deed K V) → Prop
  | ended {state : Dictionary K V × Process} : History state []
  | deed {state : Dictionary K V × Process} {deed : Deed K V} {later : List (Deed K V)}
      (aside : Aside state deed.before) (done : deed.Done) (rest : History deed.after later) :
      History state (deed :: later)

def deedsFrom : List (Request K V) → Dictionary K V × Process → List (Deed K V)
  | [], _ => []
  | request :: requests, state =>
    .of request state :: deedsFrom requests (Deed.of request state).after

variable {state : Dictionary K V × Process} {deed : Deed K V} {deeds : List (Deed K V)}

theorem SoundIn.aside {later : Dictionary K V × Process} (sound : state.1.SoundIn state.2)
    (aside : Aside state later) : later.1.SoundIn later.2 := by
  obtain ⟨same, freed, evolves, kept⟩ := aside
  rw [same]
  exact { sound with memory := evolves.sound, owns := sound.owns.evolves evolves kept }

theorem Deed.Done.sound (done : deed.Done) (sound : deed.before.1.SoundIn deed.before.2) :
    deed.after.1.SoundIn deed.after.2 := by
  obtain ⟨content, continues⟩ := perform_continues deed.request sound
  rw [done] at continues
  exact continues.sound

theorem Deed.Done.changes (done : deed.Done) (sound : deed.before.1.SoundIn deed.before.2) :
    deed.before.1.Changes deed.Rebuilds deed.adds.toNat deed.after.1 := by
  have ends := perform_changes deed.request sound
  rw [Ends, done] at ends
  rw [Deed.adds]
  cases outcome : deed.outcome with
  | ok answer =>
      rw [outcome] at ends
      exact ends
  | error failure =>
      rw [outcome] at ends
      exact ends

/-- A rebuild shows: the buckets are in another block. -/
theorem Deed.Done.rebuilds_iff (done : deed.Done) (sound : deed.before.1.SoundIn deed.before.2) :
    deed.Rebuilds ↔ deed.after.1.table.block ≠ deed.before.1.table.block := by
  have changes := done.changes sound
  constructor
  · exact fun rebuilds => (changes.renews rebuilds).block
  · intro moved
    by_contra stays
    exact moved (changes.fills stays).block

theorem History.drop {earlier later : List (Deed K V)} (history : History state (earlier ++ later))
    (sound : state.1.SoundIn state.2) :
    ∃ middle : Dictionary K V × Process, middle.1.SoundIn middle.2 ∧ History middle later := by
  induction earlier generalizing state with
  | nil => exact ⟨state, sound, history⟩
  | cons deed earlier ih =>
      cases history with
      | deed aside done rest => exact ih rest (done.sound (sound.aside aside))

theorem History.rebuilds_iff (history : History state deeds) (sound : state.1.SoundIn state.2) :
    ∀ deed ∈ deeds, deed.Rebuilds ↔ deed.after.1.table.block ≠ deed.before.1.table.block := by
  induction history with
  | ended =>
      intro deed member
      cases member
  | deed aside done rest ih =>
      have before := sound.aside aside
      intro deed member
      rcases List.mem_cons.mp member with rfl | member
      · exact done.rebuilds_iff before
      · exact ih (done.sound before) deed member

theorem History.of_requests (requests : List (Request K V)) (sound : state.1.SoundIn state.2) :
    History state (deedsFrom requests state) := by
  induction requests generalizing state with
  | nil => exact .ended
  | cons request requests ih =>
      have done : (Deed.of request state).Done := rfl
      refine .deed ⟨rfl, [], .refl sound.memory, fun _ _ => List.not_mem_nil⟩ done ?_
      exact ih (done.sound sound)

theorem countP_adds (deed : Deed K V) (deeds : List (Deed K V)) :
    (deed :: deeds).countP Deed.adds = deeds.countP Deed.adds + deed.adds.toNat := by
  rw [List.countP_cons]
  cases deed.adds <;> rfl

/-- Without a rebuild only new keys use more buckets, one bucket for a key. -/
theorem History.used_le {between later : List (Deed K V)} {next : Deed K V}
    (history : History state (between ++ next :: later)) (sound : state.1.SoundIn state.2)
    (stays : ∀ deed ∈ between, ¬ deed.Rebuilds) :
    next.before.1.capacity = state.1.capacity ∧
      next.before.1.count + next.before.1.deleted ≤
        state.1.count + state.1.deleted + between.countP Deed.adds := by
  induction between generalizing state with
  | nil =>
      cases history with
      | deed aside done rest =>
          rw [aside.1]
          exact ⟨rfl, Nat.le_refl _⟩
  | cons deed between ih =>
      cases history with
      | deed aside done rest =>
          have before := sound.aside aside
          have fills := (done.changes before).fills (stays deed List.mem_cons_self)
          have used := fills.used
          obtain ⟨capacity, usedLater⟩ := ih rest (done.sound before) fun other member =>
            stays other (List.mem_cons_of_mem deed member)
          rw [aside.1] at used
          have added := countP_adds deed between
          refine ⟨?_, by omega⟩
          rw [capacity, fills.capacity, aside.1]

/-- Between a rebuild and the next one at least a quarter of the buckets,
and one more, were taken by new keys. The key that brought the first rebuild on counts if it was set
in the end. So two requests on end never both rebuild the buckets, whatever is set and taken out. A
rebuild shows in the address of the buckets. -/
theorem rebuilds_far_apart (reachable : Reachable state) (history : History state deeds)
    {earlier between later : List (Deed K V)} {first second : Deed K V}
    (split : deeds = earlier ++ first :: (between ++ second :: later)) (rebuilds : first.Rebuilds)
    (again : second.Rebuilds) (stays : ∀ deed ∈ between, ¬ deed.Rebuilds) :
    first.after.1.capacity / 4 + 1 ≤ (first :: between).countP Deed.adds ∧ between ≠ [] ∧
      ∀ deed ∈ deeds, deed.Rebuilds ↔ deed.after.1.table.block ≠ deed.before.1.table.block := by
  subst split
  have shows := history.rebuilds_iff reachable.sound
  obtain ⟨middle, sound, rest⟩ := history.drop reachable.sound
  cases rest with
  | deed aside done rest =>
      have before := sound.aside aside
      have renews := (done.changes before).renews rebuilds
      have after := done.sound before
      obtain ⟨capacity, used⟩ := rest.used_le after stays
      have room := before.rebuiltCapacity_eq.2.2
      have crowded : second.before.1.Crowded := again.2.1
      have usedFirst := renews.used
      have least := after.valid.least
      rw [← renews.capacity] at room
      rw [Crowded, capacity] at crowded
      unfold minBuckets at least
      have added := countP_adds first between
      have enough : first.after.1.capacity / 4 + 1 ≤ (first :: between).countP Deed.adds := by omega
      refine ⟨enough, ?_, shows⟩
      rintro rfl
      have once := Bool.toNat_le first.adds
      rw [List.countP_nil] at added
      omega

theorem roomy_created : (create ⟨0⟩ 4 sampleRule ⟨128, 8⟩).runFrom (limited 5000) =
    (.ok (sample 5000).1, (sample 5000).2) := rfl

theorem roomy_sound : (limited 5000).Sound :=
  Manager.sound_create Allocator.ascending_lawful _

/-- The fourth key doubles the four buckets, the seventh the eight. -/
theorem rebuilds_far_apart_sample :
    let start := Method.final perform [.set 1 0, .set 2 0, .set 3 0] (sample 5000)
    let fourth := Deed.of (.set 4 0) start
    let fifth := Deed.of (.set 5 0) fourth.after
    let sixth := Deed.of (.set 6 0) fifth.after
    let seventh := Deed.of (.set 7 0) sixth.after
    Reachable start ∧ History start [fourth, fifth, sixth, seventh] ∧
      fourth.Rebuilds ∧ seventh.Rebuilds ∧ (∀ deed ∈ [fifth, sixth], ¬ deed.Rebuilds) ∧
      fourth.after.1.capacity / 4 + 1 ≤ [fourth, fifth, sixth].countP Deed.adds := by
  intro start fourth fifth sixth seventh
  have roomy : Reachable (sample 5000) :=
    .made roomy_sound (KeyRule.consistent_byContent _) rfl roomy_created
  have reachable : Reachable start := .asked _ (.asked _ (.asked _ roomy))
  have history : History start [fourth, fifth, sixth, seventh] :=
    .of_requests [.set 4 0, .set 5 0, .set 6 0, .set 7 0] reachable.sound
  have rebuilds : fourth.Rebuilds ∧ seventh.Rebuilds ∧ ∀ deed ∈ [fifth, sixth], ¬ deed.Rebuilds := by
    decide +kernel
  obtain ⟨first, second, stays⟩ := rebuilds
  have split : [fourth, fifth, sixth, seventh] =
      [] ++ fourth :: ([fifth, sixth] ++ seventh :: []) := rfl
  have apart := rebuilds_far_apart reachable history split first second stays
  exact ⟨reachable, history, first, second, stays, apart.1⟩

/-- The most entries that a deed of these left. -/
def most (deeds : List (Deed K V)) : Nat := (deeds.map fun deed => deed.after.1.count).foldr max 0

theorem most_cons (deed : Deed K V) (deeds : List (Deed K V)) :
    most (deed :: deeds) = max deed.after.1.count (most deeds) := rfl

/-- The buckets are those of the beginning, or fewer than four for each of so many entries and one. -/
def Bounded (initial entries : Nat) (dictionary : Dictionary K V) : Prop :=
  dictionary.capacity = initial ∨ dictionary.capacity < 4 * (entries + 1)

theorem Changes.capacity {after : Dictionary K V} {rebuilds : Prop} {added : Nat}
    (changes : dictionary.Changes rebuilds added after) :
    after.capacity = dictionary.capacity ∨
      after.capacity = 2 * dictionary.capacity ∧ dictionary.capacity < 2 * (dictionary.count + 1) := by
  by_cases does : rebuilds
  · rw [(changes.renews does).capacity, nextCapacity]
    split <;> omega
  · exact .inl (changes.fills does).capacity

/-- No request leaves fewer buckets, and one that doubles them does so for the entries that there
are. -/
theorem Changes.bounded {after : Dictionary K V} {rebuilds : Prop} {added initial entries : Nat}
    (changes : dictionary.Changes rebuilds added after) (enough : dictionary.count ≤ entries)
    (bounded : dictionary.Bounded initial entries) :
    dictionary.capacity ≤ after.capacity ∧ after.Bounded initial entries := by
  unfold Bounded at bounded ⊢
  rcases changes.capacity with same | ⟨doubled, full⟩
  · omega
  · omega

theorem History.bounded {initial entries : Nat} {earlier later : List (Deed K V)}
    (history : History state (earlier ++ deed :: later)) (sound : state.1.SoundIn state.2)
    (enough : state.1.count ≤ entries) (bounded : state.1.Bounded initial entries) :
    deed.after.1.Bounded initial (max entries (most (earlier ++ [deed]))) := by
  induction earlier generalizing state entries with
  | nil =>
      cases history with
      | deed aside done rest =>
          have before := sound.aside aside
          rw [← aside.1] at enough bounded
          have after := ((done.changes before).bounded enough bounded).2
          unfold Bounded at after ⊢
          omega
  | cons first earlier ih =>
      cases history with
      | deed aside done rest =>
          have before := sound.aside aside
          rw [← aside.1] at enough bounded
          have after := ((done.changes before).bounded enough bounded).2
          have most : first.after.1.count ≤ max entries first.after.1.count := Nat.le_max_right _ _
          rw [List.cons_append, most_cons, ← Nat.max_assoc]
          apply ih rest (done.sound before) most
          unfold Bounded at after ⊢
          omega

theorem History.grows (history : History state deeds) (sound : state.1.SoundIn state.2) :
    (state.1.capacity :: deeds.map fun deed => deed.after.1.capacity).Pairwise (· ≤ ·) := by
  induction history with
  | ended => exact List.pairwise_singleton _ _
  | @deed state deed later aside done rest ih =>
      have before := sound.aside aside
      have sorted := ih (done.sound before)
      have first : state.1.capacity ≤ deed.after.1.capacity := by
        rw [← aside.1]
        rcases (done.changes before).capacity with same | ⟨doubled, -⟩ <;> omega
      refine List.pairwise_cons.mpr ⟨?_, sorted⟩
      intro capacity member
      rcases List.mem_cons.mp member with rfl | member
      · exact first
      · exact Nat.le_trans first (List.rel_of_pairwise_cons sorted member)

theorem create_capacity (manager : Manager) (requested : Nat) (rule : KeyRule K) (node : Layout) :
    Ends (create manager requested rule node : Action Process (Dictionary K V)) process
      (fun dictionary _ => bucketCount requested = .ok dictionary.capacity) fun _ _ => True := by
  rw [create]
  refine Ends.after fun _ process => ?_
  rw [Action.ends_bind, Action.ends_liftFault]
  cases counted : bucketCount requested with
  | error fault => trivial
  | ok capacity =>
      dsimp only
      rw [BucketArray.create, bind_assoc]
      refine Ends.after fun block _ => ?_
      rw [pure_bind]
      refine Ends.after fun _ _ => ?_
      show Except.ok capacity = .ok (Array.replicate capacity Bucket.empty).size
      rw [Array.size_replicate]

/-- The buckets keep up with the entries, not with the requests: whatever is set and taken out of
a new dictionary, it has as many buckets as in the beginning, or fewer than four for each entry of the
time when there were most of them, and one. Their number never goes down. -/
theorem capacity_bounded {manager : Manager} {requested : Nat} {rule : KeyRule K} {node : Layout}
    {start : Process} (memory : process.Sound) (consistent : rule.Consistent)
    (align : isPowerOfTwo node.align = true)
    (created : (create manager requested rule node).runFrom process = (.ok dictionary, start))
    (history : History (dictionary, start) deeds) :
    bucketCount requested = .ok dictionary.capacity ∧
      (dictionary.capacity :: deeds.map fun deed => deed.after.1.capacity).Pairwise (· ≤ ·) ∧
      ∀ earlier deed later, deeds = earlier ++ deed :: later →
        deed.after.1.capacity = dictionary.capacity ∨
          deed.after.1.capacity < 4 * (most (earlier ++ [deed]) + 1) := by
  obtain ⟨sound, -, -, content⟩ := (create_ends requested memory consistent align).of_ok created
  have empty : dictionary.count = 0 := by
    rw [← sound.valid.length_toList, content]
    rfl
  have counted := (create_capacity manager requested rule node).of_ok created
  refine ⟨counted, history.grows sound, ?_⟩
  intro earlier deed later split
  rw [split] at history
  have small : dictionary.Bounded dictionary.capacity 0 := .inl rfl
  have bounded := history.bounded sound (Nat.le_of_eq empty) small
  rwa [Nat.zero_max] at bounded

/-- Keys that come and go, and then three at once. -/
theorem capacity_bounded_sample :
    let start := sample 5000
    let deeds := deedsFrom
      [.set 1 0, .remove 1, .set 2 0, .remove 2, .set 3 0, .set 4 0, .remove 3, .set 5 0, .set 6 0]
      start
    (create ⟨0⟩ 4 sampleRule ⟨128, 8⟩).runFrom (limited 5000) = (.ok start.1, start.2) ∧
      History start deeds ∧ deeds.map (fun deed => deed.after.1.capacity) = [4, 4, 4, 4, 4, 4, 4, 4, 8] ∧
      bucketCount 4 = .ok start.1.capacity ∧
      ∀ earlier deed later, deeds = earlier ++ deed :: later →
        deed.after.1.capacity = start.1.capacity ∨
          deed.after.1.capacity < 4 * (most (earlier ++ [deed]) + 1) := by
  intro start deeds
  have consistent : sampleRule.Consistent := KeyRule.consistent_byContent _
  have sound := (Reachable.made roomy_sound consistent rfl roomy_created).sound
  have history : History start deeds := .of_requests _ sound
  have capacities : deeds.map (fun deed => deed.after.1.capacity) = [4, 4, 4, 4, 4, 4, 4, 4, 8] := by
    decide +kernel
  obtain ⟨counted, -, bounded⟩ :=
    capacity_bounded roomy_sound consistent rfl roomy_created history
  exact ⟨roomy_created, history, capacities, counted, bounded⟩

end Dictionary

end SymbolStore
