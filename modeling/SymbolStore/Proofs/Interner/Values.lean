import SymbolStore.Proofs.Interner.Run

/-! Which value a request to an interner stores, and for which string. -/

namespace SymbolStore

open SymbolStore.Action (Ends)

namespace Interner

/-- The value that a request stores for a string. Strings that are there keep their value when they
are put in again. -/
def Request.stores (layout : Layout) (records : List Record) (content : List UInt8) :
    Request → Option (List UInt8)
  | insert other value =>
    if other = content ∧ holding records content = none then some (layout.fit value) else none
  | intern text default =>
    if text.toUTF8.toList = content ∧ holding records content = none then some (layout.fit default)
    else none
  | setValue symbol value =>
    if (behind records symbol).map (fun record => record.2.1) = some content then
      some (layout.fit value)
    else none
  | _ => none

variable {records : List Record} {record : Record} {layout : Layout} {fresh : Symbol}
  {request : Request}

theorem put_keeps (content value : List UInt8) (member : record ∈ records) :
    record ∈ (put fresh content value records).2 := by
  rw [put]
  cases holding records content with
  | some _ => exact member
  | none => exact List.mem_append_left _ member

theorem put_listed (records : List Record) (fresh : Symbol) (content value : List UInt8) :
    ∃ stored, ((put fresh content value records).1.1, content, stored) ∈
      (put fresh content value records).2 := by
  rw [put]
  cases held : holding records content with
  | some record =>
      have same : record.2.1 = content := by simpa using List.find?_some held
      exact ⟨record.2.2, same ▸ List.mem_of_find?_eq_some held⟩
  | none => exact ⟨value, List.mem_append_right _ List.mem_cons_self⟩

theorem onMap_keeps (keeps : request.isClear = false) (member : record ∈ records) :
    ∃ value, (record.1, record.2.1, value) ∈ (request.onMap layout fresh records).2 := by
  cases request with
  | insert content value => exact ⟨record.2.2, put_keeps content _ member⟩
  | intern text default => exact ⟨record.2.2, put_keeps _ _ member⟩
  | setValue symbol value =>
      have changed := List.mem_map_of_mem (f := fun record : Record =>
        if record.1 = symbol then (record.1, record.2.1, layout.fit value) else record) member
      by_cases same : record.1 = symbol
      · rw [if_pos same] at changed
        exact ⟨layout.fit value, changed⟩
      · rw [if_neg same] at changed
        exact ⟨record.2.2, changed⟩
  | clear => cases keeps
  | _ => exact ⟨record.2.2, member⟩

theorem put_stores {content value : List UInt8} (distinct : Distinct records)
    (member : record ∈ (put fresh content value records).2) :
    (content = record.2.1 ∧ holding records record.2.1 = none ∧ record.2.2 = value) ∨
      ¬ (content = record.2.1 ∧ holding records record.2.1 = none) ∧ record ∈ records := by
  have old (there : record ∈ records) :
      ¬ (content = record.2.1 ∧ holding records record.2.1 = none) := by
    rw [distinct.holding_of_mem there]
    exact fun both => nomatch both.2
  rw [put] at member
  cases held : holding records content with
  | some _ =>
      rw [held] at member
      exact .inr ⟨old member, member⟩
  | none =>
      rw [held] at member
      rcases List.mem_append.mp member with there | new
      · exact .inr ⟨old there, there⟩
      · cases List.mem_singleton.mp new
        exact .inl ⟨rfl, held, rfl⟩

/-- The value of each record is the one that was stored, or it is as it was. -/
theorem onMap_stores (distinct : Distinct records) (keeps : request.isClear = false)
    (member : record ∈ (request.onMap layout fresh records).2) :
    request.stores layout records record.2.1 = some record.2.2 ∨
      request.stores layout records record.2.1 = none ∧ record ∈ records := by
  cases request with
  | insert content value | intern text value =>
      rcases put_stores distinct member with ⟨same, absent, stored⟩ | ⟨other, there⟩
      · rw [stored]
        exact .inl (if_pos ⟨same, absent⟩)
      · exact .inr ⟨if_neg other, there⟩
  | setValue symbol value =>
      obtain ⟨old, there, rfl⟩ := List.mem_map.mp member
      by_cases same : old.1 = symbol
      · rw [if_pos same]
        refine .inl (if_pos ?_)
        rw [← same, distinct.behind_of_mem there]
        rfl
      · rw [if_neg same]
        refine .inr ⟨if_neg ?_, there⟩
        intro others
        obtain ⟨other, found, content⟩ := Option.map_eq_some_iff.mp others
        have inside := List.mem_of_find?_eq_some found
        have equal := List.inj_on_of_nodup_map distinct.contents inside there content
        have symbols : other.1 = symbol := by simpa using List.find?_some found
        exact same (equal ▸ symbols)
  | clear => cases keeps
  | _ => exact .inr ⟨rfl, member⟩

theorem intern_ends {interner : Interner} {process : Process} (text : String)
    (default : List UInt8) (sound : interner.SoundIn process) :
    Ends (intern text default) (interner, process)
      (fun symbol after => ∃ fresh,
        symbol = (put fresh text.toUTF8.toList (interner.value.fit default)
          (interner.toList process.heap)).1.1 ∧
        interner.Continues interner.region.generation
          (put fresh text.toUTF8.toList (interner.value.fit default)
            (interner.toList process.heap)).2 after)
      fun failure after => holding (interner.toList process.heap) text.toUTF8.toList = none ∧
        interner.manager.Denies after.2 failure ∧
        interner.Continues interner.region.generation (interner.toList process.heap) after := by
  rw [intern, Action.ends_bind]
  apply (insert_ends text.toUTF8.toList default sound).mono ?_ fun _ _ failed => failed
  intro answer after ends
  obtain ⟨fresh, rfl, continues⟩ := ends
  exact ⟨fresh, rfl, continues⟩

/-- The symbol stands for this string, which has this value. -/
structure Resolves (interner : Interner) (heap : Heap) (symbol : Symbol)
    (content value : List UInt8) : Prop where
  bytes : interner.bytesOf heap symbol = some content
  text : interner.textOf heap symbol = String.fromUTF8? content.toByteArray
  value : interner.valueOf heap symbol = some value

/-- The symbol stands for nothing, and no value can be stored behind it. -/
structure Rejects (interner : Interner) (process : Process) (symbol : Symbol) : Prop where
  bytes : interner.bytesOf process.heap symbol = none
  text : interner.textOf process.heap symbol = none
  value : interner.valueOf process.heap symbol = none
  setValue : ∀ value, (setValue symbol value).runFrom (interner, process) =
    (.ok false, (interner, process))

variable {interner : Interner} {process : Process} {heap : Heap} {symbol : Symbol}

theorem resolves_of_mem (member : record ∈ interner.toList heap) :
    interner.Resolves heap record.1 record.2.1 record.2.2 := by
  obtain ⟨entry, -, rfl⟩ := List.mem_map.mp member
  have resolved : interner.resolve? (interner.symbol entry) = some entry :=
    resolve?_eq_some.mpr rfl
  constructor
  · rw [bytesOf, resolved]
    rfl
  · rw [textOf, bytesOf, resolved]
    rfl
  · rw [valueOf, resolved]
    rfl

theorem rejects_of_foreign (process : Process)
    (foreign : ¬ (symbol.interner = interner.region.id ∧
      symbol.generation = interner.region.generation)) : interner.Rejects process symbol := by
  have unresolved : interner.resolve? symbol = none := if_neg foreign
  have none : interner.bytesOf process.heap symbol = none := by
    rw [bytesOf, unresolved]
    rfl
  refine ⟨none, by rw [textOf, none]; rfl, by rw [valueOf, unresolved]; rfl, ?_⟩
  intro value
  have ends : Ends (Interner.setValue symbol value) (interner, process)
      (fun isGood after => isGood = false ∧ after = (interner, process)) fun _ _ => False := by
    rw [Interner.setValue, Action.ends_bind, Method.ends_self, unresolved]
    exact ⟨rfl, rfl⟩
  rcases ran : (Interner.setValue symbol value).runFrom (interner, process) with
    ⟨failure | isGood, after⟩
  · exact (ends.of_error ran).elim
  · obtain ⟨rfl, rfl⟩ := ends.of_ok ran
    rfl

end Interner

end SymbolStore
