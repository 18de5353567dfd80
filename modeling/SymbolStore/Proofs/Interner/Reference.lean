import Mathlib.Data.List.Nodup
import SymbolStore.Interner.Basic

/-!
What an interner stands for: a list of strings, each with its symbol and its value. No two of them
are the same string or have the same symbol.
-/

namespace SymbolStore

section Unique

variable {α β : Type} [DecidableEq β] {f : α → β} {l others : List α} {a : α}

theorem find?_of_mem (distinct : (l.map f).Nodup) (member : a ∈ l) :
    l.find? (fun other => f other = f a) = some a := by
  cases found : l.find? (fun other => f other = f a) with
  | none => simpa using List.find?_eq_none.mp found a member
  | some other =>
      have same : f other = f a := by simpa using List.find?_some found
      rw [List.inj_on_of_nodup_map distinct (List.mem_of_find?_eq_some found) member same]

theorem find?_of_perm (perm : l.Perm others) (distinct : (l.map f).Nodup) (key : β) :
    l.find? (fun other => f other = key) = others.find? fun other => f other = key := by
  cases found : others.find? fun other => f other = key with
  | none =>
      rw [List.find?_eq_none] at found ⊢
      exact fun other member => found other (perm.mem_iff.mp member)
  | some a =>
      have same : f a = key := by simpa using List.find?_some found
      rw [← same]
      exact find?_of_mem distinct (perm.mem_iff.mpr (List.mem_of_find?_eq_some found))

end Unique

namespace Interner

abbrev Record := Symbol × List UInt8 × List UInt8

def holding (records : List Record) (content : List UInt8) : Option Record :=
  records.find? fun record => record.2.1 = content

def behind (records : List Record) (symbol : Symbol) : Option Record :=
  records.find? fun record => record.1 = symbol

/-- Puts a string in, with the symbol `fresh` if it is new: its symbol and whether it is new, and the
records that there are then. -/
def put (fresh : Symbol) (content value : List UInt8) (records : List Record) :
    (Symbol × Bool) × List Record :=
  match holding records content with
  | some record => ((record.1, false), records)
  | none => ((fresh, true), records ++ [(fresh, content, value)])

def revalue (symbol : Symbol) (value : List UInt8) (records : List Record) : List Record :=
  records.map fun record =>
    if record.1 = symbol then (record.1, record.2.1, value) else record

/-- No two records have the same symbol or the same bytes. -/
structure Distinct (records : List Record) : Prop where
  symbols : (records.map Prod.fst).Nodup
  contents : (records.map fun record => record.2.1).Nodup

variable {records others : List Record} {record : Record} {content : List UInt8} {symbol : Symbol}

theorem Distinct.perm (distinct : Distinct records) (perm : records.Perm others) :
    Distinct others :=
  ⟨(perm.map _).nodup_iff.mp distinct.symbols, (perm.map _).nodup_iff.mp distinct.contents⟩

theorem Distinct.holding_of_mem (distinct : Distinct records) (member : record ∈ records) :
    holding records record.2.1 = some record :=
  find?_of_mem distinct.contents member

theorem Distinct.behind_of_mem (distinct : Distinct records) (member : record ∈ records) :
    behind records record.1 = some record :=
  find?_of_mem distinct.symbols member

theorem holding_eq_none :
    holding records content = none ↔ ∀ record ∈ records, record.2.1 ≠ content := by
  simp [holding, List.find?_eq_none]

theorem behind_eq_none :
    behind records symbol = none ↔ ∀ record ∈ records, record.1 ≠ symbol := by
  simp [behind, List.find?_eq_none]

theorem Distinct.holding_perm (distinct : Distinct records) (perm : records.Perm others)
    (content : List UInt8) : holding records content = holding others content :=
  find?_of_perm perm distinct.contents content

theorem Distinct.behind_perm (distinct : Distinct records) (perm : records.Perm others)
    (symbol : Symbol) : behind records symbol = behind others symbol :=
  find?_of_perm perm distinct.symbols symbol

theorem revalue_of_absent {value : List UInt8} (absent : behind records symbol = none) :
    revalue symbol value records = records := by
  rw [revalue, List.map_congr_left (g := id), List.map_id]
  intro record member
  rw [if_neg (behind_eq_none.mp absent record member)]
  rfl

theorem put_symbols (records : List Record) (fresh : Symbol) (content value : List UInt8) :
    records.map Prod.fst ⊆ (put fresh content value records).2.map Prod.fst ∧
      (put fresh content value records).1.1 ∈ (put fresh content value records).2.map Prod.fst := by
  cases held : holding records content with
  | some record =>
      simp only [put, held]
      exact ⟨List.Subset.refl _, List.mem_map_of_mem (List.mem_of_find?_eq_some held)⟩
  | none =>
      simp only [put, held, List.map_append]
      exact ⟨List.subset_append_left _ _, List.mem_append_right _ List.mem_cons_self⟩

theorem revalue_symbols (symbol : Symbol) (value : List UInt8) :
    (revalue symbol value records).map Prod.fst = records.map Prod.fst := by
  rw [revalue, List.map_map]
  refine List.map_congr_left fun record _ => ?_
  rw [Function.comp]
  split <;> rfl

theorem put_perm (distinct : Distinct records) (perm : records.Perm others) (fresh : Symbol)
    (content value : List UInt8) :
    (put fresh content value records).1 = (put fresh content value others).1 ∧
      (put fresh content value records).2.Perm (put fresh content value others).2 := by
  have same := distinct.holding_perm perm content
  cases held : holding others content with
  | some record =>
      rw [held] at same
      simp only [put, same, held]
      exact ⟨trivial, perm⟩
  | none =>
      rw [held] at same
      simp only [put, same, held]
      exact ⟨trivial, perm.append_right _⟩

end Interner

end SymbolStore
