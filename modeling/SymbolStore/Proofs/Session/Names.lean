import Mathlib.Data.Multiset.MapFold
import SymbolStore.Session.Basic

/-! The objects of a kind that a session has named, as a multiset. -/

namespace SymbolStore

namespace Names

variable {α : Type} {names : Names α} {name : String} {object : α}

def objects (names : Names α) : Multiset α := names.values

theorem values_eq (names : Names α) : names.values = names.toList.map Prod.snd := by
  show Std.DTreeMap.Internal.Impl.values _ = (Std.DTreeMap.Internal.Impl.Const.toList _).map _
  rw [Std.DTreeMap.Internal.Impl.values_eq_map_snd,
    Std.DTreeMap.Internal.Impl.Const.toList_eq_toListModel_map, List.map_map]
  rfl

theorem nodup_toList (names : Names α) : names.toList.Nodup := by
  apply List.Nodup.of_map Prod.fst
  rw [Std.TreeMap.map_fst_toList_eq_keys]
  exact Std.TreeMap.nodup_keys

theorem objects_eq (names : Names α) :
    names.objects = (names.toList : Multiset (String × α)).map Prod.snd := by
  rw [objects, values_eq, Multiset.map_coe]

theorem mem_objects : object ∈ names.objects ↔ ∃ name : String, names[name]? = some object := by
  rw [objects_eq, Multiset.mem_map]
  constructor
  · intro member
    obtain ⟨⟨name, other⟩, listed, rfl⟩ := member
    exact ⟨name, Std.TreeMap.mem_toList_iff_getElem?_eq_some.mp listed⟩
  · intro named
    obtain ⟨name, there⟩ := named
    exact ⟨(name, object), Std.TreeMap.mem_toList_iff_getElem?_eq_some.mpr there, rfl⟩

theorem mem_toList {names : Names α} {entry : String × α} :
    entry ∈ (names.toList : Multiset (String × α)) ↔ names[entry.1]? = some entry.2 :=
  Std.TreeMap.mem_toList_iff_getElem?_eq_some

theorem getElem?_insert (names : Names α) (name : String) (object : α) (other : String) :
    (names.insert name object)[other]? = if name = other then some object else names[other]? := by
  rw [Std.TreeMap.getElem?_insert]
  by_cases same : name = other
  · rw [if_pos same, if_pos (Std.LawfulEqCmp.compare_eq_iff_eq.mpr same)]
  · rw [if_neg same, if_neg fun equal => same (Std.LawfulEqCmp.compare_eq_iff_eq.mp equal)]

theorem getElem?_erase (names : Names α) (name other : String) :
    (names.erase name)[other]? = if name = other then none else names[other]? := by
  rw [Std.TreeMap.getElem?_erase]
  by_cases same : name = other
  · rw [if_pos same, if_pos (Std.LawfulEqCmp.compare_eq_iff_eq.mpr same)]
  · rw [if_neg same, if_neg fun equal => same (Std.LawfulEqCmp.compare_eq_iff_eq.mp equal)]

theorem objects_of_named (named : names[name]? = some object) :
    names.objects = object ::ₘ objects (names.erase name) := by
  have split : (names.toList : Multiset (String × α)) =
      (name, object) ::ₘ ((names.erase name).toList : Multiset (String × α)) := by
    apply (Multiset.Nodup.ext (Multiset.coe_nodup.mpr names.nodup_toList) ?_).mpr
    · intro entry
      rw [Multiset.mem_cons, mem_toList, mem_toList, getElem?_erase]
      by_cases same : name = entry.1
      · rw [if_pos same, ← same, named, Option.some.injEq]
        constructor
        · intro equal
          exact .inl (Prod.ext same.symm equal.symm)
        · intro equal
          rcases equal with equal | none
          · rw [equal]
          · cases none
      · rw [if_neg same]
        constructor
        · exact .inr
        · intro either
          rcases either with rfl | there
          · exact absurd rfl same
          · exact there
    · rw [Multiset.nodup_cons, mem_toList, getElem?_erase, if_pos rfl]
      exact ⟨nofun, Multiset.coe_nodup.mpr (nodup_toList _)⟩
  rw [objects_eq, split, Multiset.map_cons, ← objects_eq]

theorem objects_congr {others : Names α}
    (same : ∀ name : String, names[name]? = others[name]?) : names.objects = others.objects := by
  have lists : (names.toList : Multiset (String × α)) = others.toList := by
    apply (Multiset.Nodup.ext (Multiset.coe_nodup.mpr names.nodup_toList)
      (Multiset.coe_nodup.mpr others.nodup_toList)).mpr
    intro entry
    rw [mem_toList, mem_toList, same]
  rw [objects_eq, lists, ← objects_eq]

theorem objects_insert (names : Names α) (name : String) (object : α) :
    objects (names.insert name object) = object ::ₘ objects (names.erase name) := by
  have named : (names.insert name object)[name]? = some object := by
    rw [getElem?_insert, if_pos rfl]
  rw [objects_of_named named]
  congr 1
  apply objects_congr
  intro other
  rw [getElem?_erase, getElem?_erase, getElem?_insert]
  split <;> rfl

theorem objects_erase_of_unnamed (unnamed : names[name]? = none) :
    objects (names.erase name) = names.objects := by
  apply objects_congr
  intro other
  rw [getElem?_erase]
  split
  · rename_i same
    rw [← same, unnamed]
  · rfl

theorem objects_empty : ({} : Names α).objects = 0 := by
  apply Multiset.eq_zero_of_forall_notMem
  intro object member
  obtain ⟨name, named⟩ := mem_objects.mp member
  rw [Std.TreeMap.getElem?_emptyc] at named
  cases named

end Names

end SymbolStore
