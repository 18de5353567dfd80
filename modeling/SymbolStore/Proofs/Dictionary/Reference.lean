import Mathlib.Data.List.Basic
import SymbolStore.Dictionary.KeyRule

/-!
What a dictionary stands for: a list of keys with their values in which no two keys are the same.
The key of an entry is the one that was stored first.
-/

namespace SymbolStore

/-- What the caller promises of a rule: sameness is an equivalence, and keys that are the same have
the same hash. -/
structure KeyRule.Consistent {K : Type} (rule : KeyRule K) : Prop where
  refl : ∀ key, rule.same key key = true
  symm : ∀ a b, rule.same a b = true → rule.same b a = true
  trans : ∀ a b c, rule.same a b = true → rule.same b c = true → rule.same a c = true
  hash : ∀ a b, rule.same a b = true → rule.hash a = rule.hash b

theorem KeyRule.Consistent.comm {K : Type} {rule : KeyRule K} (consistent : rule.Consistent)
    (a b : K) : rule.same a b = rule.same b a :=
  Bool.eq_iff_iff.mpr ⟨consistent.symm a b, consistent.symm b a⟩

theorem KeyRule.consistent_byContent {K : Type} [DecidableEq K] (feeds : K → List Feed) :
    (KeyRule.byContent feeds).Consistent where
  refl key := by simp [byContent]
  symm a b equal := by simpa [byContent, eq_comm] using equal
  trans a b c first second := by
    simp only [byContent, decide_eq_true_eq] at first second ⊢
    exact first.trans second
  hash a b equal := by
    simp only [byContent, decide_eq_true_eq] at equal
    rw [equal]

theorem KeyRule.consistent_byAddress {K : Type} (address : K → Nat) :
    (KeyRule.byAddress address).Consistent where
  refl key := by simp [byAddress]
  symm a b equal := by simpa [byAddress, eq_comm] using equal
  trans a b c first second := by
    simp only [byAddress, decide_eq_true_eq] at first second ⊢
    exact first.trans second
  hash a b equal := by
    simp only [byAddress, decide_eq_true_eq] at equal
    simp only [byAddress, equal]

namespace Dictionary

variable {K V : Type} (rule : KeyRule K)

def lookup (entries : List (K × V)) (key : K) : Option V :=
  (entries.find? fun entry => rule.same entry.1 key).map Prod.snd

def alter (key : K) (f : V → V) (entries : List (K × V)) : List (K × V) :=
  entries.map fun entry => if rule.same entry.1 key then (entry.1, f entry.2) else entry

def without (key : K) (entries : List (K × V)) : List (K × V) :=
  entries.filter fun entry => !rule.same entry.1 key

def put (key : K) (value : V) (entries : List (K × V)) : List (K × V) :=
  match lookup rule entries key with
  | some _ => alter rule key (fun _ => value) entries
  | none => entries ++ [(key, value)]

/-- No two entries have the same key. -/
def Distinct (entries : List (K × V)) : Prop :=
  entries.Pairwise fun first second => rule.same first.1 second.1 = false

variable {rule} {entries others front back : List (K × V)} {key : K} {entry : K × V}

theorem distinct_perm (consistent : rule.Consistent) (perm : entries.Perm others)
    (distinct : Distinct rule entries) : Distinct rule others := by
  apply perm.pairwise distinct
  intro first second different
  rwa [consistent.comm]

theorem lookup_eq_none :
    lookup rule entries key = none ↔ ∀ entry ∈ entries, rule.same entry.1 key = false := by
  simp [lookup, List.find?_eq_none]

/-- In a list with an entry for the key, the entry decides what is found. -/
theorem lookup_split (consistent : rule.Consistent)
    (distinct : Distinct rule (front ++ [entry] ++ back))
    (same : rule.same entry.1 key = true) :
    (∀ other ∈ front ++ back, rule.same other.1 key = false) ∧
      lookup rule (front ++ [entry] ++ back) key = some entry.2 := by
  have apart : ∀ other ∈ front ++ back, rule.same entry.1 other.1 = false := by
    have perm : (front ++ [entry] ++ back).Perm (entry :: (front ++ back)) := by simp
    exact (List.pairwise_cons.mp (distinct_perm consistent perm distinct)).1
  have others : ∀ other ∈ front ++ back, rule.same other.1 key = false := by
    intro other member
    cases hit : rule.same other.1 key with
    | false => rfl
    | true =>
        have linked := consistent.trans _ _ _ same (consistent.symm _ _ hit)
        rw [apart other member] at linked
        cases linked
  refine ⟨others, ?_⟩
  have missed : front.find? (fun other => rule.same other.1 key) = none := by
    rw [List.find?_eq_none]
    intro other member
    simp [others other (List.mem_append_left _ member)]
  simp [lookup, List.find?_append, missed, same]

theorem lookup_perm (consistent : rule.Consistent) (perm : entries.Perm others)
    (distinct : Distinct rule entries) : lookup rule entries key = lookup rule others key := by
  by_cases absent : ∀ entry ∈ entries, rule.same entry.1 key = false
  · rw [lookup_eq_none.mpr absent, eq_comm, lookup_eq_none]
    intro entry member
    exact absent entry (perm.mem_iff.mpr member)
  · simp only [not_forall, Bool.not_eq_false] at absent
    rcases absent with ⟨entry, member, same⟩
    obtain ⟨front, back, rfl⟩ := List.append_of_mem member
    obtain ⟨front', back', rfl⟩ := List.append_of_mem (perm.mem_iff.mp member)
    have here := distinct
    have there := distinct_perm consistent perm distinct
    rw [← List.singleton_append, ← List.append_assoc] at here there
    have first := (lookup_split consistent here same).2
    have second := (lookup_split consistent there same).2
    simp only [List.append_assoc, List.singleton_append] at first second
    rw [first, second]

theorem alter_of_absent (absent : ∀ entry ∈ entries, rule.same entry.1 key = false) (f : V → V) :
    alter rule key f entries = entries := by
  rw [alter, List.map_congr_left (g := id), List.map_id]
  intro entry member
  simp [absent entry member]

theorem without_of_absent (absent : ∀ entry ∈ entries, rule.same entry.1 key = false) :
    without rule key entries = entries := by
  rw [without, List.filter_eq_self]
  intro entry member
  simp [absent entry member]

section Split

variable (entry) (apart : ∀ other ∈ front ++ back, rule.same other.1 key = false)
  (same : rule.same entry.1 key = true)
include apart same

theorem alter_split (f : V → V) :
    alter rule key f (front ++ [entry] ++ back) = front ++ [(entry.1, f entry.2)] ++ back := by
  have before : alter rule key f front = front :=
    alter_of_absent (fun other member => apart other (List.mem_append_left _ member)) f
  have behind : alter rule key f back = back :=
    alter_of_absent (fun other member => apart other (List.mem_append_right _ member)) f
  simp only [alter] at before behind
  simp [alter, before, behind, same]

theorem without_split : without rule key (front ++ [entry] ++ back) = front ++ back := by
  have before : without rule key front = front :=
    without_of_absent fun other member => apart other (List.mem_append_left _ member)
  have behind : without rule key back = back :=
    without_of_absent fun other member => apart other (List.mem_append_right _ member)
  simp only [without] at before behind
  simp [without, before, behind, same]

end Split

end Dictionary

end SymbolStore
