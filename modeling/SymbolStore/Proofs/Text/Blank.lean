import Mathlib.Data.List.Basic
import Mathlib.Data.List.TakeWhile
import SymbolStore.Text.Blank

/-! What is left of a text without the blanks at its ends, and which texts spell a name. -/

namespace SymbolStore.Text

/-- What is left when elements are dropped from the front as long as they have a property. -/
theorem dropWhile_eq_iff {α : Type} (p : α → Bool) {list rest : List α} :
    list.dropWhile p = rest ↔ ∃ front, list = front ++ rest ∧ (∀ a ∈ front, p a = true) ∧
      ∀ a ∈ rest.head?, p a = false := by
  constructor
  · intro left
    subst left
    refine ⟨list.takeWhile p, List.takeWhile_append_dropWhile.symm, ?_, ?_⟩
    · intro a member
      exact List.mem_takeWhile_imp member
    · intro a first
      have stops := List.head?_dropWhile_not p list
      rw [Option.mem_def.mp first] at stops
      exact stops
  · intro parts
    obtain ⟨front, rfl, dropped, stops⟩ := parts
    rw [List.dropWhile_append_of_pos dropped]
    cases rest with
    | nil => rfl
    | cons a rest => simp [stops a rfl]

/-- A text is a core between blanks. The core neither starts nor ends with a blank. -/
structure Trims (text core : List Char) : Prop where
  between : ∃ before after, text = before ++ core ++ after ∧ (∀ c ∈ before, isBlank c = true) ∧
    ∀ c ∈ after, isBlank c = true
  first : ∀ c ∈ core.head?, isBlank c = false
  last : ∀ c ∈ core.getLast?, isBlank c = false

theorem trims_trimmed (text : List Char) : Trims text (trimmed text) := by
  obtain ⟨before, front, blankBefore, first⟩ := (dropWhile_eq_iff isBlank).mp
    (rfl : text.dropWhile isBlank = _)
  obtain ⟨after, behind, blankAfter, last⟩ := (dropWhile_eq_iff isBlank).mp
    (rfl : (text.dropWhile isBlank).reverse.dropWhile isBlank = _)
  have core : text.dropWhile isBlank = trimmed text ++ after.reverse := by
    rw [trimmed, ← List.reverse_append, ← behind, List.reverse_reverse]
  constructor
  · refine ⟨before, after.reverse, ?_, blankBefore, ?_⟩
    · rw [List.append_assoc, ← core, ← front]
    · intro c member
      exact blankAfter c (List.mem_reverse.mp member)
  · intro c member
    apply first
    rw [core]
    exact List.mem_head?_append_of_mem_head? member
  · intro c member
    rw [trimmed, List.getLast?_reverse] at member
    exact last c member

theorem trimmed_eq_iff {text core : List Char} : trimmed text = core ↔ Trims text core := by
  constructor
  · intro same
    exact same ▸ trims_trimmed text
  · intro trims
    obtain ⟨before, after, rfl, blankBefore, blankAfter⟩ := trims.between
    by_cases empty : core = []
    · have blank : ∀ c ∈ before ++ after, isBlank c = true := by
        intro c member
        rcases List.mem_append.mp member with member | member
        · exact blankBefore c member
        · exact blankAfter c member
      subst empty
      have nothing : (before ++ [] ++ after).dropWhile isBlank = [] :=
        (dropWhile_eq_iff isBlank).mpr ⟨before ++ after, by simp, blank, by simp⟩
      rw [trimmed, nothing]
      rfl
    · obtain ⟨c, rest, rfl⟩ := List.exists_cons_of_ne_nil empty
      have front : (before ++ c :: rest ++ after).dropWhile isBlank = c :: rest ++ after :=
        (dropWhile_eq_iff isBlank).mpr
          ⟨before, List.append_assoc _ _ _, blankBefore, trims.first⟩
      have behind : (c :: rest ++ after).reverse.dropWhile isBlank = (c :: rest).reverse := by
        apply (dropWhile_eq_iff isBlank).mpr
        refine ⟨after.reverse, List.reverse_append, ?_, ?_⟩
        · intro d member
          exact blankAfter d (List.mem_reverse.mp member)
        · rw [List.head?_reverse]
          exact trims.last
      rw [trimmed, front, behind, List.reverse_reverse]

/-- A text spells a name if the name stands in it between blanks, up to letter case. -/
def Spells (fold : Char → Char) (text name : String) : Prop :=
  ∃ core, Trims text.toList core ∧ core.map fold = name.toList

/-- To spell a name is to be equal to it once the blanks are taken off and letters are folded. -/
theorem spells_iff {fold : Char → Char} {text name : String} :
    Spells fold text name ↔ String.ofList ((trim text).toList.map fold) = name := by
  rw [trim, String.toList_ofList, ← String.toList_inj, String.toList_ofList]
  constructor
  · intro spells
    obtain ⟨core, trims, folded⟩ := spells
    rw [trimmed_eq_iff.mpr trims, folded]
  · intro folded
    exact ⟨_, trims_trimmed _, folded⟩

end SymbolStore.Text
