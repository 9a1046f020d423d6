import Mathlib.Algebra.GroupWithZero.Nat

/-! # Pieces of a list

Cutting a list at a separator with `List.splitOn` leaves pieces without it.  Here they are counted and
measured, and the first of them is told from the start of the list.
-/

namespace EditorSettings

section

variable {α : Type} [BEq α] {sep : α} {xs piece : List α}

theorem length_splitOn (sep : α) (xs : List α) : (xs.splitOn sep).length = xs.count sep + 1 := by
  induction xs with
  | nil => rfl
  | cons c xs ih =>
    rw [List.splitOn_cons_eq_if_modifyHead, List.count_cons]
    split
    · rw [List.length_cons, ih]
    · rw [List.length_modifyHead, ih]

/-- Each piece has a separator after it, but the last one. -/
theorem sum_length_splitOn (sep : α) (xs : List α) :
    ((xs.splitOn sep).map fun piece => piece.length + 1).sum = xs.length + 1 := by
  induction xs with
  | nil => rfl
  | cons c xs ih =>
    rw [List.splitOn_cons_eq_if_modifyHead, List.length_cons]
    split
    · rw [List.map_cons, List.sum_cons, ih, List.length_nil]
      omega
    · obtain ⟨first, rest, cut⟩ := List.exists_cons_of_ne_nil (List.splitOn_ne_nil sep xs)
      rw [cut, List.map_cons, List.sum_cons] at ih
      rw [cut, List.modifyHead_cons, List.map_cons, List.sum_cons, List.length_cons]
      omega

theorem length_le_of_mem_splitOn (h : piece ∈ xs.splitOn sep) : piece.length ≤ xs.length := by
  have total := sum_length_splitOn sep xs
  obtain ⟨before, after, whole⟩ := List.append_of_mem h
  rw [whole, List.map_append, List.sum_append, List.map_cons, List.sum_cons] at total
  omega

variable [LawfulBEq α]

theorem not_mem_of_mem_splitOn (h : piece ∈ xs.splitOn sep) : sep ∉ piece := by
  induction xs generalizing piece with
  | nil =>
    rw [List.splitOn_nil, List.mem_singleton] at h
    subst h
    exact List.not_mem_nil
  | cons c xs ih =>
    rw [List.splitOn_cons_eq_if_modifyHead] at h
    split at h
    · rcases List.mem_cons.1 h with rfl | h
      · exact List.not_mem_nil
      · exact ih h
    next other =>
      obtain ⟨first, rest, cut⟩ := List.exists_cons_of_ne_nil (List.splitOn_ne_nil sep xs)
      rw [cut] at h ih
      rcases List.mem_cons.1 h with rfl | h
      · -- the first piece has grown by an element that is no separator
        rw [List.mem_cons, not_or]
        exact ⟨fun same => other (beq_iff_eq.2 same.symm), ih List.mem_cons_self⟩
      · exact ih (List.mem_cons_of_mem first h)

/-- What is put in front of a list becomes part of its first piece. -/
theorem splitOn_append_of_not_mem (free : sep ∉ piece) (xs : List α) :
    (piece ++ xs).splitOn sep = (xs.splitOn sep).modifyHead (piece ++ ·) := by
  obtain ⟨first, rest, cut⟩ := List.exists_cons_of_ne_nil (List.splitOn_ne_nil sep xs)
  induction piece with
  | nil => rw [List.nil_append, cut]; rfl
  | cons c piece ih =>
    rw [List.mem_cons, not_or] at free
    have other : ¬ (c == sep) = true := fun same => free.1 (beq_iff_eq.1 same).symm
    rw [List.cons_append, List.splitOn_cons_eq_if_modifyHead, if_neg other, ih free.2, cut]
    rfl

theorem head?_of_splitOn {x : α} {first : List α} {rest : List (List α)}
    (cut : xs.splitOn sep = first :: rest) (h : first.head? = some x) : xs.head? = some x := by
  have whole : [sep].intercalate (xs.splitOn sep) = xs := List.intercalate_splitOn sep
  rw [← whole, cut]
  cases rest with
  | nil => rwa [List.intercalate_singleton]
  | cons second rest =>
    rw [List.intercalate_cons_cons, List.append_assoc, List.head?_append, h, Option.some_or]

end

theorem not_mem_intercalate {α : Type} {x sep : α} {pieces : List (List α)} (other : x ≠ sep)
    (free : ∀ p ∈ pieces, x ∉ p) : x ∉ [sep].intercalate pieces := by
  induction pieces with
  | nil => exact List.not_mem_nil
  | cons p pieces ih =>
    obtain ⟨here, later⟩ := List.forall_mem_cons.1 free
    cases pieces with
    | nil => rwa [List.intercalate_singleton]
    | cons q pieces =>
      rw [List.intercalate_cons_cons, List.mem_append, List.mem_append, List.mem_singleton, not_or, not_or]
      exact ⟨⟨here, other⟩, ih later⟩

end EditorSettings
