import Mathlib.Data.List.Basic

/-! # Lists without repetitions

`List.eraseDups` keeps the first of the equal members of a list.
-/

namespace EditorSettings

section Repetition

variable {α : Type} [BEq α] [LawfulBEq α]

theorem nodup_eraseDups (xs : List α) : xs.eraseDups.Nodup := by
  cases xs with
  | nil => exact List.nodup_nil
  | cons x xs =>
    rw [List.eraseDups_cons, List.nodup_cons]
    constructor
    · intro again
      have kept := (List.mem_filter.1 (List.mem_eraseDups.1 again)).2
      simp at kept
    · exact nodup_eraseDups _
termination_by xs.length
decreasing_by
  have shorter := List.length_filter_le (fun y => !y == x) xs
  simp only [List.length_cons]
  omega

theorem eraseDups_of_nodup {xs : List α} (h : xs.Nodup) : xs.eraseDups = xs := by
  induction xs with
  | nil => rfl
  | cons x xs ih =>
    obtain ⟨new, later⟩ := List.nodup_cons.1 h
    have kept : xs.filter (fun y => !y == x) = xs := by
      apply List.filter_eq_self.2
      intro y member
      have other : y ≠ x := fun same => new (same ▸ member)
      simpa using other
    rw [List.eraseDups_cons, kept, ih later]

theorem eraseDups_concat_of_mem {xs : List α} {x : α} (h : x ∈ xs) :
    (xs ++ [x]).eraseDups = xs.eraseDups := by
  have none : [x].removeAll xs = [] := by
    simp [List.removeAll, h]
  rw [List.eraseDups_append, none, List.eraseDups_nil, List.append_nil]

theorem eraseDups_concat_of_not_mem {xs : List α} {x : α} (h : x ∉ xs) :
    (xs ++ [x]).eraseDups = xs.eraseDups ++ [x] := by
  have one : [x].removeAll xs = [x] := by
    simp [List.removeAll, h]
  rw [List.eraseDups_append, one, List.eraseDups_cons]
  rfl

end Repetition

end EditorSettings
