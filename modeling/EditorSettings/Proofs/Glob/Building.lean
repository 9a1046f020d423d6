import Mathlib.Data.List.Chain
import EditorSettings.Glob.Compile
import EditorSettings.Proofs.Glob.Shape

/-! # Laws of building

A builder merges a node into the last one or appends it, and what it holds in the end depends on the
nodes alone, not on how they were grouped on the way.

* A program is `Apart` if no two neighbours of it would be merged.  Building keeps programs apart
  (`apart_push`) and only copies one that is apart (`extend_of_apart`);
* merging is associative, so appending what a builder has made of a node to a program is the same as
  appending the node (`extend_program_push`);
* what else is said of a push is read off `program_push`, the two things that it can do.
-/

namespace EditorSettings

/-- No two neighbours of a program would be merged. -/
abbrev Program.Apart (fuse : Bool) (p : Program) : Prop :=
  p.IsChain fun m n => Builder.merge? fuse m n = none

namespace Builder

theorem ofProgram_program (b : Builder) : ofProgram b.program = b := by
  simp [ofProgram, program]

theorem cases_program (b : Builder) : b = empty ∨ ∃ p last, b = ofProgram (p ++ [last]) := by
  obtain ⟨recent⟩ := b
  cases recent with
  | nil => exact .inl rfl
  | cons last older => exact .inr ⟨older.reverse, last, by simp [ofProgram]⟩

@[simp] theorem push_empty {fuse : Bool} {n : Node} : empty.push fuse n = ofProgram [n] := rfl

theorem push_of_merge? {fuse : Bool} {p : Program} {last n merged : Node}
    (h : merge? fuse last n = some merged) :
    (ofProgram (p ++ [last])).push fuse n = ofProgram (p ++ [merged]) := by
  simp [ofProgram, push, h]

theorem push_of_apart {fuse : Bool} {p : Program} {last n : Node}
    (h : merge? fuse last n = none) :
    (ofProgram (p ++ [last])).push fuse n = ofProgram (p ++ [last] ++ [n]) := by
  simp [ofProgram, push, h]

/-- A push appends the node, or replaces the last node by what the two are merged to. -/
theorem program_push (fuse : Bool) (b : Builder) (n : Node) :
    ((b.push fuse n).program = b.program ++ [n] ∧
        ∀ last ∈ b.program.getLast?, merge? fuse last n = none) ∨
      ∃ p last merged, b.program = p ++ [last] ∧ merge? fuse last n = some merged ∧
        (b.push fuse n).program = p ++ [merged] := by
  obtain rfl | ⟨p, last, rfl⟩ := b.cases_program
  · left
    simp
  · cases h : merge? fuse last n with
    | none =>
      left
      rw [push_of_apart h, program_ofProgram, program_ofProgram]
      simp [h]
    | some merged =>
      right
      rw [push_of_merge? h, program_ofProgram, program_ofProgram]
      exact ⟨p, last, merged, rfl, h, rfl⟩

/-! ## Merging -/

/-- Boundaries are always merged, literals and runs only when they may be. -/
theorem eq_of_merge? {fuse : Bool} {m n merged : Node} (h : merge? fuse m n = some merged) :
    (m = .boundary ∧ n = .boundary ∧ merged = .boundary) ∨
      (fuse = true ∧ ∃ s t, m = .atom (.literal s) ∧ n = .atom (.literal t) ∧
        merged = .atom (.literal (s ++ t))) ∨
      (fuse = true ∧ ∃ c d, m = .run c ∧ n = .run d ∧ merged = .run (c || d)) := by
  unfold merge? at h
  split at h
  · cases h
    exact .inl ⟨rfl, rfl, rfl⟩
  · split at h
    next on =>
      cases h
      exact .inr (.inl ⟨on, _, _, rfl, rfl, rfl⟩)
    · cases h
  · split at h
    next on =>
      cases h
      exact .inr (.inr ⟨on, _, _, rfl, rfl, rfl⟩)
    · cases h
  · cases h

theorem merge?_boundary {fuse : Bool} {n : Node} (other : n ≠ .boundary) :
    merge? fuse .boundary n = none := by
  cases merge : merge? fuse .boundary n with
  | none => rfl
  | some merged =>
    obtain ⟨_, here, _⟩ | ⟨_, _, _, absent, _⟩ | ⟨_, _, _, absent, _⟩ := eq_of_merge? merge
    · exact absurd here other
    · cases absent
    · cases absent

theorem merge?_assoc {fuse : Bool} {l m n lm mn : Node} (left : merge? fuse l m = some lm)
    (right : merge? fuse m n = some mn) : merge? fuse lm n = merge? fuse l mn := by
  rcases eq_of_merge? left with ⟨rfl, rfl, rfl⟩ | ⟨rfl, s, t, rfl, rfl, rfl⟩ |
    ⟨rfl, c, d, rfl, rfl, rfl⟩
  · obtain ⟨_, rfl, rfl⟩ | ⟨_, _, _, same, _⟩ | ⟨_, _, _, same, _⟩ := eq_of_merge? right
    · rfl
    · cases same
    · cases same
  · obtain ⟨same, _⟩ | ⟨_, _, u, same, rfl, rfl⟩ | ⟨_, _, _, same, _⟩ := eq_of_merge? right
    · cases same
    · cases same
      simp [merge?]
    · cases same
  · obtain ⟨same, _⟩ | ⟨_, _, _, same, _⟩ | ⟨_, _, e, same, rfl, rfl⟩ := eq_of_merge? right
    · cases same
    · cases same
    · cases same
      simp [merge?, Bool.or_assoc]

/-- What is made of a node and the next one meets its neighbours as the node does. -/
theorem merge?_merged_left {fuse : Bool} {l m n mn : Node} (right : merge? fuse m n = some mn) :
    merge? fuse l mn = none ↔ merge? fuse l m = none := by
  rcases eq_of_merge? right with ⟨rfl, rfl, rfl⟩ | ⟨rfl, s, t, rfl, rfl, rfl⟩ |
    ⟨rfl, c, d, rfl, rfl, rfl⟩
  · rfl
  · unfold merge?
    split <;> simp_all
  · unfold merge?
    split <;> simp_all

/-! ## Pushing -/

theorem push_push_of_merge? {fuse : Bool} {m n merged : Node} (b : Builder)
    (h : merge? fuse m n = some merged) : (b.push fuse m).push fuse n = b.push fuse merged := by
  obtain rfl | ⟨p, last, rfl⟩ := b.cases_program
  · exact push_of_merge? (p := []) h
  -- whether the last node takes the merged node or only its first part, the result is the same
  · cases first : merge? fuse last m with
    | none =>
      rw [push_of_apart first, push_of_merge? h, push_of_apart ((merge?_merged_left h).2 first)]
    | some joined =>
      have assoc := merge?_assoc first h
      rw [push_of_merge? first]
      cases second : merge? fuse last merged with
      | none => exact absurd ((merge?_merged_left h).1 second) (by simp [first])
      | some all =>
        rw [push_of_merge? second, push_of_merge? (assoc.trans second)]

theorem push_cons {fuse : Bool} {m n : Node} {rest : Program}
    (alone : rest = [] → merge? fuse m n = none) :
    (ofProgram (m :: rest)).push fuse n = ofProgram (m :: ((ofProgram rest).push fuse n).program) := by
  obtain rfl | ⟨older, last, rfl⟩ := List.eq_nil_or_concat rest
  · have apart := push_of_apart (p := []) (alone rfl)
    exact apart
  · rw [List.concat_eq_append, ← List.cons_append]
    cases h : merge? fuse last n with
    | none => rw [push_of_apart h, push_of_apart h, program_ofProgram]; rfl
    | some merged => rw [push_of_merge? h, push_of_merge? h, program_ofProgram]; rfl

/-- Appending what a builder has made of a node is appending the node. -/
theorem extend_program_push {fuse : Bool} (b c : Builder) (n : Node) :
    b.extend fuse (c.push fuse n).program = (b.extend fuse c.program).push fuse n := by
  obtain ⟨pushed, _⟩ | ⟨p, last, merged, whole, joined, pushed⟩ := program_push fuse c n
  · rw [pushed, extend_append]
    rfl
  -- the two that were merged in `c` are merged after `b` as well
  · rw [pushed, whole, extend_append, extend_append]
    exact (push_push_of_merge? _ joined).symm

theorem extend_of_apart {fuse : Bool} {p q : Program} (apart : Program.Apart fuse (p ++ q)) :
    (ofProgram p).extend fuse q = ofProgram (p ++ q) := by
  induction q generalizing p with
  | nil => simp
  | cons n q ih =>
    have pushed : (ofProgram p).push fuse n = ofProgram (p ++ [n]) := by
      obtain rfl | ⟨older, last, rfl⟩ := List.eq_nil_or_concat p
      · rfl
      · rw [List.concat_eq_append, List.append_assoc] at apart
        have next := (List.isChain_append.1 apart).2.1.rel_head? rfl
        rw [List.concat_eq_append]
        exact push_of_apart next
    rw [extend_cons, pushed, ih (by rwa [List.append_assoc]), List.append_assoc]
    rfl

theorem apart_push {fuse : Bool} {b : Builder} {n : Node} (h : Program.Apart fuse b.program) :
    Program.Apart fuse (b.push fuse n).program := by
  obtain ⟨pushed, apart⟩ | ⟨p, last, merged, whole, joined, pushed⟩ := program_push fuse b n
  · rw [pushed]
    refine h.append (List.isChain_singleton n) ?_
    intro x here y next
    rw [List.head?_cons, Option.mem_some_iff] at next
    exact next ▸ apart x here
  · rw [whole] at h
    rw [pushed]
    refine h.left_of_append.append (List.isChain_singleton merged) ?_
    intro x here y next
    rw [List.head?_cons, Option.mem_some_iff] at next
    subst next
    -- the merged node is apart from what the last node was apart from
    rw [merge?_merged_left joined]
    exact (List.isChain_append.1 h).2.2 x here last rfl

/-! ## What is said of every node -/

section Every

variable {P : Atom → Prop} {Q : List Program → Prop}

theorem every_merged {fuse : Bool} {m n merged : Node}
    (joins : ∀ s t, P (.literal s) → P (.literal t) → P (.literal (s ++ t)))
    (h : merge? fuse m n = some merged) (left : m.Every P Q) (right : n.Every P Q) :
    merged.Every P Q := by
  obtain ⟨rfl, _, rfl⟩ | ⟨_, s, t, rfl, rfl, rfl⟩ | ⟨_, c, d, _, _, rfl⟩ := eq_of_merge? h
  · exact left
  · exact .atom (joins s t (every_atom.1 left) (every_atom.1 right))
  · exact .run

theorem every_push {fuse : Bool} {b : Builder} {n : Node}
    (joins : ∀ s t, P (.literal s) → P (.literal t) → P (.literal (s ++ t)))
    (h : b.program.Every P Q) (next : n.Every P Q) : (b.push fuse n).program.Every P Q := by
  obtain ⟨pushed, _⟩ | ⟨p, last, merged, whole, joined, pushed⟩ := program_push fuse b n
  · rw [pushed, every_append]
    exact ⟨h, every_cons.2 ⟨next, every_nil⟩⟩
  · rw [whole, every_append, every_cons] at h
    obtain ⟨older, newest, _⟩ := h
    have one := every_merged joins joined newest next
    rw [pushed, every_append]
    exact ⟨older, every_cons.2 ⟨one, every_nil⟩⟩

end Every

end Builder

end EditorSettings
