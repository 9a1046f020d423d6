import EditorSettings.Proofs.Glob.Compiled

/-! # Canonical programs

What a pattern compiles to is in a normal form: atoms say no less than they could, neighbours are
merged, branches come in order and only once, and the ends are seen to.  `Program.Regular` collects
what can be said node by node, and `Program.Canonical` adds that no boundary follows the root: the
pattern would have two slashes in front, and two boundaries in a row are one.
-/

namespace EditorSettings

/-- Both are boundaries, both are literals, or both are runs. -/
def Node.Alike : Node → Node → Prop
  | .atom .boundary, .atom .boundary => True
  | .atom (.literal _), .atom (.literal _) => True
  | .run _, .run _ => True
  | _, _ => False

theorem not_alike_iff {m n : Node} : ¬ m.Alike n ↔ Builder.merge? true m n = none := by
  unfold Node.Alike Builder.merge?
  split <;> simp_all

abbrev Program.Varied (p : Program) : Prop := p.IsChain fun m n => ¬ m.Alike n

theorem varied_iff {p : Program} : p.Varied ↔ p.Apart true :=
  ⟨fun h => h.imp fun _ _ => not_alike_iff.1, fun h => h.imp fun _ _ => not_alike_iff.2⟩

/-- There are branches, all different, the empty one comes first, and each of them is varied. -/
structure CanonicalBranches (branches : List Program) : Prop where
  ne_nil : branches ≠ []
  nodup : branches.Nodup
  empty_first : ∀ b ∈ branches.tail, b ≠ []
  varied : ∀ b ∈ branches, Program.Varied b

/-- A program that starts at a boundary or at the root, does not end in a boundary, and has canonical
atoms and branches at any depth.  After a boundary it has other nodes, and no other boundary. -/
structure Program.Regular (p : Program) : Prop where
  starts : p.head? = some .boundary ∨ p.head? = some (.atom .root)
  nodes : Program.Every Atom.Canonical CanonicalBranches p.tail
  unrooted : p.head? = some .boundary →
    p.tail ≠ [] ∧ Program.Every (· ≠ .boundary) (fun _ => True) p.tail
  ends : p.getLast? ≠ some .boundary
  varied : p.Varied

/-- A regular program with no boundary right after the root. -/
structure Program.Canonical (p : Program) : Prop extends Program.Regular p where
  after_root : p.head? = some (.atom .root) → p.tail.head? ≠ some .boundary

/-- A pattern can name all that is in a program. -/
def Program.Writable (p : Program) : Prop := p.Every Atom.Writable fun _ => True

/-! ## Programs with their ends seen to -/

theorem Arranged.canonical {branches : List Program} (h : Arranged true branches) :
    CanonicalBranches branches :=
  ⟨h.ne_nil, h.nodup, h.empty_first, fun b member => varied_iff.2 (h.apart b member)⟩

theorem withLastComponent_cons (first : Node) (rest : Program) :
    ∃ more, withLastComponent (first :: rest) = first :: (rest ++ more) ∧
      (more = [] ∨ more = [.run false] ∧ (first :: rest).getLast? = some .boundary) ∧
      (first :: (rest ++ more)).getLast? ≠ some .boundary := by
  unfold withLastComponent
  by_cases last : (first :: rest).getLast? = some .boundary
  · rw [if_pos last]
    refine ⟨[.run false], rfl, .inr ⟨rfl, last⟩, ?_⟩
    rw [← List.cons_append, List.getLast?_concat]
    exact nofun
  · rw [if_neg last]
    exact ⟨[], by rw [List.append_nil], .inl rfl, by rwa [List.append_nil]⟩

theorem varied_ended {first : Node} {rest more : Program} (h : Program.Varied (first :: rest))
    (added : more = [] ∨ more = [.run false] ∧ (first :: rest).getLast? = some .boundary) :
    Program.Varied (first :: (rest ++ more)) := by
  obtain rfl | ⟨rfl, last⟩ := added
  · rwa [List.append_nil]
  · rw [← List.cons_append]
    apply h.append (List.isChain_singleton _)
    intro x here y next
    rw [last, Option.mem_some_iff] at here
    rw [List.head?_cons, Option.mem_some_iff] at next
    subst here next
    exact id

theorem not_alike_root (n : Node) : ¬ Node.Alike (.atom .root) n := by
  cases n <;> exact id

section Ended

variable {slashes : Prop} {rest more : Program}

theorem every_ended (nodes : rest.Every (Atom.Proper slashes) (Arranged true)) {last : Prop}
    (added : more = [] ∨ more = [.run false] ∧ last) :
    Program.Every (Atom.Proper slashes) (Arranged true) (rest ++ more) := by
  obtain rfl | ⟨rfl, _⟩ := added
  · rwa [List.append_nil]
  · exact every_append.2 ⟨nodes, every_cons.2 ⟨.run, every_nil⟩⟩

theorem canonical_of_proper {p : Program} (h : p.Every (Atom.Proper slashes) (Arranged true)) :
    p.Every Atom.Canonical CanonicalBranches :=
  h.imp (fun _ proper => proper.canonical) fun _ arranged => arranged.canonical

theorem writable_of_proper {p : Program} (h : p.Every (Atom.Proper slashes) (Arranged true)) :
    p.Writable :=
  h.imp (fun _ proper => proper.writable) fun _ _ => trivial

theorem canonical_anchored (nodes : rest.Every (Atom.Proper slashes) (Arranged true))
    (varied : Program.Varied (.boundary :: rest))
    (added : more = [] ∨ more = [.run false] ∧ (.atom .root :: rest).getLast? = some .boundary)
    (ends : (.atom .root :: (rest ++ more)).getLast? ≠ some .boundary) :
    Program.Canonical (.atom .root :: (rest ++ more)) := by
  have all := every_ended nodes added
  have varied_root : Program.Varied (.atom .root :: rest) := by
    apply varied.tail.cons
    exact fun n _ => not_alike_root n
  refine ⟨⟨.inr rfl, canonical_of_proper all, fun first => ?_, ends, varied_ended varied_root added⟩,
    ?_⟩
  · cases first
  -- the boundary that the root replaces would be next to another
  intro _ second
  cases rest with
  | nil =>
    obtain rfl | ⟨rfl, _⟩ := added
    · cases second
    · cases second
  | cons n rest =>
    have next : n = .boundary := Option.some.inj second
    subst next
    exact (List.isChain_cons_cons.1 varied).1 trivial

theorem canonical_unanchored (single : ¬ slashes)
    (nodes : rest.Every (Atom.Proper slashes) (Arranged true))
    (varied : Program.Varied (.boundary :: rest))
    (added : more = [] ∨ more = [.run false] ∧ (.boundary :: rest).getLast? = some .boundary)
    (ends : (.boundary :: (rest ++ more)).getLast? ≠ some .boundary) :
    Program.Canonical (.boundary :: (rest ++ more)) := by
  have all := every_ended nodes added
  refine ⟨⟨.inl rfl, canonical_of_proper all, fun _ => ⟨?_, ?_⟩, ends, varied_ended varied added⟩,
    fun root => ?_⟩
  · -- a boundary alone would be the last node
    intro empty
    simp only [List.tail_cons] at empty
    rw [empty] at ends
    exact ends rfl
  · refine all.imp ?_ fun _ _ => trivial
    intro a proper here
    exact single (proper.slashes here)
  · cases root

end Ended

/-! ## Compiled patterns -/

/-- A pattern compiles to a canonical program, at the root if and only if it has slashes. -/
theorem canonical_compile {pattern : List Symbol} {p : Program} (h : compile true pattern = .ok p) :
    p.Canonical ∧ p.Writable ∧ (p.head? = some (.atom .root) ↔ .scalar '/' ∈ pattern) := by
  obtain ⟨e, fails⟩ | ⟨tokens, compiled⟩ := compile_cases pattern
  · cases (fails true).symm.trans h
  obtain ⟨made, rooted⟩ := compiled true
  cases made.symm.trans h
  obtain ⟨rest, starts, nodes⟩ := rooted.starts
  have varied : Program.Varied (.boundary :: rest) := varied_iff.2 (starts ▸ rooted.apart)
  rw [endedAs, starts]
  by_cases slash : .scalar '/' ∈ pattern
  · rw [if_pos slash]
    have anchor : anchored (.boundary :: rest) = .atom .root :: rest := rfl
    obtain ⟨more, ended, added, ends⟩ := withLastComponent_cons (.atom .root) rest
    rw [anchor, ended]
    have writable := writable_of_proper (every_ended nodes added)
    exact ⟨canonical_anchored nodes varied added ends, every_cons.2 ⟨.atom trivial, writable⟩,
      iff_of_true rfl slash⟩
  · rw [if_neg slash]
    obtain ⟨more, ended, added, ends⟩ := withLastComponent_cons .boundary rest
    rw [ended]
    have writable := writable_of_proper (every_ended nodes added)
    have unrooted : (.boundary :: (rest ++ more) : Program).head? ≠ some (.atom .root) := by
      intro root
      cases root
    exact ⟨canonical_unanchored slash nodes varied added ends, every_cons.2 ⟨.atom trivial, writable⟩,
      iff_of_false unrooted slash⟩

end EditorSettings
