import EditorSettings.Proofs.Glob.Scanning
import EditorSettings.Proofs.Glob.Canonical

/-! # Writing programs as patterns

`render` writes a program as a pattern.  Every symbol that stands for itself gets a backslash, a
class is written member by member, and a choice of one branch is written with that branch twice, for
a group of one branch would be no group.  A slash is written for a boundary only (`free_render`), and
what an atom is written as is read again as that atom.
-/

namespace EditorSettings

/-! ## Patterns of programs -/

def escaped (s : Symbol) : List Symbol := [.scalar '\\', s]

/-- The members of a class, one by one. -/
def renderMembers (members : CodeSet) : List Symbol :=
  (members.toList.map Symbol.ofCodePoint).flatMap escaped

def Atom.render : Atom → List Symbol
  | .boundary => [.scalar '/']
  | .anyChar => [.scalar '?']
  | .literal text => text.flatMap escaped
  | .charClass members inclusive =>
    .scalar '[' :: ((if inclusive then [] else [.scalar '!']) ++
      (renderMembers members ++ [.scalar ']']))
  | .number low high =>
    .scalar '{' :: (Symbol.ofText (Decimal.writeInt low) ++ .scalar '.' :: .scalar '.' ::
      (Symbol.ofText (Decimal.writeInt high) ++ [.scalar '}']))
  | .root => [.scalar '/']

/-- The items of a list, the only one twice. -/
def atLeastTwo {α : Type} : List α → List α
  | [x] => [x, x]
  | xs => xs

mutual

def Node.render : Node → List Symbol
  | .atom a => a.render
  | .run crossing => if crossing then [.scalar '*', .scalar '*'] else [.scalar '*']
  | .choice branches =>
    .scalar '{' :: (List.intercalate [.scalar ','] (atLeastTwo (renderBranches branches)) ++ [.scalar '}'])

def renderNodes : List Node → List Symbol
  | [] => []
  | n :: rest => n.render ++ renderNodes rest

def renderBranches : List (List Node) → List (List Symbol)
  | [] => []
  | b :: rest => renderNodes b :: renderBranches rest

end

/-- The pattern of a program.  The boundary that it may start with goes without saying. -/
def render : Program → List Symbol
  | .atom .boundary :: rest => renderNodes rest
  | p => renderNodes p

theorem renderBranches_eq_map (branches : List Program) :
    renderBranches branches = branches.map renderNodes := by
  induction branches with
  | nil => rw [renderBranches, List.map_nil]
  | cons b rest ih => rw [renderBranches, ih, List.map_cons]

/-! ## Slashes -/

theorem not_mem_flatMap_escaped {x : Symbol} {text : List Symbol} (backslash : x ≠ .scalar '\\')
    (free : x ∉ text) : x ∉ text.flatMap escaped := by
  intro member
  obtain ⟨s, here, one⟩ := List.mem_flatMap.1 member
  obtain rfl | one := List.mem_cons.1 one
  · exact backslash rfl
  · exact free (List.mem_singleton.1 one ▸ here)

theorem not_mem_ofText_writeInt {c : Char} (digit : c.isDigit = false) (minus : c ≠ '-') (n : Int) :
    .scalar c ∉ Symbol.ofText (Decimal.writeInt n) := by
  intro member
  obtain ⟨d, here, same⟩ := List.mem_map.1 member
  cases same
  cases n with
  | ofNat n =>
    rw [Decimal.isDigit_of_mem_write here] at digit
    cases digit
  | negSucc n =>
    obtain rfl | here := List.mem_cons.1 here
    · exact minus rfl
    · rw [Decimal.isDigit_of_mem_write here] at digit
      cases digit

theorem slash_not_mem_renderMembers {members : CodeSet} (free : '/'.toNat ∉ members) :
    .scalar '/' ∉ renderMembers members := by
  apply not_mem_flatMap_escaped (by decide)
  intro member
  obtain ⟨n, here, slash⟩ := List.mem_map.1 member
  refine Token.ofCodePoint_ne_slash ?_ slash
  rintro rfl
  exact free (CodeSet.mem_toList.1 here)

/-- No atom but a boundary is written with a slash. -/
theorem slash_not_mem_render {a : Atom} (canonical : a.Canonical) (inside : a ≠ .boundary) :
    .scalar '/' ∉ a.render := by
  cases a with
  | boundary => exact absurd rfl inside
  | anyChar => decide
  | literal text => exact not_mem_flatMap_escaped (by decide) canonical.2
  | charClass members inclusive =>
    have free := slash_not_mem_renderMembers canonical.1
    cases inclusive <;> simpa [Atom.render] using free
  | number low high =>
    have first := not_mem_ofText_writeInt (c := '/') rfl (by decide) low
    have second := not_mem_ofText_writeInt (c := '/') rfl (by decide) high
    simp [Atom.render, first, second]
  | root => exact canonical.elim

theorem mem_atLeastTwo {α : Type} {x : α} {xs : List α} : x ∈ atLeastTwo xs ↔ x ∈ xs := by
  unfold atLeastTwo
  split
  · simp
  · exact .rfl

theorem free_renderNodes {p : Program} {Q : List Program → Prop}
    (h : p.Every (fun a => a.Canonical ∧ a ≠ .boundary) Q) : .scalar '/' ∉ renderNodes p := by
  -- a program is free if its nodes are; the induction on a node uses it for the branches
  have nodes {p : Program} (each : ∀ n ∈ p, .scalar '/' ∉ n.render) : .scalar '/' ∉ renderNodes p := by
    induction p with
    | nil => exact List.not_mem_nil
    | cons n p ih =>
      obtain ⟨here, later⟩ := List.forall_mem_cons.1 each
      rw [renderNodes, List.mem_append, not_or]
      exact ⟨here, ih later⟩
  apply nodes
  intro n member
  have every := h n member
  clear member h
  induction every with
  | atom h => exact slash_not_mem_render h.1 h.2
  | run =>
    rename_i crossing
    cases crossing <;> decide
  | choice _ _ ih =>
    rename_i branches _ _
    have branch : ∀ r ∈ renderBranches branches, .scalar '/' ∉ r := by
      rw [renderBranches_eq_map]
      intro r member
      obtain ⟨b, here, rfl⟩ := List.mem_map.1 member
      exact nodes (ih b here)
    have inner : .scalar '/' ∉ List.intercalate [.scalar ','] (atLeastTwo (renderBranches branches)) :=
      not_mem_intercalate (by decide) fun r member => branch r (mem_atLeastTwo.1 member)
    simpa [Node.render] using inner

/-! ## First symbols -/

/-- The first symbol of the pattern of a node. -/
def Node.opensAs : Node → Char
  | .atom .boundary => '/'
  | .atom .anyChar => '?'
  | .atom (.literal _) => '\\'
  | .atom (.charClass _ _) => '['
  | .atom (.number _ _) => '{'
  | .atom .root => '/'
  | .run _ => '*'
  | .choice _ => '{'

theorem head?_render {n : Node} {Q : List Program → Prop} (h : n.Every Atom.Canonical Q) :
    n.render.head? = some (.scalar n.opensAs) := by
  cases h with
  | atom canonical =>
    rename_i a
    cases a with
    | literal text =>
      cases text with
      | nil => exact absurd rfl canonical.1
      | cons s rest => rfl
    | boundary | anyChar | charClass _ _ | number _ _ | root => rfl
  | run =>
    rename_i crossing
    cases crossing <;> rfl
  | choice _ _ => rfl

theorem opensAs_not_digit (n : Node) : n.opensAs.isDigit = false ∧ n.opensAs ≠ '-' := by
  match n with
  | .atom .boundary | .atom .anyChar | .atom (.literal _) | .atom (.charClass _ _)
  | .atom (.number _ _) | .atom .root | .run _ | .choice _ => simp [Node.opensAs, Char.isDigit]

/-- Only runs are rendered with a star in front. -/
theorem alike_of_opensAs {m : Node} {crossing : Bool} (h : m.opensAs = '*') :
    Node.Alike (.run crossing) m := by
  match m with
  | .run _ => trivial
  | .atom .boundary | .atom .anyChar | .atom (.literal _) | .atom (.charClass _ _)
  | .atom (.number _ _) | .atom .root | .choice _ => cases h

end EditorSettings
