import EditorSettings.Glob.Search
import EditorSettings.Proofs.Glob.Shape

/-! # Places

A visit is a place in the program together with a position in the path.  Both are numbers only, and
a guarded search trusts them: it takes two states with one visit for the same state.

* `Located p whole k` says that the continuation `k` arises inside the program `p`, and
  `located_unique` that its place tells which one it is;
* `Cursor.On path c` says that the cursor `c` stands on a path, and `eq_of_position` that its
  position tells where;
* `on_move` and `on_dropChar` keep a cursor on its path.
-/

namespace EditorSettings

/-! ## Places in a program -/

/-- A continuation arises in a program; `whole` are all nodes of its innermost frame. -/
inductive Located (p : Program) : (whole : List Node) → Continuation → Prop
  | outermost {pending} (left : pending <:+ p.reverse) : Located p p.reverse [⟨0, pending⟩]
  | inner {whole branch branches pending outer number body rest}
      (around : Located p whole (⟨branch, pending⟩ :: outer))
      (node : .choice branches :: pending <:+ whole)
      (entered : branches[number]? = some body) (left : rest <:+ body.reverse) :
      Located p body.reverse (⟨number, rest⟩ :: ⟨branch, pending⟩ :: outer)

theorem eq_of_suffix_of_length {α : Type} {xs ys whole : List α} (hx : xs <:+ whole)
    (hy : ys <:+ whole) (same : xs.length = ys.length) : xs = ys :=
  (List.suffix_of_suffix_length_le hx hy (Nat.le_of_eq same)).eq_of_length same

theorem Located.suffix {p : Program} {whole : List Node} {f : Frame} {outer : Continuation}
    (h : Located p whole (f :: outer)) : f.pending <:+ whole := by
  cases h with
  | outermost left => exact left
  | inner _ _ _ left => exact left

theorem Located.drop {p : Program} {whole : List Node} {branch : Nat} {pending rest : List Node}
    {outer : Continuation} (h : Located p whole (⟨branch, pending⟩ :: outer))
    (left : rest <:+ pending) : Located p whole (⟨branch, rest⟩ :: outer) := by
  cases h with
  | outermost whole_left => exact .outermost (left.trans whole_left)
  | inner around node entered whole_left => exact .inner around node entered (left.trans whole_left)

theorem Located.tail {p : Program} {whole : List Node} {f : Frame} {outer : Continuation}
    (h : Located p whole (f :: outer)) : outer = [] ∨ ∃ around, Located p around outer := by
  cases h with
  | outermost => exact .inl rfl
  | inner around => exact .inr ⟨_, around⟩

/-- A continuation is told by its place. -/
theorem located_unique {p : Program} {whole whole' : List Node} {k k' : Continuation}
    (h : Located p whole k) (h' : Located p whole' k') (same : k.place = k'.place) :
    whole = whole' ∧ k = k' := by
  -- from the outermost frame inwards: what is around a frame tells which choice was entered
  induction h generalizing whole' k' with
  | outermost left =>
    cases h' with
    | outermost left' =>
      simp only [Continuation.place, List.map_cons, List.cons.injEq, Prod.mk.injEq] at same
      rw [eq_of_suffix_of_length left left' same.1.2]
      exact ⟨rfl, rfl⟩
    | inner => simp [Continuation.place] at same
  | @inner whole branch branches pending outer number body rest around node entered left ih =>
    cases h' with
    | outermost => simp [Continuation.place] at same
    | @inner whole' branch' branches' pending' outer' number' body' rest' around' node' entered'
        left' =>
      simp only [Continuation.place, List.map_cons, List.cons.injEq, Prod.mk.injEq] at same
      obtain ⟨⟨sameNumber, sameLength⟩, ⟨sameBranch, samePending⟩, sameOuter⟩ := same
      have outerPlaces : Continuation.place (⟨branch, pending⟩ :: outer) =
          Continuation.place (⟨branch', pending'⟩ :: outer') := by
        simp only [Continuation.place, List.map_cons, sameBranch, samePending, sameOuter]
      obtain ⟨rfl, equal⟩ := ih around' outerPlaces
      cases equal
      -- the choice that was entered is the node in front of what is left around it
      have sameNode : Node.choice branches :: pending = .choice branches' :: pending :=
        eq_of_suffix_of_length node node' rfl
      cases sameNode
      subst sameNumber
      rw [entered] at entered'
      cases entered'
      rw [eq_of_suffix_of_length left left' sameLength]
      exact ⟨rfl, rfl⟩

/-- What holds at every depth of a program holds of the nodes around a place in it. -/
theorem Located.every {P : Atom → Prop} {Q : List Program → Prop} {p : Program}
    {whole : List Node} {k : Continuation} (h : Located p whole k) (all : p.Every P Q) :
    ∀ n ∈ whole, n.Every P Q := by
  induction h with
  | outermost => exact fun n member => all n (List.mem_reverse.1 member)
  | inner _ node entered _ ih =>
    intro n member
    obtain ⟨_, inside⟩ := every_choice.1 (ih _ (node.subset List.mem_cons_self))
    exact inside _ (List.mem_of_getElem? entered) n (List.mem_reverse.1 member)

/-! ## Positions on a path -/

/-- A cursor stands on the path with these components, the nearest to its end first. -/
def Cursor.On (path : List (Option Component)) : Cursor → Prop
  | .root => True
  | .within left above => ∃ name, some name :: above <:+ path ∧ left <:+ name.reverse

theorem eq_of_position {path : List (Option Component)} {c d : Cursor} (hc : c.On path)
    (hd : d.On path) (same : c.position = d.position) : c = d := by
  cases c with
  | root =>
    cases d with
    | root => rfl
    | within left above =>
      have := (Prod.mk.inj same).1
      simp only [Cursor.index] at this
      omega
  | within left above =>
    cases d with
    | root =>
      have := (Prod.mk.inj same).1
      simp only [Cursor.index] at this
      omega
    | within left' above' =>
      obtain ⟨name, here, kept⟩ := hc
      obtain ⟨name', here', kept'⟩ := hd
      obtain ⟨sameIndex, sameLength⟩ := Prod.mk.inj same
      simp only [Cursor.index, Cursor.partLength, Int.natCast_inj] at sameIndex sameLength
      have sameRest : some name :: above = some name' :: above' :=
        eq_of_suffix_of_length here here' (by simp only [List.length_cons, sameIndex])
      cases sameRest
      rw [eq_of_suffix_of_length kept kept' sameLength]

theorem on_enter {path above : List (Option Component)} {c : Cursor} (here : above <:+ path)
    (h : Cursor.enter above = some c) : c.On path := by
  cases above with
  | nil =>
    cases h
    trivial
  | cons first above =>
    cases first with
    | none => cases h
    | some name =>
      cases h
      exact ⟨name, here, List.suffix_refl _⟩

theorem on_start {reading : Reading} {components : List Component} {c : Cursor}
    (h : Cursor.start reading components = some c) :
    c.On (components.map reading.read).reverse :=
  on_enter (List.suffix_refl _) h

theorem on_crossBoundary {path : List (Option Component)} {c d : Cursor} (on : c.On path)
    (h : c.crossBoundary = some d) : d.On path := by
  unfold Cursor.crossBoundary at h
  split at h
  · obtain ⟨name, here, _⟩ := on
    exact on_enter ((List.suffix_cons _ _).trans here) h
  · cases h

theorem on_drop {path above : List (Option Component)} {left left' : List UInt8}
    (on : (Cursor.within left above).On path) (kept : left' <:+ left) :
    (Cursor.within left' above).On path := by
  obtain ⟨name, here, before⟩ := on
  exact ⟨name, here, kept.trans before⟩

theorem on_dropChar {path : List (Option Component)} {crossing : Bool} {c d : Cursor}
    (on : c.On path) (h : c.dropChar crossing = some d) : d.On path := by
  unfold Cursor.dropChar at h
  split at h
  · cases h
    exact on_drop on (List.drop_suffix _ _)
  · split at h
    · exact on_crossBoundary on h
    · cases h

theorem on_popChar {path : List (Option Component)} {c d : Cursor} {char : Char} (on : c.On path)
    (h : c.popChar = some (d, char)) : d.On path := by
  unfold Cursor.popChar at h
  split at h
  · simp only at h
    split at h
    · cases h
      exact on_drop on (List.drop_suffix _ _)
    · cases h
  · obtain ⟨e, crossed, same⟩ := Option.map_eq_some_iff.1 h
    cases same
    exact on_crossBoundary on crossed

theorem on_dropSuffix {path : List (Option Component)} {text : List Symbol} {c d : Cursor}
    (on : c.On path) (h : c.dropSuffix text = some d) : d.On path := by
  unfold Cursor.dropSuffix at h
  split at h
  · cases h
  · unfold Cursor.dropBytes at h
    split at h
    · cases h
      exact on
    · split at h
      · cases h
      · split at h
        · cases h
          exact on_drop on (List.drop_suffix _ _)
        · cases h

theorem suffix_of_dropLongest {low high : Int} {left rest : List UInt8} {run length : Nat}
    (h : Cursor.dropLongest low high left run length = some rest) : rest <:+ left := by
  -- the lengths are tried from the longest down, and each of them would leave a suffix
  induction length with
  | zero => cases h
  | succ length ih =>
    unfold Cursor.dropLongest at h
    split at h
    · next found =>
      cases h
      unfold Cursor.dropDigits at found
      simp only at found
      split at found
      · cases found
      · split at found
        · cases found
          exact List.drop_suffix _ _
        · split at found
          · cases found
            exact List.drop_suffix _ _
          · cases found
    · exact ih h

theorem on_dropNumber {path : List (Option Component)} {low high : Int} {c d : Cursor}
    (on : c.On path) (h : c.dropNumber low high = .ok (some d)) : d.On path := by
  unfold Cursor.dropNumber at h
  split at h
  · cases h
  · simp only at h
    split at h
    · cases h
    · split at h
      · cases h
      · obtain ⟨rest, found, same⟩ := Option.map_eq_some_iff.1 (Except.ok.inj h)
        cases same
        exact on_drop on (suffix_of_dropLongest found)

/-- An atom keeps a cursor on its path. -/
theorem on_move {path : List (Option Component)} {a : Atom} {c d : Cursor} (on : c.On path)
    (h : c.move a = .ok (some d)) : d.On path := by
  cases a with
  | boundary => exact on_crossBoundary on (Except.ok.inj h)
  | anyChar => exact on_dropChar on (Except.ok.inj h)
  | literal text => exact on_dropSuffix on (Except.ok.inj h)
  | charClass members inclusive =>
    have h := Except.ok.inj h
    split at h
    · cases h
    · next popped =>
      split at h
      · cases h
      · cases h
        exact on_popChar on popped
  | number low high => exact on_dropNumber on h
  | root =>
    have h := Except.ok.inj h
    unfold Cursor.reachRoot at h
    split at h
    · cases h
      trivial
    · cases h

end EditorSettings
