import EditorSettings.Proofs.Glob.Place
import EditorSettings.Proofs.Glob.Ranges
import Mathlib.Logic.Relation

/-! # Where a cursor can be

Six operations move a cursor, and they do one of two things: they take bytes away from the end of its
component (`Drops`), or they leave a component that is used up (`Crosses`).  `cases_of_call` says which of
the two an operation does, and both bring the cursor nearer to the root, in the order of positions.

An operation also keeps a cursor on its path (`on_call`), so what holds of every cursor that can be reached
is read off its being there, whatever bytes the components are made of.
-/

namespace EditorSettings

theorem Symbol.encode?_ne_nil {text : List Symbol} {bytes : List UInt8} (h : encode? text = some bytes)
    (given : text ≠ []) : bytes ≠ [] := by
  cases text with
  | nil => exact absurd rfl given
  | cons s rest =>
    unfold encode? at h
    split at h
    next here _ =>
      cases h
      exact List.append_ne_nil_of_left_ne_nil (bytes?_ne_nil here) _
    · cases h

theorem Reading.eq_of_read {reading : Reading} {name bytes : Component}
    (h : reading.read name = some bytes) : bytes = name := by
  cases reading with
  | raw => exact (Option.some.inj h).symm
  | utf8 =>
    simp only [read, Option.ite_none_right_eq_some, Option.some.injEq] at h
    exact h.2.symm

namespace Cursor

inductive Call
  | crossBoundary
  | dropChar (crossing : Bool)
  | popChar
  | dropSuffix (text : List Symbol)
  | dropNumber (low high : Int)
  | reachRoot

def call (c : Cursor) : Call → Except TooManyDigits (Option Cursor)
  | .crossBoundary => .ok c.crossBoundary
  | .dropChar crossing => .ok (c.dropChar crossing)
  | .popChar => .ok (c.popChar.map Prod.fst)
  | .dropSuffix text => .ok (c.dropSuffix text)
  | .dropNumber low high => c.dropNumber low high
  | .reachRoot => .ok c.reachRoot

def Reaches : Cursor → Cursor → Prop :=
  Relation.ReflTransGen fun c d => ∃ call, c.call call = .ok (some d)

/-- A position is nearer to the root: in a component above, or with fewer bytes left in the same one. -/
def Nearer (d c : Cursor) : Prop := Prod.Lex (· < ·) (· < ·) d.position c.position

/-! ## Taking bytes and leaving components -/

/-- The bytes `gone` are taken away from the end of a component, the last one first. -/
inductive Drops (gone : List UInt8) : Cursor → Cursor → Prop
  | intro (left : List UInt8) (above : List (Option Component)) :
      Drops gone (.within (gone ++ left) above) (.within left above)

/-- The bytes of one character are taken away; malformed bytes are counted like a character's. -/
def DropsChar (c d : Cursor) : Prop := ∃ gone, Drops gone c d ∧ 1 ≤ gone.length ∧ gone.length ≤ 4

/-- A component that is used up is left for the component above it, or for the root. -/
inductive Crosses : Cursor → Cursor → Prop
  | intro {above : List (Option Component)} {d : Cursor} (entered : enter above = some d) :
      Crosses (.within [] above) d

section
variable {gone : List UInt8} {c d : Cursor}

theorem Drops.nearer (h : Drops gone c d) (ne : gone ≠ []) : d.Nearer c := by
  cases h with
  | intro left above =>
    have fewer := List.length_pos_iff.2 ne
    apply Prod.Lex.right
    simp only [partLength, List.length_append]
    omega

theorem Drops.part (h : Drops gone c d) : c.part = d.part ++ gone.reverse := by
  cases h with
  | intro left above => exact List.reverse_append

theorem Drops.index (h : Drops gone c d) : d.index = c.index := by
  cases h
  rfl

theorem Crosses.nearer (h : Crosses c d) : d.Nearer c := by
  cases h with
  | @intro above _ entered =>
    -- whatever is entered has a lower index
    apply Prod.Lex.left
    cases above with
    | nil =>
      cases entered
      decide
    | cons first above =>
      cases first with
      | none => cases entered
      | some name =>
        cases entered
        simp only [index, List.length_cons]
        omega

theorem Crosses.part (h : Crosses c d) : c.part = [] := by
  cases h
  rfl

end

/-! ## What an operation does -/

theorem drops_drop {width : Nat} (left : List UInt8) (above : List (Option Component)) :
    Drops (left.take width) (.within left above) (.within (left.drop width) above) := by
  have dropped : Drops (left.take width) (.within (left.take width ++ left.drop width) above)
      (.within (left.drop width) above) := .intro ..
  rwa [List.take_append_drop] at dropped

theorem lastCharWidth_le (budget : Nat) (left : List UInt8) :
    lastCharWidth budget left ≤ budget + 1 := by
  fun_induction lastCharWidth budget left <;> omega

theorem dropsChar_drop (b : UInt8) (more : List UInt8) (above : List (Option Component)) :
    DropsChar (.within (b :: more) above)
      (.within ((b :: more).drop (lastCharWidth 3 (b :: more))) above) := by
  refine ⟨_, drops_drop (b :: more) above, ?_⟩
  have least := lastCharWidth_pos 3 b more
  have most := lastCharWidth_le 3 (b :: more)
  rw [List.length_take, List.length_cons]
  omega

section
variable {crossing : Bool} {low high : Int} {text : List Symbol} {c d : Cursor} {char : Char}

theorem crosses_of_crossBoundary (h : c.crossBoundary = some d) : Crosses c d := by
  unfold crossBoundary at h
  split at h
  · exact .intro h
  · cases h

theorem crosses_of_reachRoot (h : c.reachRoot = some d) : Crosses c d := by
  unfold reachRoot at h
  split at h
  · exact .intro h
  · cases h

theorem cases_of_dropChar (h : c.dropChar crossing = some d) : Crosses c d ∨ DropsChar c d := by
  unfold dropChar at h
  split at h
  next b more above =>
    cases h
    exact .inr (dropsChar_drop b more above)
  · split at h
    · exact .inl (crosses_of_crossBoundary h)
    · cases h

theorem cases_of_popChar (h : c.popChar = some (d, char)) : Crosses c d ∨ DropsChar c d := by
  unfold popChar at h
  split at h
  next b more above =>
    simp only at h
    split at h
    · cases h
      exact .inr (dropsChar_drop b more above)
    · cases h
  · obtain ⟨e, crossed, same⟩ := Option.map_eq_some_iff.1 h
    cases same
    exact .inl (crosses_of_crossBoundary crossed)

theorem exists_dropChar (filled : c.part ≠ []) (crossing : Bool) :
    ∃ d, c.dropChar crossing = some d := by
  cases c with
  | root => exact absurd rfl filled
  | within left above =>
    cases left with
    | nil => exact absurd rfl filled
    | cons b more => exact ⟨_, rfl⟩

theorem drops_of_dropSuffix (h : c.dropSuffix text = some d) (given : text ≠ []) :
    ∃ gone, Drops gone c d ∧ gone ≠ [] := by
  unfold dropSuffix at h
  split at h
  · cases h
  next suffix encoded =>
    have ne := Symbol.encode?_ne_nil encoded given
    unfold dropBytes at h
    rw [if_neg (by simpa using ne)] at h
    split at h
    · cases h
    next left above =>
      split at h
      next ends =>
        cases h
        refine ⟨suffix.reverse, ?_, by simpa using ne⟩
        obtain ⟨rest, rfl⟩ := List.isPrefixOf_iff_prefix.1 ends
        rw [List.drop_left' (List.length_reverse ..)]
        exact .intro ..
      · cases h

theorem drops_of_dropNumber (h : c.dropNumber low high = .ok (some d)) :
    ∃ gone, Drops gone c d ∧ gone ≠ [] := by
  obtain ⟨n, left, rest, above, between, ends, rfl, rfl⟩ := dropNumber_sound h
  have digits := List.length_pos_iff.2 between.ne
  have written := n.length_text
  rw [ends]
  refine ⟨_, .intro .., List.ne_nil_of_length_pos ?_⟩
  rw [List.length_reverse, between.length_encode]
  omega

/-- An operation leaves the component or takes bytes away from it, unless it is asked to drop nothing. -/
theorem cases_of_call {call : Call} (h : c.call call = .ok (some d)) (given : call ≠ .dropSuffix []) :
    Crosses c d ∨ ∃ gone, Drops gone c d ∧ gone ≠ [] := by
  have char (found : Crosses c d ∨ DropsChar c d) : Crosses c d ∨ ∃ gone, Drops gone c d ∧ gone ≠ [] :=
    found.imp_right fun ⟨gone, dropped, least, _⟩ => ⟨gone, dropped, List.ne_nil_of_length_pos least⟩
  cases call with
  | crossBoundary => exact .inl (crosses_of_crossBoundary (Except.ok.inj h))
  | dropChar crossing => exact char (cases_of_dropChar (Except.ok.inj h))
  | popChar =>
    obtain ⟨⟨_, last⟩, popped, rfl⟩ := Option.map_eq_some_iff.1 (Except.ok.inj h)
    exact char (cases_of_popChar popped)
  | dropSuffix text =>
    have ne : text ≠ [] := fun empty => given (congrArg Call.dropSuffix empty)
    exact .inr (drops_of_dropSuffix (Except.ok.inj h) ne)
  | dropNumber low high => exact .inr (drops_of_dropNumber h)
  | reachRoot => exact .inl (crosses_of_reachRoot (Except.ok.inj h))

theorem nearer_of_call {call : Call} (h : c.call call = .ok (some d)) (given : call ≠ .dropSuffix []) :
    d.Nearer c := by
  obtain crossed | ⟨gone, dropped, ne⟩ := cases_of_call h given
  · exact crossed.nearer
  · exact dropped.nearer ne

theorem on_call {path : List (Option Component)} {call : Call} (on : c.On path)
    (h : c.call call = .ok (some d)) : d.On path := by
  cases call with
  | crossBoundary => exact on_move (a := .boundary) on h
  | dropChar crossing => exact on_dropChar on (Except.ok.inj h)
  | popChar =>
    obtain ⟨⟨_, last⟩, popped, rfl⟩ := Option.map_eq_some_iff.1 (Except.ok.inj h)
    exact on_popChar on popped
  | dropSuffix text => exact on_move (a := .literal text) on h
  | dropNumber low high => exact on_move (a := .number low high) on h
  | reachRoot => exact on_move (a := .root) on h

theorem on_of_reaches {path : List (Option Component)} (on : c.On path) (h : c.Reaches d) :
    d.On path := by
  induction h with
  | refl => exact on
  | tail _ step ih =>
    obtain ⟨call, called⟩ := step
    exact on_call ih called

end

/-! ## The component of a cursor -/

/-- A cursor on a path is at the root, or has a prefix of a component left. -/
theorem prefix_of_on {reading : Reading} {components : List Component} {c : Cursor}
    (on : c.On (components.map reading.read).reverse) :
    c = .root ∨ ∃ (i : Nat) (name : Component),
      c.index = i ∧ components[i]? = some name ∧ c.part <+: name := by
  cases c with
  | root => exact .inl rfl
  | within left above =>
    obtain ⟨name, ⟨later, whole⟩, kept⟩ := on
    -- in the order of the path, the components above come before this one
    have order : components.map reading.read = above.reverse ++ some name :: later.reverse := by
      rw [← List.reverse_reverse (components.map reading.read), ← whole]
      simp
    have here : (components.map reading.read)[above.length]? = some (some name) := by
      rw [order, List.getElem?_append_right (by simp), List.length_reverse, Nat.sub_self]
      rfl
    obtain ⟨named, found, read⟩ := Option.map_eq_some_iff.1 (List.getElem?_map ▸ here)
    cases Reading.eq_of_read read
    exact .inr ⟨above.length, name, rfl, found, by simpa [part] using List.reverse_prefix.2 kept⟩

/-- About every cursor that is reached from the end of a path.  Its index is -1 or that of a component, and
what is left is nothing or a prefix of that component.  No other cursor that is reached has its position.
An operation that succeeds brings it nearer to the root, unless it drops no text.  Inside a component a
character can be dropped, whatever the bytes are, and one that is dropped or read has 1 to 4 of them. -/
theorem position_tells_reached {reading : Reading} {components : List Component} {s c : Cursor}
    (start : Cursor.start reading components = some s) (reached : s.Reaches c) :
    (-1 ≤ c.index ∧ c.index ≤ (components.length : Int) - 1) ∧
      (c.index = -1 ∧ c.part = [] ∨ ∃ (i : Nat) (name : Component),
        c.index = i ∧ components[i]? = some name ∧ c.part <+: name) ∧
      (∀ d, s.Reaches d → d.position = c.position → d = c) ∧
      (∀ call d, c.call call = .ok (some d) → call ≠ .dropSuffix [] → d.Nearer c) ∧
      (c.part ≠ [] → (∀ crossing, ∃ d, c.dropChar crossing = some d) ∧
        ∀ d, (∃ crossing, c.dropChar crossing = some d) ∨ (∃ char, c.popChar = some (d, char)) →
          d.index = c.index ∧
            ∃ gone, c.part = d.part ++ gone ∧ 1 ≤ gone.length ∧ gone.length ≤ 4) := by
  have on {d : Cursor} (reached : s.Reaches d) : d.On (components.map reading.read).reverse :=
    on_of_reaches (on_start start) reached
  refine ⟨?_, ?_, fun d reached' same => eq_of_position (on reached') (on reached) same,
    fun call d => nearer_of_call, fun inside => ⟨exists_dropChar inside, ?_⟩⟩
  · obtain rfl | ⟨i, name, index, found, _⟩ := prefix_of_on (on reached)
    · simp only [index]
      omega
    · obtain ⟨bound, _⟩ := List.getElem?_eq_some_iff.1 found
      omega
  · obtain rfl | within := prefix_of_on (on reached)
    · exact .inl ⟨rfl, rfl⟩
    · exact .inr within
  · intro d dropped
    have cases : Crosses c d ∨ DropsChar c d := by
      obtain ⟨crossing, dropped⟩ | ⟨char, popped⟩ := dropped
      · exact cases_of_dropChar dropped
      · exact cases_of_popChar popped
    obtain crossed | ⟨gone, lost, least, most⟩ := cases
    · exact absurd crossed.part inside
    · refine ⟨lost.index, gone.reverse, lost.part, ?_⟩
      rw [List.length_reverse]
      exact ⟨least, most⟩

/-- The continuation bytes after `0xFF` are no character, and four of them are dropped at once. -/
theorem position_tells_reached_malformed :
    ∃ s c, Cursor.start .raw [[97], [0xFF, 0x80, 0x80, 0x80, 0x80]] = some s ∧ s.Reaches c ∧
      c.part = [0xFF] ∧ (∀ d, s.Reaches d → d.position = (1, 1) → d = c) ∧
      ∃ d, c.dropChar false = some d ∧ d.part = [] ∧ d.Nearer c := by
  let s : Cursor := .within [0x80, 0x80, 0x80, 0x80, 0xFF] [some [97]]
  let c : Cursor := .within [0xFF] [some [97]]
  have start : Cursor.start .raw [[97], [0xFF, 0x80, 0x80, 0x80, 0x80]] = some s := rfl
  have reached : s.Reaches c := .single ⟨.dropChar false, rfl⟩
  obtain ⟨_, _, only, nearer, inside⟩ := position_tells_reached start reached
  obtain ⟨d, dropped⟩ := (inside (by decide)).1 false
  refine ⟨s, c, start, reached, rfl, only, d, dropped, ?_, ?_⟩
  · cases dropped
    rfl
  · exact nearer (.dropChar false) d (congrArg Except.ok dropped) nofun

end Cursor

end EditorSettings
