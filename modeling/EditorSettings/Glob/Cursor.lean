import EditorSettings.Text.Decimal
import EditorSettings.Glob.Program

/-!
# Cursors on a path

A pattern is matched from the end of a path: a cursor stands in a component and moves from its
last byte to its first, then through the boundary into the component above, and last to the
root.  A cursor is a value, so a search keeps old cursors to come back to.

* `Cursor.start` enters the last component of a path; a component that cannot be read in the
  chosen `Reading` cannot be entered.
* `crossBoundary`, `dropChar`, `popChar`, `dropSuffix`, `dropNumber` and `reachRoot` move a
  cursor; each returns `none` where it cannot move.
* `Cursor.position` tells the cursors of one path apart.
* `Cursor.rank` counts the bytes and boundaries left.  No move increases it, and dropping a
  character or crossing a boundary decreases it (`rank_dropChar_lt`).
-/

namespace EditorSettings

abbrev Component := List UInt8

inductive Reading
  /-- Any bytes are a name. -/
  | raw
  /-- A name has to be well-formed UTF-8. -/
  | utf8
  deriving DecidableEq, Repr

def Reading.read : Reading → Component → Option Component
  | .raw, name => some name
  | .utf8, name => if Utf8.isWellFormed name then some name else none

/-- A place in a path, seen from its end. -/
inductive Cursor
  | root
  /-- Inside a component, of which the bytes `left` are left, the last one first.  The
  components above it come nearest first, `none` for one that cannot be read. -/
  | within (left : List UInt8) (above : List (Option Component))
  deriving DecidableEq

namespace Cursor

/-! ## Where a cursor stands -/

/-- The number of the component, counted from 0 at the root, which itself is -1. -/
def index : Cursor → Int
  | .root => -1
  | .within _ above => above.length

def part : Cursor → Component
  | .root => []
  | .within left _ => left.reverse

def partLength : Cursor → Nat
  | .root => 0
  | .within left _ => left.length

def atBoundary (c : Cursor) : Bool := c.partLength = 0

/-- The number of the component and of the bytes left in it. -/
def position (c : Cursor) : Int × Nat := (c.index, c.partLength)

/-- The bytes and boundaries in components that have not been entered. -/
def rankAbove : List (Option Component) → Nat
  | [] => 0
  | none :: above => 1 + rankAbove above
  | some name :: above => name.length + 1 + rankAbove above

def rank : Cursor → Nat
  | .root => 0
  | .within left above => left.length + 1 + rankAbove above

def enter : List (Option Component) → Option Cursor
  | [] => some .root
  | none :: _ => none
  | some name :: above => some (.within name.reverse above)

/-- The cursor at the end of a path with these components. -/
def start (reading : Reading) (components : List Component) : Option Cursor :=
  enter (components.map reading.read).reverse

theorem rank_enter_le {above : List (Option Component)} {c : Cursor} (h : enter above = some c) :
    c.rank ≤ rankAbove above := by
  cases above with
  | nil => cases h; simp [rank, rankAbove]
  | cons first above =>
    cases first with
    | none => cases h
    | some name => cases h; simp [rank, rankAbove]

/-! ## Moves -/

/-- Cross into the component above; only from a component that is used up. -/
def crossBoundary : Cursor → Option Cursor
  | .within [] above => enter above
  | _ => none

/-- The number of bytes of the last character: a byte that is no continuation, after which at
most three continuation bytes stand.  Malformed bytes are counted in the same way. -/
def lastCharWidth : (budget : Nat) → List UInt8 → Nat
  | _, [] => 0
  | _, [_] => 1
  | 0, _ :: _ :: _ => 1
  | budget + 1, b :: more => if Utf8.isContinuation b then 1 + lastCharWidth budget more else 1

/-- Drop the last character, or cross a boundary if `crossing`. -/
def dropChar (crossing : Bool) : Cursor → Option Cursor
  | .within (b :: more) above =>
    some (.within ((b :: more).drop (lastCharWidth 3 (b :: more))) above)
  | c => if crossing then c.crossBoundary else none

/-- Drop the last character and say which it was.  A boundary counts as a slash, and bytes that
are no character cannot be dropped in this way. -/
def popChar : Cursor → Option (Cursor × Char)
  | .within (b :: more) above =>
    let width := lastCharWidth 3 (b :: more)
    match Utf8.decodeChar ((b :: more).take width).reverse with
    | .ok (c, []) => some (.within ((b :: more).drop width) above, c)
    | _ => none
  | c => c.crossBoundary.map (·, '/')

def dropBytes (suffix : List UInt8) (c : Cursor) : Option Cursor :=
  if suffix.isEmpty then some c
  else
    match c with
    | .root => none
    | .within left above =>
      if suffix.reverse.isPrefixOf left then some (.within (left.drop suffix.length) above)
      else none

/-- Drop the bytes that symbols stand for; symbols that stand for none cannot be dropped. -/
def dropSuffix (text : List Symbol) (c : Cursor) : Option Cursor :=
  match Symbol.encode? text with
  | none => none
  | some suffix => c.dropBytes suffix

def reachRoot : Cursor → Option Cursor
  | .within [] [] => some .root
  | _ => none

/-! ## Numbers -/

def isDigit (b : UInt8) : Bool := 0x30 ≤ b && b ≤ 0x39

/-- The number that ASCII digits stand for, the last digit first. -/
def digitsValue : List UInt8 → Nat
  | [] => 0
  | b :: more => (b.toNat - 0x30) + 10 * digitsValue more

/-- What is left after dropping the number in the last `length` of the `run` digits at the end,
if that is a number between the bounds.  A number of several digits does not start with a zero,
and only all the digits of the run may take a minus sign before them. -/
def dropDigits (low high : Int) (left : List UInt8) (run length : Nat) : Option (List UInt8) :=
  let digits := left.take length
  let value : Int := digitsValue digits
  -- the digits are in reverse, so the leading one is the last
  if 1 < length ∧ digits.getLast? = some 0x30 then none
  else if length = run ∧ left[run]? = some 0x2D ∧ low ≤ -value ∧ -value ≤ high then
    some (left.drop (run + 1))
  else if low ≤ value ∧ value ≤ high then some (left.drop length)
  else none

def dropLongest (low high : Int) (left : List UInt8) (run : Nat) : Nat → Option (List UInt8)
  | 0 => none
  | length + 1 =>
    match dropDigits low high left run (length + 1) with
    | some rest => some rest
    | none => dropLongest low high left run length

/-- Drop the longest number between the bounds from the end of the component.  No number
between them has more digits than the wider bound. -/
def dropNumber (low high : Int) : Cursor → Except TooManyDigits (Option Cursor)
  | .root => .ok none
  | .within left above =>
    let run := (left.takeWhile isDigit).length
    if run = 0 then .ok none
    else
      match Decimal.width (max low.natAbs high.natAbs) with
      | .error e => .error e
      | .ok width =>
        .ok ((dropLongest low high left run (min run width)).map (.within · above))

/-! ## Atoms -/

def move (c : Cursor) : Atom → Except TooManyDigits (Option Cursor)
  | .boundary => .ok c.crossBoundary
  | .anyChar => .ok (c.dropChar false)
  | .literal text => .ok (c.dropSuffix text)
  | .charClass members inclusive =>
    .ok <|
      match c.popChar with
      | none => none
      | some (rest, char) =>
        -- a boundary was popped as a slash, which no class stands for
        if char = '/' ∨ members.contains char.toNat ≠ inclusive then none else some rest
  | .number low high => c.dropNumber low high
  | .root => .ok c.reachRoot

/-! ## Progress -/

theorem rank_crossBoundary_lt {c d : Cursor} (h : c.crossBoundary = some d) :
    d.rank < c.rank := by
  unfold crossBoundary at h
  split at h
  · exact Nat.lt_of_le_of_lt (rank_enter_le h) (by simp [rank])
  · cases h

theorem lastCharWidth_pos (budget : Nat) (b : UInt8) (more : List UInt8) :
    0 < lastCharWidth budget (b :: more) := by
  cases more with
  | nil => simp [lastCharWidth]
  | cons b' more =>
    cases budget with
    | zero => simp [lastCharWidth]
    | succ budget =>
      simp only [lastCharWidth]
      split <;> omega

theorem rank_dropChar_lt {crossing : Bool} {c d : Cursor} (h : c.dropChar crossing = some d) :
    d.rank < c.rank := by
  unfold dropChar at h
  split at h
  · next b more above =>
    cases h
    have := lastCharWidth_pos 3 b more
    simp only [rank, List.length_drop, List.length_cons]
    omega
  · split at h
    · exact rank_crossBoundary_lt h
    · cases h

theorem rank_popChar_lt {c d : Cursor} {char : Char} (h : c.popChar = some (d, char)) :
    d.rank < c.rank := by
  unfold popChar at h
  split at h
  · next b more above =>
    simp only at h
    split at h
    · cases h
      have := lastCharWidth_pos 3 b more
      simp only [rank, List.length_drop, List.length_cons]
      omega
    · cases h
  · obtain ⟨d', hd, heq⟩ := Option.map_eq_some_iff.1 h
    cases heq
    exact rank_crossBoundary_lt hd

theorem rank_dropSuffix_le {text : List Symbol} {c d : Cursor} (h : c.dropSuffix text = some d) :
    d.rank ≤ c.rank := by
  unfold dropSuffix at h
  split at h
  · cases h
  · unfold dropBytes at h
    split at h
    · cases h; exact Nat.le_refl _
    · split at h
      · cases h
      · split at h
        · cases h
          simp only [rank, List.length_drop]
          omega
        · cases h

theorem rank_reachRoot_le {c d : Cursor} (h : c.reachRoot = some d) : d.rank ≤ c.rank := by
  unfold reachRoot at h
  split at h
  · cases h; simp [rank]
  · cases h

theorem length_dropDigits_le {low high : Int} {left rest : List UInt8} {run length : Nat}
    (h : dropDigits low high left run length = some rest) : rest.length ≤ left.length := by
  unfold dropDigits at h
  simp only at h
  split at h
  · cases h
  · split at h
    · cases h; simp
    · split at h
      · cases h; simp
      · cases h

theorem length_dropLongest_le {low high : Int} {left rest : List UInt8} {run length : Nat}
    (h : dropLongest low high left run length = some rest) : rest.length ≤ left.length := by
  induction length with
  | zero => cases h
  | succ length ih =>
    unfold dropLongest at h
    split at h
    · next hd => cases h; exact length_dropDigits_le hd
    · exact ih h

theorem rank_dropNumber_le {low high : Int} {c d : Cursor}
    (h : c.dropNumber low high = .ok (some d)) : d.rank ≤ c.rank := by
  unfold dropNumber at h
  split at h
  · cases h
  · simp only at h
    split at h
    · cases h
    · split at h
      · cases h
      · simp only [Except.ok.injEq] at h
        obtain ⟨rest, hr, rfl⟩ := Option.map_eq_some_iff.1 h
        have := length_dropLongest_le hr
        simp only [rank]
        omega

/-- No atom moves a cursor back. -/
theorem rank_move_le {c d : Cursor} {a : Atom} (h : c.move a = .ok (some d)) :
    d.rank ≤ c.rank := by
  cases a with
  | boundary => exact Nat.le_of_lt (rank_crossBoundary_lt (Except.ok.inj h))
  | anyChar => exact Nat.le_of_lt (rank_dropChar_lt (Except.ok.inj h))
  | literal text => exact rank_dropSuffix_le (Except.ok.inj h)
  | charClass members inclusive =>
    have h := Except.ok.inj h
    split at h
    · cases h
    · next hp =>
      split at h
      · cases h
      · cases h; exact Nat.le_of_lt (rank_popChar_lt hp)
  | number low high => exact rank_dropNumber_le h
  | root => exact rank_reachRoot_le (Except.ok.inj h)

end Cursor

end EditorSettings
