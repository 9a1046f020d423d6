import EditorSettings.Text.Decimal
import EditorSettings.Glob.Program

/-!
# Tokens of a pattern

A pattern is cut at its slashes, and each segment is read as tokens from left to right.  What a
token stands for does not depend on the groups around it, with one exception left to the
compiler: a comma or a closing brace outside every group is an ordinary symbol.

* `readClass` reads a class after its `[`, `readBounds` a numeric range after its `{`; both
  return `none` where the text is no such thing, and the bracket is then an ordinary symbol or
  opens a group.
* `readToken` reads the tokens that start with a given symbol, and `length_readToken_le` says
  that it reads on.
* `segmentTokens` and `patternTokens` read a segment and a pattern.  The only way to fail is a
  bound with too many digits.
-/

namespace EditorSettings

inductive Token
  /-- The start of a segment. -/
  | boundary
  /-- A symbol that stands for itself. -/
  | symbol (s : Symbol)
  | node (n : Node)
  | openGroup
  | comma
  | closeGroup
  deriving DecidableEq

namespace Token

/-! ## Character classes -/

def withRange (low high : Symbol) (read : List (Nat × Nat) × List Symbol) :
    List (Nat × Nat) × List Symbol :=
  ((low.codePoint, high.codePoint) :: read.1, read.2)

/-- The ranges of a class up to its closing bracket, and the symbols after it.  `before` is the
member right before the position, from which a hyphen would make a range; there is none at the
start.  A backslash takes the next symbol as it is. -/
def classRanges (before : Option Symbol) : List Symbol → Option (List (Nat × Nat) × List Symbol)
  | [] => none
  | s :: rest =>
    if s = .scalar ']' then some ([], rest)
    else if s = .scalar '\\' then
      match rest with
      | [] => none
      | t :: rest => (classRanges (some t) rest).map (withRange t t)
    else
      -- a hyphen makes a range unless it comes first or last
      match if s = .scalar '-' then before else none with
      | none => (classRanges (some s) rest).map (withRange s s)
      | some low =>
        match rest with
        | [] => none
        | t :: rest =>
          if t = .scalar ']' then some ([(s.codePoint, s.codePoint)], rest)
          else if t = .scalar '\\' then
            match rest with
            | [] => none
            | u :: rest => (classRanges (some u) rest).map (withRange low u)
          else (classRanges (some t) rest).map (withRange low t)

/-- The tokens of a class with the given members.  A slash is never a member.  A class without
members is any character if it excludes them, and its own two brackets if it includes them; a
class that includes one member is that symbol. -/
def ofClass (inclusive : Bool) (members : CodeSet) : List Token :=
  -- a range may run over the slash, which no component holds
  let members := members.remove '/'.toNat
  if members.isEmpty then
    if inclusive then [.symbol (.scalar '['), .symbol (.scalar ']')]
    else [.node (.atom .anyChar)]
  else
    match if inclusive then members.single? else none with
    | some n => [.symbol (.ofCodePoint n)]
    | none => [.node (.atom (.charClass members inclusive))]

def readClass (rest : List Symbol) : Option (List Token × List Symbol) :=
  let exclusive := rest.head? = some (.scalar '!')
  (classRanges none (if exclusive then rest.tail else rest)).map fun read =>
    (ofClass (!exclusive) (CodeSet.ofRanges read.1), read.2)

/-! ## Numeric ranges -/

structure Numeral where
  negative : Bool
  digits : Text
  deriving DecidableEq

def Numeral.value (n : Numeral) : Except TooManyDigits Int :=
  match Decimal.read n.digits with
  | .error e => .error e
  | .ok v => .ok (if n.negative then -(v : Int) else v)

/-- The ASCII digits at the start, and the symbols after them. -/
def spanDigits : List Symbol → Text × List Symbol
  | [] => ([], [])
  | .surrogate u :: rest => ([], .surrogate u :: rest)
  | .scalar c :: rest =>
    if c.isDigit then (c :: (spanDigits rest).1, (spanDigits rest).2)
    else ([], .scalar c :: rest)

def startsNegative (s : List Symbol) : Bool := s.head? = some (.scalar '-')

def unsigned (s : List Symbol) : List Symbol := if startsNegative s then s.tail else s

/-- Read a numeral: an optional minus sign and at least one digit. -/
def readNumeral (s : List Symbol) : Option (Numeral × List Symbol) :=
  if (spanDigits (unsigned s)).1.isEmpty then none
  else some (⟨startsNegative s, (spanDigits (unsigned s)).1⟩, (spanDigits (unsigned s)).2)

def readBounds (s : List Symbol) : Option ((Numeral × Numeral) × List Symbol) :=
  match readNumeral s with
  | some (first, .scalar '.' :: .scalar '.' :: rest) =>
    match readNumeral rest with
    | some (second, .scalar '}' :: rest) => some ((first, second), rest)
    | _ => none
  | _ => none

/-- The node of a numeric range; its bounds may come in either order. -/
def ofBounds (first second : Numeral) : Except TooManyDigits Token :=
  match first.value with
  | .error e => .error e
  | .ok a =>
    match second.value with
    | .error e => .error e
    | .ok b => .ok (.node (.atom (.number (min a b) (max a b))))

/-! ## Segments -/

/-- The tokens that start with the symbol `s`, and the symbols after them.  A backslash makes an
ordinary symbol of the next one, and is dropped at the end of a segment. -/
def readToken (s : Symbol) (rest : List Symbol) :
    Except TooManyDigits (List Token × List Symbol) :=
  if s = .scalar '\\' then .ok (rest.head?.toList.map .symbol, rest.tail)
  else if s = .scalar '?' then .ok ([.node (.atom .anyChar)], rest)
  else if s = .scalar '*' then
    if rest.head? = some (.scalar '*') then .ok ([.node (.run true)], rest.tail)
    else .ok ([.node (.run false)], rest)
  else if s = .scalar '[' then .ok ((readClass rest).getD ([.symbol s], rest))
  else if s = .scalar '{' then
    match readBounds rest with
    | none => .ok ([.openGroup], rest)
    | some ((first, second), rest) =>
      match ofBounds first second with
      | .error e => .error e
      | .ok token => .ok ([token], rest)
  else if s = .scalar ',' then .ok ([.comma], rest)
  else if s = .scalar '}' then .ok ([.closeGroup], rest)
  else .ok ([.symbol s], rest)

theorem length_classRanges_lt {before : Option Symbol} {s : List Symbol}
    {read : List (Nat × Nat) × List Symbol} (h : classRanges before s = some read) :
    read.2.length < s.length := by
  fun_induction classRanges before s generalizing read with
  | case1 => cases h
  | case2 => cases h; simp
  | case3 => cases h
  | case4 =>
    rename_i ih
    obtain ⟨read', hr, rfl⟩ := Option.map_eq_some_iff.1 h
    have := ih hr
    simp only [withRange, List.length_cons]; omega
  | case5 =>
    rename_i ih
    obtain ⟨read', hr, rfl⟩ := Option.map_eq_some_iff.1 h
    have := ih hr
    simp only [withRange, List.length_cons]; omega
  | case6 => cases h
  | case7 => cases h; simp only [List.length_cons]; omega
  | case8 => cases h
  | case9 =>
    rename_i ih
    obtain ⟨read', hr, rfl⟩ := Option.map_eq_some_iff.1 h
    have := ih hr
    simp only [withRange, List.length_cons]; omega
  | case10 =>
    rename_i ih
    obtain ⟨read', hr, rfl⟩ := Option.map_eq_some_iff.1 h
    have := ih hr
    simp only [withRange, List.length_cons]; omega

theorem length_spanDigits_le (s : List Symbol) : (spanDigits s).2.length ≤ s.length := by
  fun_induction spanDigits s with
  | case1 => simp
  | case2 => simp
  | case3 _ _ _ ih => simp only [List.length_cons]; omega
  | case4 => simp

theorem length_unsigned_le (s : List Symbol) : (unsigned s).length ≤ s.length := by
  unfold unsigned
  split <;> simp

theorem length_readNumeral_le {s rest : List Symbol} {n : Numeral}
    (h : readNumeral s = some (n, rest)) : rest.length ≤ s.length := by
  unfold readNumeral at h
  split at h
  · cases h
  · cases h
    exact Nat.le_trans (length_spanDigits_le _) (length_unsigned_le s)

theorem length_readBounds_le {s rest : List Symbol} {bounds : Numeral × Numeral}
    (h : readBounds s = some (bounds, rest)) : rest.length ≤ s.length := by
  unfold readBounds at h
  split at h
  · next first rest' h₁ =>
    have l₁ := length_readNumeral_le h₁
    split at h
    · next second rest'' h₂ =>
      have l₂ := length_readNumeral_le h₂
      simp only [Option.some.injEq, Prod.mk.injEq] at h
      simp only [List.length_cons] at l₁ l₂
      rw [← h.2]
      omega
    · cases h
  · cases h

theorem length_readClass_le {s : List Symbol} {read : List Token × List Symbol}
    (h : readClass s = some read) : read.2.length ≤ s.length := by
  obtain ⟨read', hr, rfl⟩ := Option.map_eq_some_iff.1 h
  have := length_classRanges_lt hr
  split at this
  · simp only [List.length_tail] at this ⊢; omega
  · exact Nat.le_of_lt this

theorem length_readToken_le {s : Symbol} {rest : List Symbol}
    {read : List Token × List Symbol} (h : readToken s rest = .ok read) :
    read.2.length ≤ rest.length := by
  unfold readToken at h
  split at h
  · cases h; simp
  split at h
  · cases h; exact Nat.le_refl _
  split at h
  · split at h
    · cases h; simp
    · cases h; exact Nat.le_refl _
  split at h
  · simp only [Except.ok.injEq] at h
    cases hc : readClass rest with
    | none => rw [hc] at h; rw [← h]; simp
    | some read' => rw [hc] at h; rw [← h]; exact length_readClass_le hc
  split at h
  · split at h
    · cases h; exact Nat.le_refl _
    · next hb =>
      split at h
      · cases h
      · cases h; exact length_readBounds_le hb
  split at h
  · cases h; exact Nat.le_refl _
  split at h
  · cases h; exact Nat.le_refl _
  · cases h; exact Nat.le_refl _

def segmentTokens (segment : List Symbol) : Except TooManyDigits (List Token) :=
  match segment with
  | [] => .ok []
  | s :: rest =>
    match _h : readToken s rest with
    | .error e => .error e
    | .ok (tokens, rest') =>
      match segmentTokens rest' with
      | .error e => .error e
      | .ok more => .ok (tokens ++ more)
termination_by segment.length
decreasing_by
  have : rest'.length ≤ rest.length := length_readToken_le _h
  simp only [List.length_cons]; omega

@[simp] theorem segmentTokens_nil : segmentTokens [] = .ok [] := by
  rw [segmentTokens]

/-- The tokens of a list of segments, each after a boundary. -/
def segmentsTokens : List (List Symbol) → Except TooManyDigits (List Token)
  | [] => .ok []
  | segment :: rest =>
    match segmentTokens segment with
    | .error e => .error e
    | .ok tokens =>
      match segmentsTokens rest with
      | .error e => .error e
      | .ok more => .ok (.boundary :: tokens ++ more)

def patternTokens (pattern : List Symbol) : Except TooManyDigits (List Token) :=
  segmentsTokens (pattern.splitOn (.scalar '/'))

end Token

end EditorSettings
