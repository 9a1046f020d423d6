import EditorSettings.Glob.Basic
import EditorSettings.Proofs.Glob.Leftover
import EditorSettings.Proofs.Glob.Load
import EditorSettings.Proofs.Glob.Numbers
import EditorSettings.Proofs.Glob.Resumption

/-! # Matching without faults

Few things can go wrong while a program is run: a choice may have no branch, the branches that are left to
try may have run out, and a number may have too many digits to be written or read.  A search that is in
such a place is `Faulty`, and no search for a compiled pattern ever is (`matching_never_fails`).

The digits in a path are not limited by anything, so dropping a number has to keep off the long runs of
them.  `Cursor.dropNumberChecked` reads each candidate within the limit of `Decimal.read` and fails beyond it.
It is the same as `Cursor.dropNumber` for all bounds and cursors (`Cursor.dropNumberChecked_eq`): the wider
bound was written within the limit, and no candidate has more digits than it.
-/

namespace EditorSettings

/-! ## Reading within the limit -/

theorem Decimal.width_le {n w : Nat} (h : width n = .ok w) : w ≤ digitLimit := by
  unfold width at h
  split at h
  · cases h
  next fits =>
    cases h
    exact Nat.le_of_not_lt fits

namespace Cursor

/-- Drop the number in the last `length` digits, as `dropDigits` does, but read it within the limit. -/
def dropDigitsChecked (low high : Int) (left : List UInt8) (run length : Nat) :
    Except TooManyDigits (Option (List UInt8)) :=
  let digits := left.take length
  if 1 < length ∧ digits.getLast? = some 0x30 then .ok none
  else
    match Decimal.read (digits.reverse.map fun b => Char.ofNat b.toNat) with
    | .error e => .error e
    | .ok n =>
      let value : Int := n
      .ok <|
        if length = run ∧ left[run]? = some 0x2D ∧ low ≤ -value ∧ -value ≤ high then
          some (left.drop (run + 1))
        else if low ≤ value ∧ value ≤ high then some (left.drop length)
        else none

def dropLongestChecked (low high : Int) (left : List UInt8) (run : Nat) :
    Nat → Except TooManyDigits (Option (List UInt8))
  | 0 => .ok none
  | length + 1 =>
    match dropDigitsChecked low high left run (length + 1) with
    | .error e => .error e
    | .ok (some rest) => .ok (some rest)
    | .ok none => dropLongestChecked low high left run length

/-- Drop the longest number between the bounds, and fail if a number is read or written beyond the limit. -/
def dropNumberChecked (low high : Int) : Cursor → Except TooManyDigits (Option Cursor)
  | .root => .ok none
  | .within left above =>
    let run := (left.takeWhile isDigit).length
    if run = 0 then .ok none
    else
      match Decimal.width (max low.natAbs high.natAbs) with
      | .error e => .error e
      | .ok width =>
        (dropLongestChecked low high left run (min run width)).map fun rest? =>
          rest?.map (.within · above)

section Checked

variable {low high : Int} {left : List UInt8}

theorem dropDigitsChecked_eq {length : Nat} (short : length ≤ (left.takeWhile isDigit).length)
    (within : length ≤ Decimal.digitLimit) (run : Nat) :
    dropDigitsChecked low high left run length = .ok (dropDigits low high left run length) := by
  obtain ⟨digits, rest, rfl, rfl, all⟩ := exists_ending short
  have size : (digits.reverse.map TextCursor.byte).length = digits.length := by simp
  have text : (digits.reverse.map TextCursor.byte).reverse.map (fun b => Char.ofNat b.toNat) = digits := by
    rw [← List.map_reverse, List.reverse_reverse, List.map_map]
    refine (List.map_congr_left fun c member => ?_).trans (List.map_id digits)
    rw [Function.comp, TextCursor.toNat_byte (Decimal.ascii_of_isDigit (all c member)), Char.ofNat_toNat]
    rfl
  unfold dropDigitsChecked dropDigits
  simp only [List.take_left' size, text, Decimal.read_eq_ok within,
    digitsValue_reverse all]
  split <;> rfl

theorem dropLongestChecked_eq {length : Nat} (short : length ≤ (left.takeWhile isDigit).length)
    (within : length ≤ Decimal.digitLimit) (run : Nat) :
    dropLongestChecked low high left run length = .ok (dropLongest low high left run length) := by
  induction length with
  | zero => rfl
  | succ length ih =>
    have here : dropDigitsChecked low high left run (length + 1) =
        .ok (dropDigits low high left run (length + 1)) :=
      dropDigitsChecked_eq short within run
    have later := ih (Nat.le_of_succ_le short) (Nat.le_of_succ_le within)
    rw [dropLongestChecked, dropLongest, here]
    cases dropDigits low high left run (length + 1) with
    | none => exact later
    | some rest => rfl

/-- No number is read beyond the limit, whatever the bounds are and however many digits there are. -/
theorem dropNumberChecked_eq (low high : Int) (c : Cursor) :
    c.dropNumberChecked low high = c.dropNumber low high := by
  cases c with
  | root => rfl
  | within left above =>
    simp only [dropNumberChecked, dropNumber]
    cases wide : Decimal.width (max low.natAbs high.natAbs) with
    | error e => rfl
    | ok width =>
      have within := Decimal.width_le wide
      simp only [dropLongestChecked_eq (Nat.min_le_left _ _) (Nat.le_trans (Nat.min_le_right _ width) within)]
      rfl

end Checked

end Cursor

/-! ## Faulty states -/

/-- The next step of a search cannot be taken. -/
inductive Search.Faulty : Search → Prop
  | noBranch {branch pending outer cursor choices resumed} :
      Faulty ⟨.advancing (⟨branch, .choice [] :: pending⟩ :: outer) cursor, choices, resumed⟩
  | tooManyDigits {branch low high pending outer cursor choices resumed e}
      (fails : cursor.dropNumberChecked low high = .error e) :
      Faulty ⟨.advancing (⟨branch, .atom (.number low high) :: pending⟩ :: outer) cursor, choices,
        resumed⟩
  /-- The next branch of a choice is to be tried, and there is none. -/
  | noneUntried {cursor k next choices resumed} :
      Faulty ⟨.retreating, .branches cursor k next [] :: choices, resumed⟩

theorem not_fault_pushThen {ceiling : Int} {s : Search} {choice : ChoicePoint} {phase : Phase} {f : Fault} :
    s.pushThen ceiling choice phase ≠ .done (.fault f) := by
  unfold Search.pushThen
  split <;> simp

theorem faulty_of_fault {guarded : Bool} {ceiling : Int} {s : Search} {f : Fault}
    (h : s.step guarded ceiling = .done (.fault f)) : s.Faulty := by
  obtain ⟨phase, choices, resumed⟩ := s
  match phase with
  | .advancing [] _ | .advancing (⟨_, []⟩ :: _) _ => cases h
  | .advancing (⟨branch, .atom a :: pending⟩ :: outer) cursor =>
    have moves : ∃ e, cursor.move a = .error e := by
      simp only [Search.step, Search.consume] at h
      split at h
      next e fails => exact ⟨e, fails⟩
      · cases h
      · cases h
    obtain ⟨e, fails⟩ := moves
    -- every other atom moves or does not, and never fails
    cases a with
    | number low high => exact .tooManyDigits ((cursor.dropNumberChecked_eq low high).trans fails)
    | boundary | anyChar | literal text | charClass members inclusive | root => cases fails
  | .advancing (⟨_, .run crossing :: _⟩ :: _) cursor =>
    simp only [Search.step, Search.consume] at h
    split at h
    · cases h
    · exact absurd h not_fault_pushThen
  | .advancing (⟨_, .choice [] :: _⟩ :: _) _ => exact .noBranch
  | .advancing (⟨_, .choice [_] :: _⟩ :: _) _ => cases h
  | .advancing (⟨_, .choice (_ :: _ :: _) :: _⟩ :: _) _ => exact absurd h not_fault_pushThen
  | .retreating =>
    unfold Search.step at h
    simp only at h
    split at h <;> cases h

section Faults

variable {p : Program} {path : List (Option Component)}

theorem not_faulty (runnable : p.Runnable) {s : Search} (inPlace : s.InPlace p path) : ¬ s.Faulty := by
  intro faulty
  -- a node that is due is a node of the program
  have node {branch n pending outer cursor} (here : Phase.InPlace p path
      (.advancing (⟨branch, n :: pending⟩ :: outer) cursor)) : n.Every Atom.Runnable (· ≠ []) := by
    obtain ⟨whole, place⟩ := here.1.resolve_left (List.cons_ne_nil _ _)
    exact place.every runnable n (place.suffix.subset List.mem_cons_self)
  cases faulty with
  | noBranch => exact (every_choice.1 (node inPlace.phase)).1 rfl
  | tooManyDigits fails =>
    rename_i cursor _ _ _
    obtain ⟨moved, move⟩ := move_of_runnable (every_atom.1 (node inPlace.phase)) cursor
    rw [Cursor.dropNumberChecked_eq] at fails
    cases fails.symm.trans move
  | noneUntried =>
    cases inPlace.choices _ List.mem_cons_self with
    | branches _ _ _ ne _ => exact ne rfl

theorem consistent_reaches (runnable : p.Runnable) {guarded : Bool} {ceiling : Int} {s t : Search}
    (inv : s.Consistent p path) (reached : s.Reaches guarded ceiling t) : t.Consistent p path := by
  induction reached with
  | refl => exact inv
  | tail _ step ih => exact (consistent_step runnable ih step).1

end Faults

/-- A compiled pattern is matched without a fault, whatever the path is and wherever the ceiling: the search
comes to an end, and could take every step on its way there. -/
theorem matching_never_fails {ceiling : Int} {pattern : List Symbol} {g : Glob}
    (compiled : Glob.compileWith ceiling pattern = .ok g) (reading : Reading) (path : List Component) :
    (∀ f, g.outcome? reading path ≠ some (.fault f)) ∧
    ∀ c, Cursor.start reading path = some c →
      (∀ s, (Search.start g.program c).Reaches true g.ceiling s → ¬ s.Faulty) ∧
      ∃ last o, (Search.start g.program c).Reaches true g.ceiling last ∧
        last.step true g.ceiling = .done o ∧ g.outcome? reading path = some o := by
  obtain ⟨made, _⟩ := Glob.compile_of_compileWith compiled
  obtain ⟨runnable, _⟩ := starts_compile made
  have run (c : Cursor) (start : Cursor.start reading path = some c) :
      (∀ s, (Search.start g.program c).Reaches true g.ceiling s → ¬ s.Faulty) ∧
      ∃ last o, (Search.start g.program c).Reaches true g.ceiling last ∧
        last.step true g.ceiling = .done o ∧ g.outcome? reading path = some o := by
    have inv := consistent_start (p := g.program) (on_start start)
    obtain ⟨last, reached, done⟩ := reaches_run true g.ceiling (Search.start g.program c)
    exact ⟨fun s reached => not_faulty runnable (consistent_reaches runnable inv reached).toInPlace,
      last, _, reached, done, Glob.outcome?_of_start start⟩
  refine ⟨fun f fault => ?_, run⟩
  obtain ⟨c, start, _⟩ := Option.map_eq_some_iff.1 fault
  obtain ⟨sound, last, o, reached, done, outcome⟩ := run c start
  cases outcome.symm.trans fault
  exact sound last reached (faulty_of_fault done)

def letterOrNumber : Glob where
  pattern := Symbol.ofText "{a,{1..20}}".toList
  program := [.boundary, .choice [[.symbol (.scalar 'a')], [.atom (.number 1 20)]]]
  ceiling := 512

theorem matching_never_fails_letterOrNumber :
    Glob.compileWith 512 letterOrNumber.pattern = .ok letterOrNumber ∧
      (∀ f, letterOrNumber.outcome? .raw [List.replicate 5000 0x37] ≠ some (.fault f)) ∧
      ∃ last o, (Search.start letterOrNumber.program (.within (List.replicate 5000 0x37) [])).Reaches
        true 512 last ∧ last.step true 512 = .done o ∧ ¬ last.Faulty := by
  have compiled : Glob.compileWith 512 letterOrNumber.pattern = .ok letterOrNumber :=
    Glob.compileWith_of_compile (by decide +kernel) 512
  have start (name : Component) : Cursor.start .raw [name] = some (.within name.reverse []) := rfl
  obtain ⟨faultless, ends⟩ := matching_never_fails compiled .raw [List.replicate 5000 0x37]
  obtain ⟨sound, last, o, reached, done, _⟩ := ends _ (start _)
  rw [List.reverse_replicate] at sound reached
  exact ⟨compiled, faultless, last, o, reached, done, sound last reached⟩

end EditorSettings
