import EditorSettings.Proofs.Glob.Classes
import EditorSettings.Proofs.Glob.Shape
import EditorSettings.Proofs.Text.Pieces
import EditorSettings.Glob.Token

/-! # Scanning patterns

`Scans s ts` says that the symbols `s` are read as the tokens `ts`, after the boundary with which every
pattern starts.  A text is scanned piece by piece: `scans_slash` and `scans_cons` put a slash or one
readable piece in front of a text that is scanned already, whatever comes after it.  The pieces are
the ones that `Atom.render` writes, so each of them can be read again.
-/

namespace EditorSettings

/-- A pattern is read as a boundary and these tokens. -/
def Scans (s : List Symbol) (ts : List Token) : Prop :=
  Token.patternTokens s = .ok (.boundary :: ts)

theorem scans_nil : Scans [] [] := by
  simp [Scans, Token.patternTokens, Token.segmentsTokens]

theorem scans_slash {s : List Symbol} {ts : List Token} (h : Scans s ts) :
    Scans (.scalar '/' :: s) (.boundary :: ts) := by
  unfold Scans Token.patternTokens at h ⊢
  rw [List.splitOn_cons_eq_if_modifyHead, if_pos (beq_self_eq_true _), Token.segmentsTokens,
    Token.segmentTokens_nil, h]
  rfl

theorem segmentTokens_cons {s : Symbol} {rest more : List Symbol} {first others : List Token}
    (read : Token.readToken s rest = .ok (first, more)) (h : Token.segmentTokens more = .ok others) :
    Token.segmentTokens (s :: rest) = .ok (first ++ others) := by
  rw [Token.segmentTokens]
  split
  next e fails => cases read.symm.trans fails
  next tokens left here =>
    cases read.symm.trans here
    rw [h]

/-- A piece without slashes in front of a scanned text, if it is read whenever what follows starts as
that text does or a segment ends. -/
theorem scans_cons {c : Symbol} {text s : List Symbol} {first ts : List Token}
    (free : .scalar '/' ∉ c :: text)
    (read : ∀ rest : List Symbol, (∀ x, rest.head? = some x → s.head? = some x) →
      Token.readToken c (text ++ rest) = .ok (first, rest))
    (h : Scans s ts) : Scans (c :: (text ++ s)) (first ++ ts) := by
  unfold Scans Token.patternTokens at h ⊢
  rw [← List.cons_append, splitOn_append_of_not_mem free]
  cases cut : s.splitOn (.scalar '/') with
  | nil => exact absurd cut (List.splitOn_ne_nil _ s)
  -- the piece is read in front of the first segment only, which may be shorter than the text
  | cons segment rest =>
    rw [cut] at h
    rw [List.modifyHead_cons]
    unfold Token.segmentsTokens at h ⊢
    split at h
    · cases h
    next tokens scanned =>
      split at h
      · cases h
      next others scanned' =>
        cases h
        have here := read segment fun x first => head?_of_splitOn cut first
        rw [List.cons_append, segmentTokens_cons here scanned]
        show Except.ok (.boundary :: (first ++ tokens ++ others)) = _
        rw [List.append_assoc]
        rfl

theorem scans_symbol {c : Symbol} {s : List Symbol} {t : Token} {ts : List Token}
    (other : .scalar '/' ≠ c)
    (read : ∀ rest : List Symbol, (∀ x, rest.head? = some x → s.head? = some x) →
      Token.readToken c rest = .ok ([t], rest))
    (h : Scans s ts) : Scans (c :: s) (t :: ts) := by
  have free : .scalar '/' ∉ [c] := by
    rwa [List.mem_singleton]
  exact scans_cons free read h

end EditorSettings
