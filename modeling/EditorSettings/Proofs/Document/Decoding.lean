import EditorSettings.Document.File
import EditorSettings.Proofs.Document.Layout
import EditorSettings.Proofs.Text.Utf8

/-! # How a file is encoded

`Encoding.encode` writes the text of a file with or without a byte order mark, and its lines with one
of the three line ends.  All six encodings are read as the text (`decode_encode`), so a file is what its text
is (`encoding_is_irrelevant`).
-/

namespace EditorSettings

namespace EndOfLine

/-- The text with its newlines written as the line end. -/
def written : EndOfLine → Text → Text
  | lf, t => t
  | crlf, t => Text.crlf t
  | cr, t => t.map fun c => if c = '\n' then '\r' else c

theorem head?_written {c : Char} {t : Text} (visible : Text.isBlank c = false) (ending : EndOfLine)
    (head : (ending.written t).head? = some c) : t.head? = some c := by
  cases t with
  | nil => cases ending <;> cases head
  | cons d t =>
    cases ending with
    | lf => exact head
    | crlf =>
      rw [written, Text.crlf, List.flatMap_cons] at head
      split at head <;> cases head
      · cases visible
      · rfl
    | cr =>
      rw [written, List.map_cons] at head
      split at head <;> cases head
      · cases visible
      · rfl

end EndOfLine

namespace Encoding

/-! ## Line ends -/

/-- The newline of a line end belongs to the carriage return before it. -/
theorem unified_crlf {t : Text} (noReturn : '\r' ∉ t) : unified (Text.crlf t) = t := by
  rw [unified]
  induction t with
  | nil => rfl
  | cons c t ih =>
    obtain ⟨other, others⟩ := not_or.1 (mt List.mem_cons.2 noReturn)
    rw [Text.crlf, List.flatMap_cons]
    by_cases newline : c = '\n'
    · subst newline
      exact congrArg ('\n' :: ·) (ih others)
    · rw [if_neg newline, List.singleton_append, unifiedAfter, if_neg (Ne.symm other), Bool.and_false]
      exact congrArg (c :: ·) (ih others)

/-- No newline is left that could belong to a carriage return. -/
theorem unified_cr {t : Text} (noReturn : '\r' ∉ t) : unified (EndOfLine.cr.written t) = t := by
  have all : ∀ afterReturn, unifiedAfter afterReturn (EndOfLine.cr.written t) = t := by
    induction t with
    | nil => exact fun _ => rfl
    | cons c t ih =>
      intro afterReturn
      obtain ⟨other, others⟩ := not_or.1 (mt List.mem_cons.2 noReturn)
      by_cases newline : c = '\n'
      · subst newline
        exact congrArg ('\n' :: ·) (ih others true)
      · have kept : EndOfLine.cr.written (c :: t) = c :: EndOfLine.cr.written t :=
          congrArg (· :: _) (if_neg newline)
        rw [kept, unifiedAfter, if_neg (Ne.symm other), if_neg (by simp [newline]), ih others false]
  exact all false

theorem unified_written {t : Text} (noReturn : '\r' ∉ t) (ending : EndOfLine) :
    unified (ending.written t) = t := by
  cases ending with
  | lf => exact unified_eq_self noReturn
  | crlf => exact unified_crlf noReturn
  | cr => exact unified_cr noReturn

/-! ## The mark -/

theorem mark_eq_encode : mark = Utf8.encode ['\uFEFF'] := by decide

theorem withoutMark_mark_append (bytes : List UInt8) : withoutMark (mark ++ bytes) = bytes := by
  rw [withoutMark, if_pos (List.isPrefixOf_iff_prefix.2 (List.prefix_append _ _)), List.drop_left]

/-- The mark is a character, and bytes that are read as other characters do not start with it. -/
theorem withoutMark_encode {t : Text} (first : t.head? ≠ some '\uFEFF') :
    withoutMark (Utf8.encode t) = Utf8.encode t := by
  rw [withoutMark, mark_eq_encode]
  simp only [List.isPrefixOf_iff_prefix, Utf8.encode_prefix_encode]
  rw [if_neg (mt List.singleton_prefix_iff_head?_eq_some.1 first)]
  split
  next start =>
    cases t with
    | nil => rfl
    | cons c t => exact absurd (congrArg some (List.cons_prefix_cons.1 start).1) first
  next => rfl

/-! ## Reading back -/

def encode (marked : Bool) (ending : EndOfLine) (t : Text) : List UInt8 :=
  (if marked then mark else []) ++ Utf8.encode (ending.written t)

theorem withoutMark_encoded {t : Text} (first : t.head? ≠ some '\uFEFF') (marked : Bool) (ending : EndOfLine) :
    withoutMark (encode marked ending t) = Utf8.encode (ending.written t) := by
  cases marked with
  | true => exact withoutMark_mark_append _
  | false => exact withoutMark_encode (mt (ending.head?_written rfl) first)

theorem decode_encode {t : Text} (noReturn : '\r' ∉ t) (first : t.head? ≠ some '\uFEFF') (marked : Bool)
    (ending : EndOfLine) : decode (encode marked ending t) = .ok t := by
  rw [decode, withoutMark_encoded first, Utf8.decode_encode]
  exact congrArg Except.ok (unified_written noReturn ending)

end Encoding

namespace SettingsFile

/-- A file whose bytes are a text, in whatever encoding, is read as the text is: the preamble, the sections
with the sources of their values, and the errors are those of the text. -/
theorem encoding_is_irrelevant {fs : FileSystem} {path : Path} {t : Text} (noReturn : '\r' ∉ t)
    (first : t.head? ≠ some '\uFEFF') (marked : Bool) (ending : EndOfLine)
    (stored : fs.read path = .ok (Encoding.encode marked ending t)) :
    load fs path = match Reader.ofText (some path) t with
      | .error e => .error (.malformed e)
      | .ok reader => .ok ⟨path, reader⟩ := by
  rw [load, stored]
  dsimp only
  rw [ofBytes, Encoding.decode_encode noReturn first]
  dsimp only
  cases Reader.ofText (some path) t <;> rfl

/-- Every file is marked, and its lines end in both characters.  A line separator and another mark stand
inside a line. -/
def markedFile : FileSystem where
  cwd := ⟨.root, []⟩
  read _ := .ok (Encoding.mark ++ Utf8.encode "root = true\r\n[a]\r\nk = x\u2028\uFEFFy".toList)

theorem encoding_is_irrelevant_markedFile :
    let path : Path := ⟨.root, [['s']]⟩
    let t : Text := "root = true\n[a]\nk = x\u2028\uFEFFy".toList
    '\r' ∉ t ∧ t.head? ≠ some '\uFEFF' ∧
      markedFile.read path = .ok (Encoding.encode true .crlf t) ∧
      load markedFile path =
        .ok ⟨path, ⟨some path, true, some ['a'], ["k = x\u2028\uFEFFy".toList], 2⟩⟩ := by
  intro path t
  have noReturn : '\r' ∉ t := by decide
  have first : t.head? ≠ some '\uFEFF' := by decide
  have stored : markedFile.read path = .ok (Encoding.encode true .crlf t) := by rfl
  have opened : Reader.ofText (some path) t =
      .ok ⟨some path, true, some ['a'], ["k = x\u2028\uFEFFy".toList], 2⟩ := by
    rfl
  refine ⟨noReturn, first, stored, ?_⟩
  rw [encoding_is_irrelevant noReturn first true .crlf stored, opened]

end SettingsFile

end EditorSettings
