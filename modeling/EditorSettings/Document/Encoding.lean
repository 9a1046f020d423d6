import EditorSettings.Text.Utf8

/-!
# The text of a file

A file is UTF-8.  It may start with a byte order mark, which is dropped, and its lines may end in
a newline, in a carriage return or in both.

* `Encoding.withoutMark` drops the mark; a file that ends inside the mark is empty.
* `Encoding.unified` makes a newline of every line end.
* `Encoding.decode` reads a file.
-/

namespace EditorSettings.Encoding

def mark : List UInt8 := [0xEF, 0xBB, 0xBF]

/-- The bytes after a byte order mark, or after the part of one that is all there is. -/
def withoutMark (bytes : List UInt8) : List UInt8 :=
  if mark.isPrefixOf bytes then bytes.drop mark.length
  else if bytes.isPrefixOf mark then []
  else bytes

/-- The text with every line end as a newline, after a carriage return or not.  The carriage
return has made a newline already, so a newline right after it is dropped. -/
def unifiedAfter (afterReturn : Bool) : Text → Text
  | [] => []
  | c :: rest =>
    if c = '\r' then '\n' :: unifiedAfter true rest
    else if c = '\n' && afterReturn then unifiedAfter false rest
    else c :: unifiedAfter false rest

def unified (t : Text) : Text := unifiedAfter false t

def decode (bytes : List UInt8) : Except Utf8.Malformed Text :=
  match Utf8.decode (withoutMark bytes) with
  | .error e => .error e
  | .ok t => .ok (unified t)

theorem unified_eq_self {t : Text} (h : '\r' ∉ t) : unified t = t := by
  unfold unified
  induction t with
  | nil => rfl
  | cons c rest ih =>
    simp only [List.mem_cons, not_or] at h
    simp [unifiedAfter, Ne.symm h.1, ih h.2]

end EditorSettings.Encoding
