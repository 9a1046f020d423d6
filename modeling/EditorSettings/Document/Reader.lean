import EditorSettings.Document.Section
import EditorSettings.Line

/-!
# Reading a settings file

The lines before the first header are the preamble, of which only the key `root` counts.  After
it come the sections.  A reader has read the preamble and then hands out one section after the
other, each when the header of the next one has been seen.

* `Reader.ofLines` and `Reader.ofText` read the preamble.
* `Reader.next` reads one section.  A malformed line ends the reading: the section that it stands
  in is lost, and no section comes after it.
* `Reader.all` is everything that `next` hands out, up to the first failure.
* `Reader.applyTo` applies the sections that are left to the properties of a file.
-/

namespace EditorSettings

/-- A settings file of which a part has been read. -/
structure Reader where
  path : Option Path
  /-- Whether the preamble says that settings of outer directories do not count. -/
  isRoot : Bool
  header : Option Text
  rest : List Text
  lineNo : Nat
  deriving DecidableEq

namespace Reader

/-! ## The preamble -/

/-- Whether the file is a root after a pair of its preamble. -/
def rootAfter (isRoot : Bool) (key value : Text) : Bool :=
  if Text.lower key = "root".toList then
    if Text.lower value = "true".toList then true
    else if Text.lower value = "false".toList then false
    else isRoot
  else isRoot

/-- Read the preamble, `lineNo` lines of which have been read. -/
def preamble (path : Option Path) (isRoot : Bool) (lineNo : Nat) :
    List Text → Except ParseError Reader
  | [] => .ok ⟨path, isRoot, none, [], lineNo⟩
  | t :: rest =>
    match Line.parseAt (path.map Path.text) (lineNo + 1) t with
    | .error e => .error e
    | .ok .blank => preamble path isRoot (lineNo + 1) rest
    | .ok (.header pattern) => .ok ⟨path, isRoot, some pattern, rest, lineNo + 1⟩
    | .ok (.pair key value) => preamble path (rootAfter isRoot key value) (lineNo + 1) rest

def ofLines (path : Option Path) (lines : List Text) : Except ParseError Reader :=
  preamble path false 0 lines

def ofText (path : Option Path) (t : Text) : Except ParseError Reader := ofLines path (Text.lines t)

/-! ## Sections -/

def valueAt (path : Option Path) (lineNo : Nat) (t : Text) : Value :=
  ⟨t, path.map fun p => ⟨p, lineNo⟩⟩

/-- Read the pairs of a section, and the header of the next one if there is one. -/
def body (r : Reader) (s : Section) (lineNo : Nat) :
    List Text → Except ParseError Section × Reader
  | [] => (.ok s, { r with header := none, rest := [], lineNo })
  | t :: rest =>
    match Line.parseAt (r.path.map Path.text) (lineNo + 1) t with
    -- without a header the next call finds no section
    | .error e => (.error e, { r with header := none, rest, lineNo := lineNo + 1 })
    | .ok .blank => body r s (lineNo + 1) rest
    | .ok (.header pattern) =>
      (.ok s, { r with header := some pattern, rest, lineNo := lineNo + 1 })
    | .ok (.pair key value) =>
      body r (s.insert key (valueAt r.path (lineNo + 1) value)) (lineNo + 1) rest

/-- Read one section.  There is none if no header has been seen.  A header that cannot be
compiled stays where it is. -/
def next (r : Reader) : Option (Except Failure Section × Reader) :=
  match r.header with
  | none => none
  | some pattern =>
    match Section.ofPattern pattern with
    -- nothing has been read, so another call fails in the same way
    | .error e => some (.error (.tooManyDigits e), r)
    | .ok s =>
      match r.body s r.lineNo r.rest with
      | (.error e, after) => some (.error (.malformed e), after)
      | (.ok s, after) => some (.ok s, after)

/-- What is left to read: two for a line, and one for a header. -/
def remaining (r : Reader) : Nat := 2 * r.rest.length + r.header.toList.length

theorem remaining_body_le {r after : Reader} {s : Section} {lineNo : Nat} {lines : List Text}
    {result : Except ParseError Section} (h : r.body s lineNo lines = (result, after)) :
    after.remaining ≤ 2 * lines.length := by
  induction lines generalizing s lineNo with
  | nil => cases h; simp [remaining]
  | cons t rest ih =>
    unfold body at h
    split at h
    · cases h; simp only [remaining, Option.toList_none, List.length_cons, List.length_nil]; omega
    · have := ih h
      simp only [List.length_cons]; omega
    · cases h; simp only [remaining, Option.toList_some, List.length_cons, List.length_nil]; omega
    · have := ih h
      simp only [List.length_cons]; omega

theorem remaining_next_lt {r after : Reader} {s : Section} (h : r.next = some (.ok s, after)) :
    after.remaining < r.remaining := by
  unfold next at h
  split at h
  · cases h
  · next pattern hp =>
    split at h
    · cases h
    · split at h
      · cases h
      · next hb =>
        cases h
        have := remaining_body_le hb
        simp only [remaining, hp, Option.toList_some, List.length_cons, List.length_nil] at this ⊢
        omega

/-- What one call of `next` gave, and the number of lines read after it. -/
structure Yield where
  pattern : Text
  result : Except Failure Section
  lineNo : Nat

/-- Everything that `next` hands out up to the first failure, and the reader after it. -/
def all (r : Reader) : List Yield × Reader :=
  match _h : r.next with
  | none => ([], r)
  | some (.error e, after) => ([⟨r.header.getD [], .error e, after.lineNo⟩], after)
  | some (.ok s, after) =>
    let later := after.all
    (⟨s.pattern, .ok s, after.lineNo⟩ :: later.1, later.2)
termination_by r.remaining
decreasing_by exact remaining_next_lt _h

def sections (r : Reader) : List Section := r.all.1.filterMap fun y => y.result.toOption

/-- The failure that ends the reading, if one does. -/
def failure? (r : Reader) : Option Failure :=
  r.all.1.getLast?.bind fun y =>
    match y.result with
    | .error e => some e
    | .ok _ => none

/-- Apply the sections that are left, up to the first failure, to the properties of a file. -/
def applyTo (r : Reader) (path : List Component) (target : Properties) : Properties :=
  r.sections.foldl (fun target s => s.applyTo path target) target

end Reader

end EditorSettings
