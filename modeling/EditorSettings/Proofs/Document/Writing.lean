import EditorSettings.Proofs.Document.Reading

/-! # Files that are written

A file that is written as a setting for `root` and then sections is read back: each section comes with its
header and its pairs, and the values tell the lines they were written to (`reading_undoes_writing`).
-/

namespace EditorSettings

structure WrittenSection where
  pattern : Text
  pairs : List (Text × Text)

/-- A file to be written: what it says of `root`, if anything, and its sections. -/
structure WrittenFile where
  root : Option Bool
  sections : List WrittenSection

namespace WrittenSection

def headerLine (s : WrittenSection) : Text := '[' :: (s.pattern ++ [']'])

def pairLine (pair : Text × Text) : Text := pair.1 ++ " = ".toList ++ pair.2

def lines (s : WrittenSection) : List Text := s.headerLine :: s.pairs.map pairLine

/-- Pairs as they are read in the lines below a number of others. -/
def numbered (path : Option Path) (above : Nat) (pairs : List (Text × Text)) : List (Text × Value) :=
  pairs.mapIdx fun i pair => (Text.lower pair.1, ⟨pair.2, path.map fun p => ⟨p, (above + i + 1 : Nat)⟩⟩)

/-- A section that is read has the header and the pairs of the one that was written. -/
structure ReadAs (path : Option Path) (above : Nat) (s : WrittenSection) (read : Section) : Prop where
  pattern : read.pattern = s.pattern
  compiled : Glob.compile (Symbol.ofText s.pattern) = .ok read.glob
  props : read.props.LastWins (numbered path above s.pairs)

/-- The section can be read back. -/
structure Legible (s : WrittenSection) : Prop where
  ne : s.pattern ≠ []
  pattern : '\n' ∉ s.pattern
  compiles : ∃ glob, Glob.compile (Symbol.ofText s.pattern) = .ok glob
  keys : ∀ pair ∈ s.pairs, Line.IsKey pair.1 ∧ '\n' ∉ pair.1
  values : ∀ pair ∈ s.pairs, Line.IsValue pair.2 ∧ '\n' ∉ pair.2

section Lines

variable {s : WrittenSection} {above : List Text}

@[simp] theorem length_lines (s : WrittenSection) : s.lines.length = s.pairs.length + 1 := by
  simp [lines]

@[simp] theorem numbered_cons (path : Option Path) (n : Nat) (pair : Text × Text)
    (pairs : List (Text × Text)) :
    numbered path n (pair :: pairs) =
      (Text.lower pair.1, ⟨pair.2, path.map fun p => ⟨p, (n + 1 : Nat)⟩⟩) ::
        numbered path (n + 1) pairs := by
  have shift (i : Nat) : n + (i + 1) + 1 = n + 1 + i + 1 := by omega
  rw [numbered, List.mapIdx_cons]
  simp only [shift]
  rfl

theorem parse_headerLine (h : s.Legible) : Line.parse s.headerLine = .ok (.header s.pattern) := by
  have read : Line.parse ([] ++ s.headerLine ++ []) = .ok (.header s.pattern) :=
    Line.parse_header h.ne nofun nofun
  rwa [List.nil_append, List.append_nil] at read

theorem parse_pairLine {pair : Text × Text} (isKey : Line.IsKey pair.1) (isValue : Line.IsValue pair.2) :
    Line.parse (pairLine pair) = .ok (.pair pair.1 pair.2) := by
  have read : Line.parse ([] ++ (pair.1 ++ [' '] ++ '=' :: ([' '] ++ pair.2)) ++ []) =
      .ok (.pair pair.1 pair.2) :=
    Line.parse_pair isKey isValue nofun (List.forall_mem_singleton.2 rfl)
      (List.forall_mem_singleton.2 rfl) nofun
  simpa [pairLine] using read

theorem plain_of_mem_pairs (h : s.Legible) : ∀ t ∈ s.pairs.map pairLine, Line.Plain t := by
  intro t member
  obtain ⟨pair, inside, rfl⟩ := List.mem_map.1 member
  exact .pair (parse_pairLine (h.keys pair inside).1 (h.values pair inside).1)

theorem newline_not_mem_lines (h : s.Legible) : ∀ t ∈ s.lines, '\n' ∉ t := by
  intro t member
  rcases List.mem_cons.1 member with rfl | member
  · simp [headerLine, h.pattern]
  · obtain ⟨pair, inside, rfl⟩ := List.mem_map.1 member
    simp [pairLine, (h.keys pair inside).2, (h.values pair inside).2]

/-- Lines that are written for pairs set these pairs. -/
theorem entries_pairs {pattern : Text} {pairs : List (Text × Text)}
    (under : headerBelow above = some pattern) (keys : ∀ pair ∈ pairs, Line.IsKey pair.1)
    (values : ∀ pair ∈ pairs, Line.IsValue pair.2) (path : Option Path) :
    (settingsBelow above (pairs.map pairLine)).map (Setting.entry path) =
      numbered path above.length pairs := by
  induction pairs generalizing above with
  | nil => rfl
  | cons pair pairs ih =>
    obtain ⟨isKey, otherKeys⟩ := List.forall_mem_cons.1 keys
    obtain ⟨isValue, otherValues⟩ := List.forall_mem_cons.1 values
    have read := parse_pairLine isKey isValue
    have below : headerBelow (above ++ [pairLine pair]) = some pattern := by
      rw [headerBelow_concat, (Line.Plain.pair read).header?, Option.none_or, under]
    rw [List.map_cons, settingsBelow_cons, settingIn_of_pair under read, List.map_append,
      ih below otherKeys otherValues, List.length_append, numbered_cons]
    rfl

end Lines

end WrittenSection

open WrittenSection

namespace WrittenFile

def rootLine (isRoot : Bool) : Text := if isRoot then "root = true".toList else "root = false".toList

def preambleLines (w : WrittenFile) : List Text := w.root.toList.map rootLine

def linesBefore (w : WrittenFile) (i : Nat) : List Text :=
  w.preambleLines ++ (w.sections.take i).flatMap WrittenSection.lines

def lines (w : WrittenFile) : List Text := w.preambleLines ++ w.sections.flatMap WrittenSection.lines

def text (w : WrittenFile) : Text := w.lines.flatMap (· ++ ['\n'])

end WrittenFile

namespace Reader

/-- The reader that has read the lines above written sections, and the first header of these. -/
def before (path : Option Path) (isRoot : Bool) (above : List Text) : List WrittenSection → Reader
  | [] => ⟨path, isRoot, none, [], above.length⟩
  | s :: rest =>
    ⟨path, isRoot, some s.pattern, s.pairs.map pairLine ++ rest.flatMap WrittenSection.lines,
      above.length + 1⟩

section Written

variable {path : Option Path} {isRoot : Bool} {above : List Text} {s : WrittenSection}
  {rest sections : List WrittenSection}

theorem stands_before (h : s.Legible) (rest : List WrittenSection) :
    (before path isRoot above (s :: rest)).Stands (above ++ [s.headerLine]) where
  lineNo := by simp [before]
  header := by
    intro pattern same
    cases same
    exact headerBelow_header (parse_headerLine h) above
  done := nofun

theorem next_before {glob : Glob} (h : s.Legible)
    (compiled : Glob.compile (Symbol.ofText s.pattern) = .ok glob) (others : ∀ s ∈ rest, s.Legible) :
    (before path isRoot above (s :: rest)).next =
      some (.ok ⟨s.pattern, glob, .ofList (numbered path (above.length + 1) s.pairs)⟩,
        before path isRoot (above ++ s.lines) rest) := by
  have made : Section.ofPattern s.pattern = .ok ⟨s.pattern, glob, .empty⟩ := by
    rw [Section.ofPattern, compiled]
  have stands : (before path isRoot above (s :: rest)).Stands (above ++ [s.headerLine]) :=
    stands_before h rest
  have plain := plain_of_mem_pairs h
  have entries := entries_pairs (headerBelow_header (parse_headerLine h) above)
    (fun pair inside => (h.keys pair inside).1) (fun pair inside => (h.values pair inside).1) path
  rw [List.length_append, List.length_singleton] at entries
  -- the block of pairs ends with the file or with the header of the next section
  cases rest with
  | nil =>
    have all : (before path isRoot above [s]).rest = s.pairs.map pairLine := List.append_nil _
    rw [next_last rfl made stands (all ▸ plain), all]
    simp [before, Section.setAll, entries, Properties.ofList]
  | cons following rest =>
    have next := (List.forall_mem_cons.1 others).1
    have split : (before path isRoot above (s :: following :: rest)).rest = s.pairs.map pairLine ++
        following.headerLine :: (following.pairs.map pairLine ++ rest.flatMap WrittenSection.lines) := by
      rw [before, List.flatMap_cons, WrittenSection.lines, List.cons_append]
    rw [next_header rfl made stands split plain (parse_headerLine next)]
    simp [before, Section.setAll, entries, Properties.ofList, Nat.add_comm, Nat.add_left_comm]

theorem all_before (legible : ∀ s ∈ sections, s.Legible) (path : Option Path) (isRoot : Bool)
    (above : List Text) :
    (before path isRoot above sections).all.1.length = sections.length ∧
      (∀ (i : Nat) (s : WrittenSection), sections[i]? = some s →
        ∃ read : Section,
          ((before path isRoot above sections).all.1.map Yield.result)[i]? = some (.ok read) ∧
          s.ReadAs path ((above ++ (sections.take i).flatMap WrittenSection.lines).length + 1) read) ∧
      (before path isRoot above sections).all.2 =
        before path isRoot (above ++ sections.flatMap WrittenSection.lines) [] := by
  induction sections generalizing above with
  | nil =>
    rw [all_of_none (next_eq_none_iff.2 rfl), List.flatMap_nil, List.append_nil]
    exact ⟨rfl, nofun, rfl⟩
  | cons first rest ih =>
    obtain ⟨here, others⟩ := List.forall_mem_cons.1 legible
    obtain ⟨glob, compiled⟩ := here.compiles
    obtain ⟨count, each, last⟩ := ih others (above ++ first.lines)
    rw [all_of_ok (next_before here compiled others)]
    refine ⟨congrArg Nat.succ count, ?_, ?_⟩
    · intro i s there
      cases i with
      | zero =>
        cases there
        refine ⟨_, rfl, rfl, compiled, ?_⟩
        rw [List.take_zero, List.flatMap_nil, List.append_nil]
        exact Properties.lastWins_ofList _
      | succ i =>
        rw [List.take_succ_cons, List.flatMap_cons, ← List.append_assoc]
        exact each i s there
    · rw [last, List.flatMap_cons, List.append_assoc]

/-- Behind the preamble the reader stands before the sections. -/
theorem preamble_sections (legible : ∀ s ∈ sections, s.Legible) (above : List Text) :
    preamble path isRoot above.length (sections.flatMap WrittenSection.lines) =
      .ok (before path isRoot above sections) := by
  cases sections with
  | nil => rfl
  | cons first rest =>
    have here := (List.forall_mem_cons.1 legible).1
    rw [List.flatMap_cons, WrittenSection.lines, List.cons_append, preamble,
      Line.parseAt_of_ok (parse_headerLine here)]
    rfl

end Written

end Reader

namespace WrittenFile

theorem newline_not_mem_preambleLines (w : WrittenFile) : ∀ t ∈ w.preambleLines, '\n' ∉ t := by
  intro t member
  obtain ⟨isRoot, _, rfl⟩ := List.mem_map.1 member
  cases isRoot <;> decide

theorem preamble_rootLine (path : Option Path) (isRoot : Bool) (rest : List Text) :
    Reader.preamble path false 0 (rootLine isRoot :: rest) = Reader.preamble path isRoot 1 rest := by
  obtain ⟨value, read, set⟩ : ∃ value, Line.parse (rootLine isRoot) = .ok (.pair "root".toList value) ∧
      Reader.rootAfter false "root".toList value = isRoot := by
    cases isRoot with
    | true => exact ⟨"true".toList, rfl, rfl⟩
    | false => exact ⟨"false".toList, rfl, rfl⟩
  rw [Reader.preamble, Line.parseAt_of_ok read]
  dsimp only
  rw [set]

theorem ofLines_lines {w : WrittenFile} (legible : ∀ s ∈ w.sections, s.Legible) (path : Option Path) :
    Reader.ofLines path w.lines =
      .ok (.before path (w.root.getD false) w.preambleLines w.sections) := by
  rw [Reader.ofLines, lines]
  cases root : w.root with
  | none =>
    have preamble : w.preambleLines = [] := by rw [preambleLines, root]; rfl
    rw [preamble]
    exact Reader.preamble_sections legible []
  | some isRoot =>
    have preamble : w.preambleLines = [rootLine isRoot] := by rw [preambleLines, root]; rfl
    rw [preamble, List.singleton_append, preamble_rootLine]
    exact Reader.preamble_sections legible [rootLine isRoot]

end WrittenFile

/-- Reading a file that was written gives its setting for `root` and its sections.  In a section, the last
value of a key wins and tells the line that it was written to. -/
theorem reading_undoes_writing (w : WrittenFile) (legible : ∀ s ∈ w.sections, s.Legible)
    (path : Option Path) :
    ∃ r, Reader.ofText path w.text = .ok r ∧ (r.isRoot ↔ w.root = some true) ∧
      r.all.1.length = w.sections.length ∧
      (∀ (i : Nat) (s : WrittenSection), w.sections[i]? = some s → ∃ read : Section,
        (r.all.1.map Reader.Yield.result)[i]? = some (.ok read) ∧
          s.ReadAs path ((w.linesBefore i).length + 1) read) ∧
      r.all.2.next = none ∧ r.all.2.lineNo = w.lines.length := by
  have free : ∀ t ∈ w.lines, '\n' ∉ t := by
    intro t member
    rcases List.mem_append.1 member with preamble | inside
    · exact w.newline_not_mem_preambleLines t preamble
    · obtain ⟨s, written, inside⟩ := List.mem_flatMap.1 inside
      exact newline_not_mem_lines (legible s written) t inside
  have opened : Reader.ofText path w.text =
      .ok (.before path (w.root.getD false) w.preambleLines w.sections) := by
    rw [Reader.ofText, WrittenFile.text, Text.lines_ended free, WrittenFile.ofLines_lines legible]
  obtain ⟨count, each, last⟩ := Reader.all_before legible path (w.root.getD false) w.preambleLines
  refine ⟨_, opened, ?_, count, each, ?_, ?_⟩
  · have isRoot : (Reader.before path (w.root.getD false) w.preambleLines w.sections).isRoot =
        w.root.getD false := by
      cases w.sections <;> rfl
    rw [isRoot]
    cases w.root <;> simp
  · rw [last]
    exact Reader.next_eq_none_iff.2 rfl
  · rw [last]
    rfl

/-- A root with an empty section and one that sets a key twice. -/
def keyTwice : WrittenFile where
  root := some true
  sections := [⟨['#', ']'], []⟩, ⟨['b'], [(['K'], ['1']), (['k'], ['=', '2'])]⟩]

theorem reading_undoes_writing_keyTwice :
    let path : Path := ⟨.root, [['s']]⟩
    (∀ s ∈ keyTwice.sections, s.Legible) ∧
      ∃ r read, Reader.ofText (some path) keyTwice.text = .ok r ∧ r.isRoot ∧ r.all.1.length = 2 ∧
        (r.all.1.map Reader.Yield.result)[1]? = some (.ok read) ∧ read.pattern = ['b'] ∧
        read.props.keys = [['k']] ∧ read.props.find? ['k'] = some ⟨['=', '2'], some ⟨path, 5⟩⟩ ∧
        r.all.2.lineNo = 5 := by
  intro path
  have legible : ∀ s ∈ keyTwice.sections, s.Legible := by
    intro s member
    have empty : Glob.compile (Symbol.ofText ['#', ']']) = .ok ⟨Symbol.ofText ['#', ']'],
        [.boundary, .atom (.literal [.scalar '#', .scalar ']'])], 512⟩ :=
      Glob.compileWith_of_compile (by decide +kernel) _
    have b : Glob.compile (Symbol.ofText ['b']) =
        .ok ⟨Symbol.ofText ['b'], [.boundary, .symbol (.scalar 'b')], 512⟩ :=
      Glob.compileWith_of_compile (by decide +kernel) _
    simp only [keyTwice, List.mem_cons, List.not_mem_nil, or_false] at member
    rcases member with rfl | rfl
    · exact ⟨by decide, by decide, ⟨_, empty⟩, by decide, by decide⟩
    · exact ⟨by decide, by decide, ⟨_, b⟩, by decide, by decide⟩
  obtain ⟨r, opened, isRoot, count, each, _, last⟩ :=
    reading_undoes_writing keyTwice legible (some path)
  obtain ⟨read, found, same⟩ := each 1 _ rfl
  refine ⟨legible, r, read, opened, isRoot.2 rfl, count, found, same.pattern, ?_, ?_, last⟩
  · rw [same.props.keys]
    rfl
  · rw [same.props.find?]
    rfl

end EditorSettings
