import EditorSettings.Proofs.Document.Reading
import EditorSettings.Proofs.Glob.Refusal

/-! # What a malformed line leaves

A malformed line ends the reading and takes its section with it, however far the section has got.  What
stands above the header of that section is read as if the file ended there: `Reader.followedBy` is the
reader of some lines with a header and more lines behind them, and until the lines are used up it does what
the reader of the lines alone does.
-/

namespace EditorSettings

theorem Line.plain_of_ok {t : Text} {line : Line} (read : Line.parse t = .ok line)
    (none : Line.header? t = none) : Line.Plain t := by
  cases line with
  | blank => exact .blank read
  | header pattern => cases none.symm.trans (Line.header?_of_header read)
  | pair key value => exact .pair read

theorem Line.parse_of_header? {t pattern : Text} (h : Line.header? t = some pattern) :
    Line.parse t = .ok (.header pattern) := by
  rw [Line.header?] at h
  split at h
  next read =>
    cases h
    exact read
  · cases h

theorem Section.pattern_of_ofPattern {pattern : Text} {s : Section}
    (made : Section.ofPattern pattern = .ok s) : s.pattern = pattern := by
  rw [Section.ofPattern] at made
  split at made
  · cases made
  · cases made
    rfl

theorem Section.exists_ofPattern {pattern : Text} (short : pattern.length < Decimal.digitLimit + 6) :
    ∃ s, Section.ofPattern pattern = .ok s := by
  have short' : (Symbol.ofText pattern).length < Decimal.digitLimit + 6 := by
    rwa [Symbol.ofText, List.length_map]
  obtain ⟨p, made⟩ := compiles_of_length_lt true short'
  exact ⟨_, by rw [ofPattern, Glob.compile, Glob.compileWith, made]⟩

namespace Reader

/-! ## Call after call -/

/-- What a call of `next` gives after `i` calls before it, and nothing if there is no section left.  A call
that finds nothing leaves the reader as it is. -/
def call (r : Reader) : Nat → Option (Except Failure Section)
  | 0 => r.next.map Prod.fst
  | i + 1 =>
    match r.next with
    | none => r.call i
    | some (_, after) => after.call i

/-- The reader gives some sections, then one failure, and then nothing for ever. -/
structure StopsAfter (r : Reader) (sections : List Section) (failure : Failure) : Prop where
  call : ∀ i, r.call i = (sections.map Except.ok ++ [.error failure])[i]?
  failure : r.failure? = some failure
  applyTo : ∀ path target, r.applyTo path target =
    sections.foldl (fun target s => s.applyTo path target) target

section Calls

variable {r after : Reader} {s : Section}

theorem sections_of_none (h : r.next = none) : r.sections = [] := by
  rw [sections, all_of_none h]
  rfl

theorem sections_of_error {e : Failure} (h : r.next = some (.error e, after)) : r.sections = [] := by
  rw [sections, all_of_error h]
  rfl

theorem sections_of_ok (h : r.next = some (.ok s, after)) : r.sections = s :: after.sections := by
  rw [sections, all_of_ok h]
  rfl

theorem call_of_none (h : r.next = none) (i : Nat) : r.call i = none := by
  induction i with
  | zero => rw [call, h, Option.map_none]
  | succ i ih => rw [call, h, ih]

theorem call_eq (finished : r.all.2.next = none) (i : Nat) :
    r.call i = (r.sections.map Except.ok ++ r.failure?.toList.map .error)[i]? := by
  induction r using all.induct generalizing i with
  | case1 r called =>
    rw [call_of_none called, sections_of_none called, failure?_of_none called]
    rfl
  | case2 r e after called =>
    rw [sections_of_error called, failure?_of_error called]
    rw [all_of_error called] at finished
    cases i with
    | zero =>
      rw [call, called]
      rfl
    | succ i =>
      rw [call, called]
      exact call_of_none finished i
  | case3 r s after called ih =>
    rw [sections_of_ok called, failure?_of_ok called]
    rw [all_of_ok called] at finished
    cases i with
    | zero =>
      rw [call, called]
      rfl
    | succ i =>
      rw [call, called]
      exact ih finished i

end Calls

/-! ## Headers to come -/

def headers (r : Reader) : List Text := r.header.toList ++ r.rest.filterMap Line.header?

section Complete

variable {r after : Reader} {s : Section} {above block : List Text}

theorem filterMap_header?_plain (plain : ∀ t ∈ block, Line.Plain t) :
    block.filterMap Line.header? = [] :=
  List.filterMap_eq_nil_iff.2 fun t member => (plain t member).header?

/-- A call reads some lines and makes a section of the next header. -/
theorem next_reads (stands : r.Stands above) (called : r.next = some (.ok s, after)) :
    ∃ read, r.rest = read ++ after.rest ∧ after.Stands (above ++ read) ∧
      r.headers = s.pattern :: after.headers ∧ after.path = r.path ∧ after.isRoot = r.isRoot := by
  cases header : r.header with
  | none => cases (next_eq_none_iff.2 header).symm.trans called
  | some pattern =>
    obtain ⟨e, _, called'⟩ | ⟨start, block, made, plain, last | following | malformed⟩ :=
      next_cases header stands
    · cases called'.symm.trans called
    · obtain ⟨split, called'⟩ := last
      cases called'.symm.trans called
      refine ⟨block, split.trans (List.append_nil _).symm, ⟨rfl, nofun, fun _ => rfl⟩, ?_, rfl, rfl⟩
      rw [headers, header, split, filterMap_header?_plain plain, ← Section.pattern_of_ofPattern made]
      rfl
    · obtain ⟨t, rest, q, split, read, called'⟩ := following
      cases called'.symm.trans called
      refine ⟨block ++ [t], split.trans (List.append_cons ..), ⟨by simp, ?_, nofun⟩, ?_, rfl, rfl⟩
      · intro p same
        cases same
        rw [← List.append_assoc]
        exact headerBelow_header read (above ++ block)
      · rw [headers, header, split, List.filterMap_append, filterMap_header?_plain plain,
          List.filterMap_cons, Line.header?_of_header read, ← Section.pattern_of_ofPattern made]
        rfl
    · obtain ⟨t, rest, fault, _, _, called'⟩ := malformed
      cases called'.symm.trans called

theorem patterns_sections (stands : r.Stands above) (complete : r.failure? = none) :
    r.sections.map Section.pattern = r.headers := by
  induction r using all.induct generalizing above with
  | case1 r called =>
    have none := next_eq_none_iff.1 called
    rw [sections_of_none called, headers, none, stands.done none]
    rfl
  | case2 r e after called => cases (failure?_of_error called).symm.trans complete
  | case3 r s after called ih =>
    obtain ⟨read, _, stands', same, _⟩ := next_reads stands called
    have later := ih stands' ((failure?_of_ok called).symm.trans complete)
    rw [sections_of_ok called, List.map_cons, later, same]

theorem failure?_eq_none (stands : r.Stands above)
    (readable : ∀ t ∈ r.rest, ∃ line, Line.parse t = .ok line)
    (compiles : ∀ pattern ∈ r.headers, ∃ s, Section.ofPattern pattern = .ok s) : r.failure? = none := by
  induction r using all.induct generalizing above with
  | case1 r called => exact failure?_of_none called
  | case2 r e after called =>
    cases header : r.header with
    | none => cases (next_eq_none_iff.2 header).symm.trans called
    | some pattern =>
      have first : pattern ∈ r.headers := by simp [headers, header]
      obtain ⟨start, made⟩ := compiles pattern first
      obtain ⟨e, fails, _⟩ | ⟨s, block, _, _, last | following | malformed⟩ := next_cases header stands
      · cases made.symm.trans fails
      · cases last.2.symm.trans called
      · obtain ⟨_, _, _, _, _, called'⟩ := following
        cases called'.symm.trans called
      · obtain ⟨t, rest, fault, split, read, _⟩ := malformed
        obtain ⟨line, read'⟩ := readable t (split ▸ List.mem_append_cons_self)
        cases read.symm.trans read'
  | case3 r s after called ih =>
    obtain ⟨read, split, stands', same, _⟩ := next_reads stands called
    rw [failure?_of_ok called]
    have readable' (t : Text) (member : t ∈ after.rest) := readable t (split ▸ List.mem_append_right _ member)
    exact ih stands' readable' fun q member => compiles q (same ▸ List.mem_cons_of_mem _ member)

/-- A reader that does not fail comes to the end of its lines. -/
theorem all_of_complete (stands : r.Stands above) (complete : r.failure? = none) :
    r.all.2 = { r with header := none, rest := [], lineNo := (above ++ r.rest).length } := by
  induction r using all.induct generalizing above with
  | case1 r called =>
    have none := next_eq_none_iff.1 called
    rw [all_of_none called, stands.done none, List.append_nil, ← stands.lineNo, ← none,
      ← stands.done none]
  | case2 r e after called => cases (failure?_of_error called).symm.trans complete
  | case3 r s after called ih =>
    obtain ⟨read, split, stands', _, path, isRoot⟩ := next_reads stands called
    rw [all_of_ok called, ih stands' ((failure?_of_ok called).symm.trans complete), split, path, isRoot,
      List.append_assoc]

end Complete

/-! ## More lines -/

/-- The reader of the lines of `r` with a header and more lines behind them. -/
def followedBy (r : Reader) (t pattern : Text) (more : List Text) : Reader :=
  match r.header with
  | none => { r with header := some pattern, rest := more, lineNo := r.lineNo + 1 }
  | some _ => { r with rest := r.rest ++ t :: more }

section FollowedBy

variable {r after : Reader} {s start : Section} {t pattern : Text} {lines : List Text} {n : Nat}

theorem preamble_followedBy {path : Option Path} {isRoot : Bool}
    (read : Line.parse t = .ok (.header pattern)) (opened : preamble path isRoot n lines = .ok r)
    (more : List Text) :
    preamble path isRoot n (lines ++ t :: more) = .ok (r.followedBy t pattern more) := by
  induction lines generalizing isRoot n with
  | nil =>
    cases opened
    rw [List.nil_append, preamble, Line.parseAt_of_ok read]
    rfl
  | cons u lines ih =>
    rw [preamble] at opened
    rw [List.cons_append, preamble]
    cases first : Line.parse u with
    | error fault =>
      rw [Line.parseAt_of_error first] at opened
      cases opened
    | ok line =>
      rw [Line.parseAt_of_ok first] at opened ⊢
      cases line with
      | blank => exact ih opened
      | pair key value => exact ih opened
      | header q =>
        cases opened
        rfl

theorem body_followedBy (read : Line.parse t = .ok (.header pattern))
    (h : r.body start n lines = (.ok s, after)) (more : List Text) :
    (r.followedBy t pattern more).body start n (lines ++ t :: more) =
      (.ok s, after.followedBy t pattern more) := by
  have path : (r.followedBy t pattern more).path = r.path := by
    rw [followedBy]
    split <;> rfl
  have isRoot : (r.followedBy t pattern more).isRoot = r.isRoot := by
    rw [followedBy]
    split <;> rfl
  induction lines generalizing start n with
  | nil =>
    cases h
    rw [List.nil_append, body_cons_of_header read, path, isRoot]
    rfl
  | cons u lines ih =>
    rw [body] at h
    rw [List.cons_append, body, path]
    cases first : Line.parse u with
    | error fault =>
      rw [Line.parseAt_of_error first] at h
      cases h
    | ok line =>
      rw [Line.parseAt_of_ok first] at h ⊢
      cases line with
      | blank => exact ih h
      | pair key value => exact ih h
      | header q =>
        cases h
        rw [isRoot]
        rfl

theorem next_followedBy (read : Line.parse t = .ok (.header pattern))
    (called : r.next = some (.ok s, after)) (more : List Text) :
    (r.followedBy t pattern more).next = some (.ok s, after.followedBy t pattern more) := by
  obtain ⟨q, start, header, made, h⟩ := next_eq_ok_iff.1 called
  have same : r.followedBy t pattern more = { r with rest := r.rest ++ t :: more } := by
    rw [followedBy, header]
  have longer := body_followedBy read h more
  rw [same] at longer ⊢
  exact next_eq_ok_iff.2 ⟨q, start, header, made, longer⟩

theorem sections_followedBy (read : Line.parse t = .ok (.header pattern)) (complete : r.failure? = none)
    (more : List Text) :
    (r.followedBy t pattern more).sections = r.sections ++ (r.all.2.followedBy t pattern more).sections ∧
      (r.followedBy t pattern more).failure? = (r.all.2.followedBy t pattern more).failure? ∧
      (r.followedBy t pattern more).all.2 = (r.all.2.followedBy t pattern more).all.2 := by
  induction r using all.induct with
  | case1 r called =>
    rw [all_of_none called, sections_of_none called, List.nil_append]
    exact ⟨rfl, rfl, rfl⟩
  | case2 r e after called => cases (failure?_of_error called).symm.trans complete
  | case3 r s after called ih =>
    obtain ⟨sections, failure, all⟩ := ih ((failure?_of_ok called).symm.trans complete)
    have called' := next_followedBy read called more
    rw [sections_of_ok called', failure?_of_ok called', all_of_ok called', all_of_ok called,
      sections_of_ok called, sections, failure, all]
    exact ⟨rfl, rfl, rfl⟩

/-- Above a header whose section has a malformed line everything is read, and nothing behind it. -/
theorem stopsAfter_followedBy {above block rest : List Text} {bad : Text} {fault : Malformation}
    (stands : r.Stands above) (complete : r.failure? = none)
    (read : Line.parse t = .ok (.header pattern)) (made : Section.ofPattern pattern = .ok start)
    (plain : ∀ t ∈ block, Line.Plain t) (malformed : Line.parse bad = .error fault) :
    (r.followedBy t pattern (block ++ bad :: rest)).StopsAfter r.sections (.malformed
      ⟨fault, some ((above ++ r.rest ++ [t]) ++ block ++ [bad]).length, r.path.map Path.text⟩) := by
  obtain ⟨sections, failure, all⟩ := sections_followedBy read complete (block ++ bad :: rest)
  -- the reader behind the header, which finds the malformed line
  let x : Reader := { r with
    header := some pattern, rest := block ++ bad :: rest, lineNo := (above ++ r.rest ++ [t]).length }
  have behind : r.all.2.followedBy t pattern (block ++ bad :: rest) = x := by
    rw [all_of_complete stands complete]
    simp only [followedBy, x, List.length_append, List.length_singleton]
  have stands' : x.Stands (above ++ r.rest ++ [t]) := by
    refine ⟨rfl, fun same => ?_, nofun⟩
    cases same
    exact headerBelow_header read _
  have called := next_malformed (r := x) rfl made stands' rfl plain malformed
  rw [behind, sections_of_error called, List.append_nil] at sections
  rw [behind, failure?_of_error called] at failure
  rw [behind, all_of_error called] at all
  refine ⟨fun i => ?_, failure, fun path target => ?_⟩
  · rw [call_eq (by rw [all]; rfl), sections, failure]
    rfl
  · rw [applyTo, sections]

end FollowedBy

/-! ## From the first line -/

/-- A plain line of the preamble is passed over, and may only say whether the file is a root. -/
theorem preamble_cons_of_plain {t : Text} (plain : Line.Plain t) (path : Option Path) (isRoot : Bool)
    (n : Nat) :
    ∃ isRoot', ∀ rest, preamble path isRoot n (t :: rest) = preamble path isRoot' (n + 1) rest := by
  cases plain with
  | blank read => exact ⟨isRoot, fun rest => by rw [preamble, Line.parseAt_of_ok read]⟩
  | pair read => exact ⟨rootAfter isRoot _ _, fun rest => by rw [preamble, Line.parseAt_of_ok read]⟩

theorem preamble_append {block : List Text} (plain : ∀ t ∈ block, Line.Plain t) (path : Option Path)
    (isRoot : Bool) (n : Nat) :
    ∃ isRoot', ∀ rest, preamble path isRoot n (block ++ rest) =
      preamble path isRoot' (n + block.length) rest := by
  induction block generalizing isRoot n with
  | nil => exact ⟨isRoot, fun rest => rfl⟩
  | cons t block ih =>
    obtain ⟨first, others⟩ := List.forall_mem_cons.1 plain
    obtain ⟨between, step⟩ := preamble_cons_of_plain first path isRoot n
    obtain ⟨isRoot', further⟩ := ih others between (n + 1)
    refine ⟨isRoot', fun rest => ?_⟩
    rw [List.cons_append, step, further, List.length_cons, Nat.add_right_comm, Nat.add_assoc]

/-- Lines without a malformed one are opened, and their headers are to come. -/
theorem ofLines_of_readable {lines : List Text} (readable : ∀ t ∈ lines, ∃ line, Line.parse t = .ok line)
    (path : Option Path) :
    ∃ r above, ofLines path lines = .ok r ∧ r.path = path ∧ lines = above ++ r.rest ∧ r.Stands above ∧
      r.headers = lines.filterMap Line.header? := by
  obtain ⟨block, plain, rfl | ⟨t, rest, pattern, rfl, read⟩ | ⟨t, rest, fault, rfl, read⟩⟩ :=
    Line.exists_block lines
  · obtain ⟨isRoot, further⟩ := preamble_append plain path false 0
    refine ⟨⟨path, isRoot, none, [], lines.length⟩, lines, ?_, rfl, (List.append_nil _).symm,
      ⟨rfl, nofun, fun _ => rfl⟩, ?_⟩
    · have whole := further []
      rw [List.append_nil, Nat.zero_add] at whole
      rw [ofLines, whole]
      rfl
    · rw [filterMap_header?_plain plain]
      rfl
  · obtain ⟨isRoot, further⟩ := preamble_append plain path false 0
    refine ⟨⟨path, isRoot, some pattern, rest, (block ++ [t]).length⟩, block ++ [t], ?_, rfl,
      List.append_cons .., ⟨rfl, ?_, nofun⟩, ?_⟩
    · rw [ofLines, further, preamble, Line.parseAt_of_ok read, List.length_append, Nat.zero_add]
      rfl
    · intro p same
      cases same
      exact headerBelow_header read block
    · rw [List.filterMap_append, filterMap_header?_plain plain, List.filterMap_cons,
        Line.header?_of_header read]
      rfl
  · obtain ⟨line, read'⟩ := readable t List.mem_append_cons_self
    cases read.symm.trans read'

section Malformed

variable {before rest : List Text} {bad : Text} {fault : Malformation}

/-- A malformed line ends the reading at once if it stands in the preamble.  If not, the sections are those
of the lines above the header that it stands under, whatever comes behind it; then comes one error with its
number, and then nothing for ever.  Nothing of its section or of a later one is applied. -/
theorem malformed_line_cuts_section (readable : ∀ t ∈ before, ∃ line, Line.parse t = .ok line)
    (compiles : ∀ t ∈ before, ∀ pattern, Line.header? t = some pattern →
      ∃ s, Section.ofPattern pattern = .ok s)
    (malformed : Line.parse bad = .error fault) (path : Option Path) :
    let error : ParseError := ⟨fault, some (before.length + 1), path.map Path.text⟩
    ((∀ t ∈ before, Line.header? t = none) → ofLines path (before ++ bad :: rest) = .error error) ∧
    ∀ upTo header block, before = upTo ++ header :: block → (Line.header? header).isSome →
      (∀ t ∈ block, Line.header? t = none) →
      ∃ r r₀, ofLines path (before ++ bad :: rest) = .ok r ∧ ofLines path upTo = .ok r₀ ∧
        (∀ i, r₀.call i = (r₀.sections.map Except.ok)[i]?) ∧
        r₀.sections.map Section.pattern = upTo.filterMap Line.header? ∧
        r.StopsAfter r₀.sections (.malformed error) := by
  intro error
  have plain (lines : List Text) (within : ∀ t ∈ lines, t ∈ before)
      (none : ∀ t ∈ lines, Line.header? t = none) : ∀ t ∈ lines, Line.Plain t := by
    intro t member
    obtain ⟨line, read⟩ := readable t (within t member)
    exact Line.plain_of_ok read (none t member)
  constructor
  · intro none
    obtain ⟨isRoot, further⟩ := preamble_append (plain before (fun _ => id) none) path false 0
    rw [ofLines, further, preamble, Line.parseAt_of_error malformed, Nat.zero_add]
  · rintro upTo header block rfl isHeader none
    obtain ⟨q, isHeader⟩ := Option.isSome_iff_exists.1 isHeader
    obtain ⟨r₀, above, opened, rfl, whole, stands, headers⟩ :=
      ofLines_of_readable (fun t member => readable t (List.mem_append_left _ member)) path
    obtain ⟨start, made⟩ := compiles header List.mem_append_cons_self q isHeader
    have complete : r₀.failure? = Option.none := by
      refine failure?_eq_none stands (fun t member => ?_) fun pattern member => ?_
      · exact readable t (List.mem_append_left _ (whole ▸ List.mem_append_right _ member))
      · rw [headers, List.mem_filterMap] at member
        obtain ⟨t, member, isHeader⟩ := member
        exact compiles t (List.mem_append_left _ member) pattern isHeader
    have read := Line.parse_of_header? isHeader
    have within (t : Text) (member : t ∈ block) : t ∈ upTo ++ header :: block :=
      List.mem_append_right _ (List.mem_cons_of_mem _ member)
    have stops : (r₀.followedBy header q (block ++ bad :: rest)).StopsAfter _ _ :=
      stopsAfter_followedBy stands complete read made (plain block within none) malformed
    rw [← whole] at stops
    have number : (upTo ++ [header] ++ block ++ [bad]).length = (upTo ++ header :: block).length + 1 := by
      simp [Nat.add_assoc]
    refine ⟨r₀.followedBy header q (block ++ bad :: rest), r₀, ?_, opened, ?_, ?_, ?_⟩
    · rw [List.append_assoc, List.cons_append]
      exact preamble_followedBy read opened _
    · intro i
      have finished : r₀.all.2.next = Option.none := by
        rw [all_of_complete stands complete]
        rfl
      rw [call_eq finished, complete]
      simp
    · rw [patterns_sections stands complete, headers]
    · rwa [number] at stops

theorem malformed_line_cuts_section_middle :
    let upTo := ["[a]", "k = v"].map String.toList
    let block := ["j = w"].map String.toList
    let rest := ["[c]", "k = x"].map String.toList
    ∃ r r₀, ofLines none (upTo ++ "[b]".toList :: block ++ "broken".toList :: rest) = .ok r ∧
      ofLines none upTo = .ok r₀ ∧ r₀.sections.map Section.pattern = [['a']] ∧
      r.StopsAfter r₀.sections (.malformed ⟨.notAPair, some 5, none⟩) := by
  intro upTo block rest
  let before := upTo ++ "[b]".toList :: block
  have readable : ∀ t ∈ before, ∃ line, Line.parse t = .ok line := by
    have parsed : ∀ t ∈ before, (Line.parse t).isOk = true := by decide +kernel
    intro t member
    cases read : Line.parse t with
    | error fault => simpa [read, Except.isOk, Except.toBool] using parsed t member
    | ok line => exact ⟨line, rfl⟩
  have compiles : ∀ t ∈ before, ∀ pattern, Line.header? t = some pattern →
      ∃ s, Section.ofPattern pattern = .ok s := by
    have short : ∀ t ∈ before, ∀ pattern ∈ Line.header? t, pattern.length < Decimal.digitLimit + 6 := by
      decide +kernel
    exact fun t member pattern isHeader => Section.exists_ofPattern (short t member pattern isHeader)
  have malformed : Line.parse "broken".toList = .error .notAPair := by decide +kernel
  obtain ⟨r, r₀, opened, opened', _, patterns, stops⟩ :=
    (malformed_line_cuts_section readable compiles malformed none).2 upTo "[b]".toList block rfl
      (by decide +kernel) (by decide +kernel)
  exact ⟨r, r₀, opened, opened', patterns.trans (by decide +kernel), stops⟩

end Malformed

end Reader

end EditorSettings
