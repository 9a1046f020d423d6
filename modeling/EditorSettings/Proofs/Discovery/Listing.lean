import EditorSettings.Proofs.Discovery.Layers
import EditorSettings.Proofs.Document.Malformed
import EditorSettings.Proofs.Document.Sources
import EditorSettings.Proofs.Glob.Upstream
import EditorSettings.Proofs.Properties.Listing

/-! # Listings are settings

What settings come from lines can be written to lines again (`IsEntry`), and the fallbacks only move it from
key to key.  So the listing of a target, below the header `[*]`, is a settings file that gives all files what
the target has, and its listing is the same (`listing_reads_back`).
-/

namespace EditorSettings

/-- A key and a value that can be written to a line, and are the same when they are read. -/
structure IsEntry (e : Text × Value) : Prop where
  key : Line.IsKey e.1
  small : Text.lower e.1 = e.1
  value : Line.IsValue e.2.text
  line : '\n' ∉ e.1 ∧ '\n' ∉ e.2.text

theorem Text.newline_not_mem_lines {t u : Text} (h : t ∈ lines u) : '\n' ∉ t := by
  rw [lines] at h
  split at h
  · exact not_mem_of_mem_splitOn ((List.dropLast_sublist _).subset h)
  · exact not_mem_of_mem_splitOn h

/-! ## What lines set -/

section Entries

variable {fs : FileSystem} {target name : Path} {p : Properties}

theorem newline_not_mem_linesOf {path : Path} {t : Text} (h : t ∈ linesOf fs path) : '\n' ∉ t := by
  rw [linesOf] at h
  split at h
  · cases h
  · split at h
    · cases h
    · exact Text.newline_not_mem_lines h

theorem isEntry_of_mem_settingsBelow {above lines : List Text} {s : Setting}
    (free : ∀ t ∈ lines, '\n' ∉ t) (h : s ∈ settingsBelow above lines) (path : Option Path) :
    IsEntry (s.entry path) := by
  obtain ⟨t, member, read⟩ := exists_pair_of_mem_settingsBelow h
  obtain ⟨isKey, isValue, left, right⟩ := Line.isPair_of_parse read
  exact ⟨isKey.lower, Text.lower_lower s.key, isValue,
    Text.not_mem_lower (by decide) fun inside => free t member (left inside),
    fun inside => free t member (right inside)⟩

theorem isEntry_of_mem_layer {f : SettingsFile} {e : Text × Value} (h : e ∈ f.layer fs target) :
    IsEntry e := by
  obtain ⟨s, member, rfl⟩ := List.mem_map.1 h
  exact isEntry_of_mem_settingsBelow (fun _ => newline_not_mem_linesOf) (List.mem_filter.1 member).1 _

theorem isEntry_set (all : ∀ e ∈ p.entries, IsEntry e) {key : Text} {v : Value} (new : IsEntry (key, v)) :
    ∀ e ∈ (p.set key v).entries, IsEntry e := by
  intro e member
  rcases Properties.mem_of_mem_assign member with rfl | member
  · exact new
  · exact all e member

theorem isEntry_key {v : Value} (kind : PropertyKind) (value : Line.IsValue v.text)
    (line : '\n' ∉ v.text) : IsEntry (kind.key, v) := by
  have standard : Line.IsKey kind.key ∧ Text.lower kind.key = kind.key ∧ '\n' ∉ kind.key := by
    cases kind <;> decide
  obtain ⟨key, small, keyLine⟩ := standard
  exact ⟨key, small, value, keyLine, line⟩

theorem isEntry_effective (all : ∀ e ∈ p.entries, IsEntry e) {kind : PropertyKind}
    (set : (p.effective kind).isUnset = false) (other : PropertyKind) :
    IsEntry (other.key, p.effective kind) := by
  have there := all _ (Properties.mem_of_find? (Properties.find?_of_effective set))
  exact isEntry_key other there.value there.line.2

theorem isEntry_impliedSize (all : ∀ e ∈ p.entries, IsEntry e) :
    ∀ e ∈ p.impliedSize.entries, IsEntry e := by
  rw [Properties.impliedSize]
  split
  · exact isEntry_set all (isEntry_key .indentSize (by decide) (by decide))
  · exact all

theorem isEntry_sharedWidth (all : ∀ e ∈ p.entries, IsEntry e) :
    ∀ e ∈ p.sharedWidth.entries, IsEntry e := by
  rw [Properties.sharedWidth]
  split
  · split
    · exact all
    next set => exact isEntry_set all (isEntry_effective all (Bool.eq_false_iff.2 set) .indentSize)
  · split
    next alone =>
      simp only [Bool.and_eq_true, Bool.not_eq_true'] at alone
      exact isEntry_set all (isEntry_effective all alone.1 .tabWidth)
    · exact all

theorem isEntry_useFallbacks (all : ∀ e ∈ p.entries, IsEntry e) (legacy : Bool) :
    ∀ e ∈ (p.useFallbacks legacy).entries, IsEntry e := by
  rw [Properties.useFallbacks]
  cases legacy with
  | true => exact isEntry_sharedWidth all
  | false => exact isEntry_sharedWidth (isEntry_impliedSize all)

theorem exists_of_settingsFor {legacy : Bool} (found : settingsFor fs target name legacy = .ok p) :
    ∃ q : Properties, (∀ e ∈ q.entries, IsEntry e) ∧ p = q.useFallbacks legacy := by
  rw [settingsFor] at found
  cases opened : settingsFiles fs target name with
  | error e => simp [opened] at found
  | ok files =>
    simp only [opened] at found
    split at found
    · cases found
    next props applied =>
      cases found
      refine ⟨props, fun e member => ?_, rfl⟩
      obtain ⟨_, loaded⟩ := files_of_settingsFiles opened
      rw [applyAll_of_complete loaded applied] at member
      have given := (Properties.mem_of_mem_setAll member).resolve_right List.not_mem_nil
      obtain ⟨f, _, inside⟩ := List.mem_flatMap.1 given
      exact isEntry_of_mem_layer inside

end Entries

/-! ## A listing is read -/

theorem parse_listingLine {e : Text × Value} (h : IsEntry e) :
    Line.parse (Properties.listingLine e) = .ok (.pair e.1 e.2.text) := by
  have read : Line.parse ([] ++ (e.1 ++ [] ++ '=' :: ([] ++ e.2.text)) ++ []) = .ok (.pair e.1 e.2.text) :=
    Line.parse_pair h.key h.value nofun nofun nofun nofun
  simpa [Properties.listingLine] using read

section Listing

variable {p : Properties} {entries : List (Text × Value)} {above : List Text} {pattern : Text}

theorem isEntry_clean (all : ∀ e ∈ p.entries, IsEntry e) : ∀ e ∈ p.clean.entries, IsEntry e := by
  intro e member
  obtain ⟨v, there, shown⟩ := Properties.shown_of_mem_clean member
  obtain ⟨_, text⟩ := Value.shown_eq_some_iff.1 shown
  obtain ⟨key, small, value, keyLine, valueLine⟩ := all _ there
  refine ⟨key, small, ?_, keyLine, ?_⟩ <;> rw [← text, Value.text_ofText] <;> split
  · exact value.lower
  · exact value
  · exact Text.not_mem_lower (by decide) valueLine
  · exact valueLine

theorem entries_listing (all : ∀ e ∈ entries, IsEntry e) (under : headerBelow above = some pattern) :
    (settingsBelow above (entries.map Properties.listingLine)).map (Setting.entry none) =
      entries.map Properties.unplacedEntry := by
  induction entries generalizing above with
  | nil => rfl
  | cons e entries ih =>
    obtain ⟨here, others⟩ := List.forall_mem_cons.1 all
    have read := parse_listingLine here
    have below : headerBelow (above ++ [Properties.listingLine e]) = some pattern := by
      rw [headerBelow_concat, (Line.Plain.pair read).header?, Option.none_or, under]
    rw [List.map_cons, settingsBelow_cons, settingIn_of_pair under read, List.map_append, ih others below]
    simp [Setting.entry, Properties.unplacedEntry, here.small]
    rfl

theorem Properties.clean_unplaced (p : Properties) : p.clean.unplaced = p.clean := by
  apply ext_entries
  refine (List.map_congr_left fun ⟨key, w⟩ member => ?_).trans (List.map_id _)
  obtain ⟨v, _, shown⟩ := shown_of_mem_clean member
  obtain ⟨_, text⟩ := Value.shown_eq_some_iff.1 shown
  rw [unplacedEntry, ← show _ = w from text]
  rfl

theorem listing_unplaced (p : Properties) : p.unplaced.listing = p.listing := by
  rw [Properties.listing, Properties.listing, Properties.entriesSet, Properties.entriesSet,
    Properties.unplaced, List.filter_map, List.filterMap_map]
  rfl

/-- The reader of a listing, which has read the header `[*]` in front of it. -/
def Reader.ofListing (source : Option Path) (p : Properties) : Reader :=
  ⟨source, false, some ['*'], p.listing, 1⟩

theorem parse_star : Line.parse "[*]".toList = .ok (.header ['*']) := rfl

theorem line_of_mem_listing (all : ∀ e ∈ p.entries, IsEntry e) {t : Text} (h : t ∈ p.listing) :
    Line.Plain t ∧ '\n' ∉ t := by
  rw [Properties.listing_eq] at h
  obtain ⟨e, inside, rfl⟩ := List.mem_map.1 h
  have isEntry := isEntry_clean all e inside
  exact ⟨.pair (parse_listingLine isEntry), by simp [Properties.listingLine, isEntry.line]⟩

theorem ofText_listing (all : ∀ e ∈ p.entries, IsEntry e) (source : Option Path) :
    Reader.ofText source (("[*]".toList :: p.listing).flatMap (· ++ ['\n'])) =
      .ok (.ofListing source p) := by
  have free : ∀ t ∈ "[*]".toList :: p.listing, '\n' ∉ t :=
    List.forall_mem_cons.2 ⟨by decide, fun t member => (line_of_mem_listing all member).2⟩
  rw [Reader.ofText, Text.lines_ended free, Reader.ofLines, Reader.preamble, Line.parseAt_of_ok parse_star]
  rfl

theorem stands_ofListing (source : Option Path) (p : Properties) :
    (Reader.ofListing source p).Stands ["[*]".toList] where
  lineNo := rfl
  header := by
    intro pattern same
    cases same
    exact headerBelow_header parse_star []
  done := nofun

theorem failure?_ofListing (all : ∀ e ∈ p.entries, IsEntry e) (source : Option Path) :
    (Reader.ofListing source p).failure? = none := by
  have plain (t : Text) (member : t ∈ p.listing) := (line_of_mem_listing all member).1
  refine Reader.failure?_eq_none (stands_ofListing source p) (fun t member => ?_) fun pattern member => ?_
  · cases plain t member with
    | blank read => exact ⟨_, read⟩
    | pair read => exact ⟨_, read⟩
  · have one : (Reader.ofListing source p).headers = [['*']] := by
      rw [Reader.headers, Reader.ofListing, Reader.filterMap_header?_plain plain]
      rfl
    obtain rfl := List.mem_singleton.1 (one ▸ member)
    exact Section.exists_ofPattern (by decide)

/-- A listing below `[*]` gives every file what it shows. -/
theorem applyTo_ofListing (all : ∀ e ∈ p.entries, IsEntry e) {path : List Component} (ne : path ≠ []) :
    (Reader.ofListing none p).applyTo path .empty = p.clean := by
  have everywhere : ∀ s ∈ settingsBelow ["[*]".toList] p.listing, s.appliesTo path = true := by
    intro s member
    have under := headerBelow_header parse_star []
    have plain (t : Text) (member : t ∈ p.listing) := (line_of_mem_listing all member).1
    rw [Setting.appliesTo, pattern_of_mem_settingsBelow under plain member]
    obtain ⟨g, compiled, accepts⟩ := star_accepts
    simp only [compiled]
    exact accepts path ne
  rw [Reader.applyTo_of_complete (stands_ofListing none p) (failure?_ofListing all none)]
  have rest : (Reader.ofListing none p).rest = p.listing := rfl
  have entries : (settingsBelow ["[*]".toList] p.listing).map (Setting.entry none) = p.clean.entries := by
    rw [Properties.listing_eq]
    have read := entries_listing (isEntry_clean all) (headerBelow_header parse_star [])
    exact read.trans (congrArg Properties.entries p.clean_unplaced)
  rw [rest, List.filter_eq_self.2 everywhere]
  exact (congrArg Properties.empty.setAll entries).trans p.clean.ofList_entries

end Listing

/-- The listing of a target is a canonical form of its settings: below the header `[*]` it is read without
an error, and gives every file the properties that it shows, for which the fallbacks have nothing to do. -/
theorem listing_reads_back {fs : FileSystem} {target name : Path} {legacy : Bool} {props : Properties}
    (found : settingsFor fs target name legacy = .ok props) (source : Option Path) :
    ∃ r, Reader.ofText source (("[*]".toList :: props.listing).flatMap (· ++ ['\n'])) = .ok r ∧
      r.failure? = none ∧ ∀ path : List Component, path ≠ [] →
        ((r.applyTo path .empty).useFallbacks legacy).listing = props.listing := by
  obtain ⟨q, lines, rfl⟩ := exists_of_settingsFor found
  have all := isEntry_useFallbacks lines legacy
  refine ⟨_, ofText_listing all source, failure?_ofListing all source, fun path ne => ?_⟩
  -- where the values stand does not matter to a listing
  have shown : ((Reader.ofListing source (q.useFallbacks legacy)).applyTo path .empty).unplaced =
      (q.useFallbacks legacy).clean := by
    rw [Reader.applyTo_unplaced]
    exact applyTo_ofListing all ne
  have settled := (q.settled_useFallbacks legacy).clean
  rw [← listing_unplaced, Properties.useFallbacks_unplaced, shown,
    Properties.useFallbacks_of_settled settled, Properties.listing_clean]

/-- A file that leaves the size of a step to the style, and unsets a key. -/
def styleOnly : FileSystem where
  cwd := ⟨.root, []⟩
  read p :=
    if p = ⟨.root, [['s']]⟩ then .ok (Utf8.encode "[*]\nIndent_Style=TAB\nk=UNSET\nKey=A = B".toList)
    else .error .noSuchFile

theorem listing_reads_back_styleOnly :
    ∃ props r, settingsFor styleOnly ⟨.root, [['b']]⟩ ⟨.relative, [['s']]⟩ false = .ok props ∧
      props.listing = ["indent_style=tab", "key=A = B", "indent_size=tab"].map String.toList ∧
      Reader.ofText none (("[*]".toList :: props.listing).flatMap (· ++ ['\n'])) = .ok r ∧
      r.failure? = none ∧ ((r.applyTo [[97], [98]] .empty).useFallbacks false).listing = props.listing := by
  let file : Path := ⟨.root, [['s']]⟩
  let lines := ["Indent_Style=TAB".toList, "k=UNSET".toList, "Key=A = B".toList]
  let reader : Reader := ⟨some file, false, some ['*'], lines, 1⟩
  let all : Section := ⟨['*'], ⟨Symbol.ofText ['*'], [.boundary, .run false], 512⟩, .empty⟩
  let read : Section :=
    ((all.insert "Indent_Style".toList ⟨"TAB".toList, some ⟨file, 2⟩⟩).insert ['k']
      ⟨"UNSET".toList, some ⟨file, 3⟩⟩).insert "Key".toList ⟨"A = B".toList, some ⟨file, 4⟩⟩
  have files : settingsFiles styleOnly ⟨.root, [['b']]⟩ ⟨.relative, [['s']]⟩ = .ok [⟨file, reader⟩] := by
    decide +kernel
  have made : Section.ofPattern ['*'] = .ok all := Section.ofPattern_of_compile (by decide +kernel)
  have called : reader.next = some (.ok read, ⟨some file, false, none, [], 4⟩) :=
    Reader.next_eq_ok_iff.2 ⟨['*'], all, rfl, made, rfl⟩
  have last : Reader.next ⟨some file, false, none, [], 4⟩ = none := Reader.next_eq_none_iff.2 rfl
  have complete : reader.failure? = none := by
    rw [Reader.failure?_of_ok called, Reader.failure?_of_none last]
  have applied : applyFiles styleOnly ⟨.root, [['b']]⟩ [⟨file, reader⟩] .empty = ⟨read.props, none⟩ := by
    have matched : read.applyTo [[98]] .empty = read.props := by
      obtain ⟨g, compiled, accepts⟩ := star_accepts
      have star : Glob.compile (Symbol.ofText ['*']) = .ok all.glob :=
        Glob.compileWith_of_compile (by decide +kernel) _
      cases compiled.symm.trans star
      have accepted : read.appliesTo [[98]] = true := accepts _ (by decide)
      rw [Section.applyTo, if_pos accepted]
      decide +kernel
    have whole (path : List Component) : reader.applyTo path .empty = read.applyTo path .empty := by
      rw [Reader.applyTo_of_ok called, Reader.applyTo_of_none last]
    simp only [applyFiles, SettingsFile.applyAll, SettingsFile.applyTo, complete, whole]
    exact congrArg (Applied.mk · none) matched
  have found : settingsFor styleOnly ⟨.root, [['b']]⟩ ⟨.relative, [['s']]⟩ false =
      .ok (read.props.useFallbacks false) := by
    simp only [settingsFor, files, applied]
  have listed : (read.props.useFallbacks false).listing =
      ["indent_style=tab", "key=A = B", "indent_size=tab"].map String.toList := by
    decide +kernel
  obtain ⟨r, opened, readable, shown⟩ := listing_reads_back found none
  exact ⟨_, r, found, listed, opened, readable, shown [[97], [98]] (List.cons_ne_nil _ _)⟩

end EditorSettings
