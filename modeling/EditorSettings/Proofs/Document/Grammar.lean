import EditorSettings.Proofs.Document.Headers

/-! # The grammar of lines

Trimming takes blanks away and nothing else (`exists_trim`), so a line can be put together again from what was
read in it.  `parse_eq_pair_iff` and `header_of_parse` say how pairs and headers are spelled, and blanks around
a line are never noticed (`parse_append`).
-/

namespace EditorSettings

namespace Text

theorem exists_trim (t : Text) : ∃ before after, (∀ c ∈ before, isBlank c) ∧ (∀ c ∈ after, isBlank c) ∧
    t = before ++ trim t ++ after := by
  obtain ⟨before, blankBefore, start⟩ := exists_blanks t
  obtain ⟨after, blankAfter, last⟩ := exists_blanks_end (trimStart t)
  refine ⟨before, after, blankBefore, blankAfter, ?_⟩
  rw [trim, List.append_assoc, ← last, ← start]

end Text

namespace Line

variable {t key value pattern : Text}

theorem parse_append {before after : Text} (blankBefore : ∀ c ∈ before, Text.isBlank c)
    (blankAfter : ∀ c ∈ after, Text.isBlank c) (t : Text) : parse (before ++ t ++ after) = parse t := by
  rw [parse, Text.trim_append blankBefore blankAfter, parse]

/-! ## Pairs -/

theorem parsePair_of_parse (h : parse t = .ok (.pair key value)) :
    parsePair (Text.trim t) = .ok (.pair key value) := by
  obtain blank | ⟨rest, _, header⟩ | ⟨_, pair⟩ := parse_cases t
  · cases blank.symm.trans h
  · exact absurd (header.symm.trans h) parseHeader_ne_pair
  · exact pair.symm.trans h

theorem exists_spelling_of_parsePair (h : parsePair t = .ok (.pair key value)) :
    ∃ w₂ w₃, (∀ c ∈ w₂, Text.isBlank c) ∧ (∀ c ∈ w₃, Text.isBlank c) ∧
      t = key ++ w₂ ++ '=' :: (w₃ ++ value) := by
  rw [parsePair] at h
  split at h
  · cases h
  next equals rest cut =>
    dsimp only at h
    split at h
    · cases h
    · cases h
      obtain rfl : equals = '=' := by
        have first := List.head?_dropWhile_not (· ≠ '=') t
        rw [cut] at first
        simpa using first
      obtain ⟨w₂, blank₂, last⟩ := Text.exists_blanks_end (t.takeWhile (· ≠ '='))
      obtain ⟨w₃, blank₃, start⟩ := Text.exists_blanks rest
      refine ⟨w₂, w₃, blank₂, blank₃, ?_⟩
      rw [← last, ← start, ← cut]
      exact List.takeWhile_append_dropWhile.symm

/-- A line is a pair exactly if it is spelled as one. -/
theorem parse_eq_pair_iff : parse t = .ok (.pair key value) ↔ IsKey key ∧ IsValue value ∧
    ∃ w₁ w₂ w₃ w₄ : Text, (∀ c ∈ w₁ ++ w₂ ++ w₃ ++ w₄, Text.isBlank c) ∧
      t = w₁ ++ (key ++ w₂ ++ '=' :: (w₃ ++ value)) ++ w₄ := by
  constructor
  · intro h
    obtain ⟨isKey, isValue, _, _⟩ := isPair_of_parse h
    obtain ⟨w₁, w₄, blank₁, blank₄, around⟩ := Text.exists_trim t
    obtain ⟨w₂, w₃, blank₂, blank₃, spelled⟩ := exists_spelling_of_parsePair (parsePair_of_parse h)
    refine ⟨isKey, isValue, w₁, w₂, w₃, w₄, ?_, spelled ▸ around⟩
    simp only [List.forall_mem_append]
    exact ⟨⟨⟨blank₁, blank₂⟩, blank₃⟩, blank₄⟩
  · rintro ⟨isKey, isValue, w₁, w₂, w₃, w₄, blank, rfl⟩
    simp only [List.forall_mem_append] at blank
    obtain ⟨⟨⟨blank₁, blank₂⟩, blank₃⟩, blank₄⟩ := blank
    exact parse_pair isKey isValue blank₁ blank₂ blank₃ blank₄

/-! ## Headers -/

theorem exists_parseHeader_of_parse (h : parse t = .ok (.header pattern)) :
    ∃ rest, Text.trim t = '[' :: rest ∧ parseHeader rest = .ok (.header pattern) := by
  obtain blank | ⟨rest, shape, header⟩ | ⟨_, pair⟩ := parse_cases t
  · cases blank.symm.trans h
  · exact ⟨rest, shape, header.symm.trans h⟩
  · exact absurd (pair.symm.trans h) parsePair_ne_header

theorem prefix_of_commentedHeader (h : commentedHeader t = some pattern) : pattern ++ [']'] <+: t := by
  induction t generalizing pattern with
  | nil => cases h
  | cons c rest ih =>
    rw [commentedHeader] at h
    split at h
    · cases h
    · split at h
      next later =>
        cases h
        exact List.prefix_cons_inj c |>.2 (ih later)
      · split at h
        next closing =>
          cases h
          rw [Bool.and_eq_true, decide_eq_true_eq] at closing
          exact ⟨rest, by rw [closing.1]; rfl⟩
        · cases h

theorem prefix_of_headerPattern (h : headerPattern t = .ok pattern) : pattern ++ [']'] <+: t := by
  rw [headerPattern] at h
  split at h
  next last =>
    cases h
    obtain ⟨pattern, rfl⟩ := List.getLast?_eq_some_iff.1 last
    exact List.dropLast_concat.symm ▸ List.prefix_rfl
  · split at h
    · cases h
    next found =>
      cases h
      exact prefix_of_commentedHeader found

/-- The pattern of a header is not empty and stands between brackets. -/
theorem header_of_parse (h : parse t = .ok (.header pattern)) :
    pattern ≠ [] ∧ '[' :: (pattern ++ [']']) <:+: t := by
  obtain ⟨rest, shape, read⟩ := exists_parseHeader_of_parse h
  rw [parseHeader] at read
  split at read
  · cases read
  next q found =>
    split at read
    · cases read
    next filled =>
      cases read
      refine ⟨fun empty => filled (List.isEmpty_iff.2 empty), ?_⟩
      obtain ⟨before, after, _, _, around⟩ := Text.exists_trim t
      obtain ⟨more, rfl⟩ := prefix_of_headerPattern found
      exact ⟨before, more ++ after, by rw [around, shape]; simp⟩

/-- A line is a pair exactly if blanks stand around its key, an equals sign and its value, of which the key is
told from the rest of the line by how it starts and by having no equals sign.  A header has a pattern in
brackets, and every pattern in brackets is read as a header. -/
theorem line_grammar (t : Text) :
    (∀ key value, parse t = .ok (.pair key value) ↔ IsKey key ∧ IsValue value ∧
      ∃ w₁ w₂ w₃ w₄ : Text, (∀ c ∈ w₁ ++ w₂ ++ w₃ ++ w₄, Text.isBlank c) ∧
        t = w₁ ++ (key ++ w₂ ++ '=' :: (w₃ ++ value)) ++ w₄) ∧
    (∀ pattern, parse t = .ok (.header pattern) → pattern ≠ [] ∧ '[' :: (pattern ++ [']']) <:+: t) ∧
    ∀ pattern w₁ w₂ : Text, pattern ≠ [] → (∀ c ∈ w₁ ++ w₂, Text.isBlank c) →
      t = w₁ ++ ('[' :: (pattern ++ [']'])) ++ w₂ → parse t = .ok (.header pattern) := by
  refine ⟨fun key value => parse_eq_pair_iff, fun pattern => header_of_parse, ?_⟩
  rintro pattern w₁ w₂ ne blank rfl
  rw [List.forall_mem_append] at blank
  exact parse_header ne blank.1 blank.2

/-- A header with brackets and signs inside, and a pair whose value has the same. -/
theorem line_grammar_brackets :
    parse "\t[[a]=#;] ".toList = .ok (.header "[a]=#;".toList) ∧
      parse " k  =\u3000[a] = # ".toList = .ok (.pair ['k'] "[a] = #".toList) := by
  obtain ⟨_, _, header⟩ := line_grammar "\t[[a]=#;] ".toList
  obtain ⟨pair, _⟩ := line_grammar " k  =\u3000[a] = # ".toList
  exact ⟨header _ ['\t'] [' '] (by decide) (List.all_eq_true.1 (by decide)) rfl, (pair _ _).2
    ⟨by decide, by decide, [' '], [' ', ' '], ['\u3000'], [' '], List.all_eq_true.1 (by decide), rfl⟩⟩

end Line

end EditorSettings
