import EditorSettings.Property.Parse
import EditorSettings.Proofs.Text.Decimal
import EditorSettings.Proofs.Text.Lowercase

/-! # How values are spelled

`Spells` lists the texts of each value: a word in any case, a number with a plus sign and zeros in front or
without, a language in letters of any case.  Reading finds the value that a text spells (`parse_eq_ok_iff`).

`Answers` says that reading gives a value or refuses the text as no value of its property.  A number with
too many digits is refused in another way (`parse_of_overlong`), and nothing else is (`answers_parse`).
-/

namespace EditorSettings

/-- A number as it may be written: digits, perhaps behind a plus sign. -/
structure IsWhole (t digits : Text) : Prop where
  sign : t = digits ∨ t = '+' :: digits
  ne : digits ≠ []
  all : ∀ c ∈ digits, c.isDigit

namespace Property

def columns? : Property → Option Nat
  | .indentSize (.columns n) | .tabWidth n | .maxLineLength (.columns n) => some n
  | _ => none

/-- The value is one of the words of its property: neither a number nor a language. -/
def IsWord (v : Property) : Prop := v.columns? = none ∧ v.kind ≠ .spellingLanguage

end Property

/-- The texts that are read as a value. -/
inductive Spells : Text → Property → Prop
  | word {t v} (isWord : v.IsWord) (same : Text.lower t = v.text) : Spells t v
  | number {t digits v} (columns : v.columns? = some (Decimal.value digits)) (whole : IsWhole t digits)
      (short : digits.length ≤ Decimal.digitLimit) : Spells t v
  | language {primary} (letters : PropertyKind.isLetterPair primary) :
      Spells primary (.spellingLanguage ⟨primary.map Char.toLower, none⟩)
  | region {primary region} (letters : PropertyKind.isLetterPair primary)
      (letters' : PropertyKind.isLetterPair region) : Spells (primary ++ '-' :: region)
        (.spellingLanguage ⟨primary.map Char.toLower, some (region.map Char.toUpper)⟩)

/-- Reading gives a value, or refuses the text as no value of its property. -/
def Answers {α : Type} (refusal : UnknownValue) (x : Except ValueError α) : Prop :=
  (∃ a, x = .ok a) ∨ x = .error (.unknown refusal)

variable {α β ε : Type} {t digits primary region : Text} {v : Property} {kind : PropertyKind}

theorem map_eq_ok_iff {f : α → β} {x : Except ε α} {b : β} :
    x.map f = .ok b ↔ ∃ a, x = .ok a ∧ f a = b := by
  cases x <;> simp [Except.map]

theorem Answers.map {refusal : UnknownValue} {x : Except ValueError α} (h : Answers refusal x) (f : α → β) :
    Answers refusal (x.map f) := by
  obtain ⟨a, rfl⟩ | rfl := h
  · exact .inl ⟨f a, rfl⟩
  · exact .inr rfl

/-! ## Whole numbers -/

theorem isWhole_write (n : Nat) : IsWhole (Decimal.write n) (Decimal.write n) :=
  ⟨.inl rfl, Decimal.write_ne_nil n, fun _ => Decimal.isDigit_of_mem_write⟩

theorem IsWhole.ascii (whole : IsWhole t digits) : ∀ c ∈ t, c.toNat < 0x80 := by
  have ascii : ∀ c ∈ digits, c.toNat < 0x80 := fun c member => Decimal.ascii_of_isDigit (whole.all c member)
  obtain rfl | rfl := whole.sign
  · exact ascii
  · exact List.forall_mem_cons.2 ⟨by decide, ascii⟩

theorem lowerChar_of_isDigit {c : Char} (digit : c.isDigit) : Text.lowerChar c = c := by
  have range := Decimal.isDigit_iff.1 digit
  have capital : 'A'.toNat = 0x41 := rfl
  rw [Text.lowerChar_of_ascii (Decimal.ascii_of_isDigit digit), if_neg]
  rintro ⟨low, _⟩
  have : 'A'.toNat ≤ c.toNat := low
  omega

/-- In lower case, a number still has its digits. -/
theorem IsWhole.lower_ne (whole : IsWhole t digits) {word : Text} (free : word.any Char.isDigit = false) :
    Text.lower t ≠ word := by
  rintro rfl
  obtain ⟨c, rest, shape⟩ := List.exists_cons_of_ne_nil whole.ne
  have digit := whole.all c (shape ▸ List.mem_cons_self)
  have member : c ∈ t := by
    obtain rfl | rfl := whole.sign <;> simp [shape]
  refine List.any_eq_false.1 free c ?_ digit
  rw [Text.lower, Text.lowerAfter_of_ascii _ whole.ascii, ← lowerChar_of_isDigit digit]
  exact List.mem_map_of_mem member

namespace PropertyKind

theorem withoutPlus_of_isWhole (whole : IsWhole t digits) : withoutPlus t = digits := by
  obtain rfl | rfl := whole.sign
  · unfold withoutPlus
    split
    next plus => exact absurd (whole.all '+' List.mem_cons_self) (by decide)
    · rfl
  · rfl

theorem isWhole_withoutPlus (ne : withoutPlus t ≠ []) (all : ∀ c ∈ withoutPlus t, c.isDigit) :
    IsWhole t (withoutPlus t) := by
  refine ⟨?_, ne, all⟩
  unfold withoutPlus
  split
  · exact .inr rfl
  · exact .inl rfl

theorem parseWhole_of_isWhole (whole : IsWhole t digits) :
    parseWhole t = (Decimal.read digits).mapError .tooManyDigits := by
  have filled : digits.isEmpty = false := List.isEmpty_eq_false_iff.2 whole.ne
  have all : digits.all Char.isDigit = true := List.all_eq_true.2 whole.all
  simp only [parseWhole, withoutPlus_of_isWhole whole, filled, all]
  cases Decimal.read digits <;> rfl

theorem parseWhole_of_not_isWhole (other : ∀ digits, ¬ IsWhole t digits) :
    parseWhole t = .error (.unknown (.notWholeNumber t)) := by
  refine if_pos ?_
  by_contra whole
  simp only [Bool.or_eq_true, List.isEmpty_iff, Bool.not_eq_true', not_or, Bool.not_eq_false,
    List.all_eq_true] at whole
  exact other _ (isWhole_withoutPlus whole.1 whole.2)

theorem parseWhole_of_short (whole : IsWhole t digits) (short : digits.length ≤ Decimal.digitLimit) :
    parseWhole t = .ok (Decimal.value digits) := by
  rw [parseWhole_of_isWhole whole, Decimal.read_eq_ok short]
  rfl

theorem parseWhole_of_overlong (whole : IsWhole t digits) (long : Decimal.digitLimit < digits.length) :
    parseWhole t = .error (.tooManyDigits (.reading digits.length)) := by
  rw [parseWhole_of_isWhole whole, Decimal.read, if_pos long]
  rfl

theorem isWhole_of_parseWhole {n : Nat} (read : parseWhole t = .ok n) :
    ∃ digits, IsWhole t digits ∧ digits.length ≤ Decimal.digitLimit ∧ n = Decimal.value digits := by
  by_cases whole : ∃ digits, IsWhole t digits
  · obtain ⟨digits, whole⟩ := whole
    refine ⟨digits, whole, ?_⟩
    rcases Nat.lt_or_ge Decimal.digitLimit digits.length with long | short
    · cases (parseWhole_of_overlong whole long).symm.trans read
    · cases (parseWhole_of_short whole short).symm.trans read
      exact ⟨short, rfl⟩
  · cases (parseWhole_of_not_isWhole (not_exists.1 whole)).symm.trans read

theorem answers_parseWhole (short : ∀ digits, IsWhole t digits → digits.length ≤ Decimal.digitLimit) :
    Answers (.notWholeNumber t) (parseWhole t) := by
  by_cases whole : ∃ digits, IsWhole t digits
  · obtain ⟨digits, whole⟩ := whole
    exact .inl ⟨_, parseWhole_of_short whole (short digits whole)⟩
  · exact .inr (parseWhole_of_not_isWhole (not_exists.1 whole))

/-! ## Words that stand for no number -/

section WordOrWhole

variable {word : Text} {atWord : α} {ofNumber : Nat → α}

theorem word_or_whole_of_read {a : α}
    (read : (if Text.lower t = word then .ok atWord else (parseWhole t).map ofNumber) = .ok a) :
    (Text.lower t = word ∧ a = atWord) ∨ ∃ digits, IsWhole t digits ∧ digits.length ≤ Decimal.digitLimit ∧
      a = ofNumber (Decimal.value digits) := by
  split at read
  next same => exact .inl ⟨same, (Except.ok.inj read).symm⟩
  · obtain ⟨n, counted, rfl⟩ := map_eq_ok_iff.1 read
    obtain ⟨digits, whole, short, rfl⟩ := isWhole_of_parseWhole counted
    exact .inr ⟨digits, whole, short, rfl⟩

theorem answers_word_or_whole (short : ∀ digits, IsWhole t digits → digits.length ≤ Decimal.digitLimit) :
    Answers (.notWholeNumber t)
      (if Text.lower t = word then .ok atWord else (parseWhole t).map ofNumber) := by
  split
  · exact .inl ⟨atWord, rfl⟩
  · exact (answers_parseWhole short).map ofNumber

end WordOrWhole

theorem parseIndentSize_of_isWhole (whole : IsWhole t digits) :
    parseIndentSize t = (parseWhole t).map .columns := if_neg (whole.lower_ne rfl)

theorem parseMaxLineLength_of_isWhole (whole : IsWhole t digits) :
    parseMaxLineLength t = (parseWhole t).map .columns := if_neg (whole.lower_ne rfl)

/-! ## Words -/

theorem lower_of_parseWord {all : List α} {word : α → Text} {a : α}
    (read : parseWord kind all word t = .ok a) : Text.lower t = word a := by
  rw [parseWord] at read
  split at read
  · cases read
  next found =>
    cases read
    have same := List.find?_some found
    exact (of_decide_eq_true same).symm

theorem parseWord_of_lower {all : List α} (word : α → Text) {a : α} (same : Text.lower t = word a)
    (found : (all.find? fun b => word b = word a) = some a) : parseWord kind all word t = .ok a := by
  rw [parseWord, same, found]

theorem answers_parseWord (all : List α) (word : α → Text) :
    Answers (.notAWord kind t) (parseWord kind all word t) := by
  rw [parseWord]
  split
  · exact .inr rfl
  · exact .inl ⟨_, rfl⟩

theorem lower_of_parseBool {b : Bool} (read : parseBool t = .ok b) : Text.lower t = Property.boolText b := by
  rw [parseBool] at read
  split at read
  next same =>
    cases read
    exact same
  · split at read
    next same =>
      cases read
      exact same
    · cases read

theorem parseBool_of_lower {b : Bool} (same : Text.lower t = Property.boolText b) : parseBool t = .ok b := by
  rw [parseBool, same]
  cases b <;> rfl

theorem answers_parseBool : Answers (.notBoolean t) (parseBool t) := by
  rw [parseBool]
  split
  · exact .inl ⟨_, rfl⟩
  · split
    · exact .inl ⟨_, rfl⟩
    · exact .inr rfl

/-! ## Languages -/

theorem isLetterPair_iff : isLetterPair t ↔ ∃ a b : Char, t = [a, b] ∧ a.isAlpha ∧ b.isAlpha := by
  simp only [isLetterPair, Bool.and_eq_true, decide_eq_true_eq, List.length_eq_two]
  constructor
  · rintro ⟨⟨a, b, rfl⟩, letters⟩
    exact ⟨a, b, rfl, by simpa using letters⟩
  · rintro ⟨a, b, rfl, letters⟩
    exact ⟨⟨a, b, rfl⟩, by simpa using letters⟩

theorem parseLanguage_of_isLetterPair (letters : isLetterPair primary) :
    parseLanguage primary = .ok ⟨primary.map Char.toLower, none⟩ := if_pos letters

theorem parseLanguage_of_region (letters : isLetterPair primary) (letters' : isLetterPair region) :
    parseLanguage (primary ++ '-' :: region) =
      .ok ⟨primary.map Char.toLower, some (region.map Char.toUpper)⟩ := by
  obtain ⟨a, b, rfl, _⟩ := isLetterPair_iff.1 letters
  have longer : ¬ isLetterPair ([a, b] ++ '-' :: region) := by simp [isLetterPair]
  rw [parseLanguage, if_neg longer]
  refine if_pos ?_
  simpa [letters'] using letters

theorem spells_of_parseLanguage {tag : LanguageTag} (read : parseLanguage t = .ok tag) :
    Spells t (.spellingLanguage tag) := by
  simp only [parseLanguage] at read
  split at read
  next letters =>
    cases read
    exact .language letters
  · split at read
    next parts =>
      cases read
      simp only [Bool.and_eq_true, decide_eq_true_eq] at parts
      obtain ⟨⟨letters, hyphen⟩, letters'⟩ := parts
      obtain ⟨within, third⟩ := List.getElem?_eq_some_iff.1 hyphen
      have whole : t = t.take 2 ++ '-' :: t.drop 3 := by
        rw [← third, ← List.drop_eq_getElem_cons, List.take_append_drop]
      have spells := Spells.region letters letters'
      rwa [← whole] at spells
    · cases read

theorem answers_parseLanguage : Answers (.notLanguageTag t) (parseLanguage t) := by
  simp only [parseLanguage]
  split
  · exact .inl ⟨_, rfl⟩
  · split
    · exact .inl ⟨_, rfl⟩
    · exact .inr rfl

/-! ## All properties -/

def refusal (kind : PropertyKind) (t : Text) : UnknownValue :=
  match kind with
  | .indentSize | .tabWidth | .maxLineLength => .notWholeNumber t
  | .trimTrailingWhitespace | .insertFinalNewline => .notBoolean t
  | .spellingLanguage => .notLanguageTag t
  | .indentStyle | .endOfLine | .charset => .notAWord kind t

def Counts : PropertyKind → Prop
  | .indentSize | .tabWidth | .maxLineLength => True
  | _ => False

/-- The text is a number with too many digits, and read as a number. -/
def Overlong (kind : PropertyKind) (t : Text) : Prop :=
  kind.Counts ∧ ∃ digits, IsWhole t digits ∧ Decimal.digitLimit < digits.length

/-- Only a value that the text spells is read. -/
theorem spells_of_parse (parsed : kind.parse t = .ok v) : Spells t v := by
  cases kind with
  | indentStyle | endOfLine | charset =>
    obtain ⟨a, read, rfl⟩ := map_eq_ok_iff.1 parsed
    have same := lower_of_parseWord read
    exact .word ⟨rfl, nofun⟩ same
  | trimTrailingWhitespace | insertFinalNewline =>
    obtain ⟨b, read, rfl⟩ := map_eq_ok_iff.1 parsed
    exact .word ⟨rfl, nofun⟩ (lower_of_parseBool read)
  | spellingLanguage =>
    obtain ⟨tag, read, rfl⟩ := map_eq_ok_iff.1 parsed
    exact spells_of_parseLanguage read
  | tabWidth =>
    obtain ⟨n, read, rfl⟩ := map_eq_ok_iff.1 parsed
    obtain ⟨digits, whole, short, rfl⟩ := isWhole_of_parseWhole read
    exact .number rfl whole short
  | indentSize | maxLineLength =>
    obtain ⟨a, read, rfl⟩ := map_eq_ok_iff.1 parsed
    obtain ⟨word, rfl⟩ | ⟨digits, whole, short, rfl⟩ := word_or_whole_of_read read
    · exact .word ⟨rfl, nofun⟩ word
    · exact .number rfl whole short

theorem parse_of_spells (spells : Spells t v) : v.kind.parse t = .ok v := by
  cases spells with
  | word isWord same =>
    cases v with
    | indentStyle style =>
      exact congrArg (Except.map _) (parseWord_of_lower IndentStyle.word same (by cases style <;> rfl))
    | endOfLine ending =>
      exact congrArg (Except.map _) (parseWord_of_lower EndOfLine.word same (by cases ending <;> rfl))
    | charset encoding =>
      exact congrArg (Except.map _) (parseWord_of_lower Charset.word same (by cases encoding <;> rfl))
    | trimTrailingWhitespace b | insertFinalNewline b =>
      exact congrArg (Except.map _) (parseBool_of_lower same)
    | indentSize size =>
      cases size with
      | tab => exact congrArg (Except.map _) (if_pos same)
      | columns n => cases isWord.1
    | maxLineLength length =>
      cases length with
      | off => exact congrArg (Except.map _) (if_pos same)
      | columns n => cases isWord.1
    | tabWidth n => cases isWord.1
    | spellingLanguage tag => exact absurd rfl isWord.2
  | number columns whole short =>
    have read := parseWhole_of_short whole short
    cases v with
    | tabWidth n =>
      cases columns
      exact congrArg (Except.map _) read
    | indentSize size =>
      cases size with
      | tab => cases columns
      | columns n =>
        cases columns
        rw [Property.kind, parse, parseIndentSize_of_isWhole whole, read]
        rfl
    | maxLineLength length =>
      cases length with
      | off => cases columns
      | columns n =>
        cases columns
        rw [Property.kind, parse, parseMaxLineLength_of_isWhole whole, read]
        rfl
    | _ => cases columns
  | language letters => exact congrArg (Except.map _) (parseLanguage_of_isLetterPair letters)
  | region letters letters' => exact congrArg (Except.map _) (parseLanguage_of_region letters letters')

/-- Exactly the values that a text spells are read. -/
theorem parse_eq_ok_iff : kind.parse t = .ok v ↔ v.kind = kind ∧ Spells t v := by
  constructor
  · intro read
    exact ⟨kind_of_parse read, spells_of_parse read⟩
  · rintro ⟨rfl, spells⟩
    exact parse_of_spells spells

theorem answers_parse (short : ¬ kind.Overlong t) : Answers (kind.refusal t) (kind.parse t) := by
  have within (counts : kind.Counts) : ∀ digits, IsWhole t digits → digits.length ≤ Decimal.digitLimit := by
    intro digits whole
    by_contra long
    exact short ⟨counts, digits, whole, Nat.lt_of_not_le long⟩
  cases kind with
  | indentStyle | endOfLine | charset => exact (answers_parseWord _ _).map _
  | trimTrailingWhitespace | insertFinalNewline => exact answers_parseBool.map _
  | spellingLanguage => exact answers_parseLanguage.map _
  | tabWidth => exact (answers_parseWhole (within trivial)).map _
  | indentSize | maxLineLength => exact (answers_word_or_whole (within trivial)).map _

theorem parse_of_overlong (counts : kind.Counts) (whole : IsWhole t digits)
    (long : Decimal.digitLimit < digits.length) :
    kind.parse t = .error (.tooManyDigits (.reading digits.length)) := by
  have fails := parseWhole_of_overlong whole long
  cases kind with
  | tabWidth => exact congrArg (Except.map _) fails
  | indentSize =>
    rw [parse, parseIndentSize_of_isWhole whole, fails]
    rfl
  | maxLineLength =>
    rw [parse, parseMaxLineLength_of_isWhole whole, fails]
    rfl
  | _ => exact counts.elim

/-- Reading answers exactly if the text is no number with too many digits. -/
theorem answers_parse_iff : Answers (kind.refusal t) (kind.parse t) ↔ ¬ kind.Overlong t := by
  refine ⟨?_, answers_parse⟩
  rintro answers ⟨counts, digits, whole, long⟩
  rw [parse_of_overlong counts whole long] at answers
  obtain ⟨_, read⟩ | refused := answers
  · cases read
  · cases refused

end PropertyKind

end EditorSettings
