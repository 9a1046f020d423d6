import Mathlib.Data.List.Basic
import EditorSettings.Glob.Lookup
import EditorSettings.Proofs.Glob.Classes

/-! # Sets of symbols

A set of symbols behaves as one: it lists its symbols in ascending order, it is told by them, and the
search finds just them, also when it is asked for a text of another length.

The search is sound because the members are in order.  `Narrowed` says what it has learnt: every
text before `low` precedes the wanted one and no text from `high` on does.  A comparison keeps that
(`Narrowed.after_middle`, `Narrowed.before_middle`), so it holds of the place that is found.
-/

namespace EditorSettings

/-! ## The order of texts -/

theorem Symbol.precedes_trans {t u v : List Symbol} (h : precedes t u) (h' : precedes u v) :
    precedes t v :=
  decide_eq_true (List.lt_trans (of_decide_eq_true h) (of_decide_eq_true h'))

theorem Symbol.not_precedes_self (t : List Symbol) : ¬ precedes t t := fun h =>
  List.lt_irrefl _ (of_decide_eq_true h)

theorem Symbol.precedes_single {x y : Symbol} : precedes [x] [y] ↔ x.codePoint < y.codePoint := by
  simp [precedes, List.cons_lt_cons_iff]

namespace CodeSet

/-! ## The members in order -/

theorem Separated.ascending {start : Nat} {ranges : List (Nat × Nat)}
    (h : Separated start ranges) : ranges.Pairwise fun r r' => r.2 < r'.1 := by
  induction ranges generalizing start with
  | nil => exact .nil
  | cons r rest ih =>
    obtain ⟨_, _, later⟩ := h
    refine List.pairwise_cons.2 ⟨fun r' member => ?_, ih later⟩
    have first : InRanges r'.1 rest := ⟨r', member, Nat.le_refl _, Separated.valid later r' member⟩
    have gap := Separated.start_le later first
    omega

theorem ascending_toList (s : CodeSet) : s.toList.Pairwise (· < ·) := by
  refine List.pairwise_flatMap.2 ⟨fun r _ => List.pairwise_lt_range' 1, ?_⟩
  refine (Separated.ascending s.separated).imp fun apart n member n' member' => ?_
  have inside := List.mem_range'_1.1 member
  have inside' := List.mem_range'_1.1 member'
  omega

section
variable {xs ys : List Symbol} {x : Symbol}

theorem codePoint_mem_ofSymbols : x.codePoint ∈ ofSymbols xs ↔ x ∈ xs := by
  rw [ofSymbols, mem_ofList, List.mem_map]
  constructor
  · rintro ⟨y, member, same⟩
    exact Symbol.codePoint_injective same ▸ member
  · exact fun member => ⟨x, member, rfl⟩

theorem codePoints_symbols (xs : List Symbol) :
    (ofSymbols xs).symbols.map Symbol.codePoint = (ofSymbols xs).toList := by
  have numbered : ∀ n ∈ (ofSymbols xs).toList, (Symbol.ofCodePoint n).codePoint = n := by
    intro n member
    obtain ⟨y, _, rfl⟩ := List.mem_map.1 (mem_ofList.1 (mem_toList.1 member))
    exact congrArg Symbol.codePoint (Symbol.ofCodePoint_codePoint y)
  rw [symbols, List.map_map]
  exact (List.map_congr_left numbered).trans (List.map_id _)

theorem mem_symbols : x ∈ (ofSymbols xs).symbols ↔ x ∈ xs := by
  have numbered : x.codePoint ∈ (ofSymbols xs).symbols.map Symbol.codePoint ↔
      x ∈ (ofSymbols xs).symbols :=
    List.mem_map_of_injective fun _ _ => Symbol.codePoint_injective
  rw [← numbered, codePoints_symbols, mem_toList, codePoint_mem_ofSymbols]

theorem ascending_symbols (xs : List Symbol) :
    (ofSymbols xs).symbols.Pairwise fun x y => x.codePoint < y.codePoint := by
  have ascending := ascending_toList (ofSymbols xs)
  rwa [← codePoints_symbols, List.pairwise_map] at ascending

theorem ofSymbols_eq_iff : ofSymbols xs = ofSymbols ys ↔ ∀ x, x ∈ xs ↔ x ∈ ys := by
  constructor
  · intro same x
    rw [← codePoint_mem_ofSymbols, same, codePoint_mem_ofSymbols]
  · intro same
    refine eq_of_mem_iff fun n => ?_
    simp only [ofSymbols, mem_ofList, List.mem_map, same]

theorem symbols_eq_iff : (ofSymbols xs).symbols = (ofSymbols ys).symbols ↔ ∀ x, x ∈ xs ↔ x ∈ ys := by
  constructor
  · intro same x
    rw [← mem_symbols, same, mem_symbols]
  · exact fun same => congrArg symbols (ofSymbols_eq_iff.2 same)

end

/-! ## The search -/

/-- What is known between `low` and `high`: the texts before precede the wanted one, and those
after do not. -/
structure Narrowed (texts : List (List Symbol)) (text : List Symbol) (low high : Nat) : Prop where
  before : ∀ i, i < low → ∀ t, texts[i]? = some t → Symbol.precedes t text
  after : ∀ i, high ≤ i → ∀ t, texts[i]? = some t → ¬ Symbol.precedes t text

section
variable {texts : List (List Symbol)} {text : List Symbol} {low high : Nat}

theorem precedes_of_lt (sorted : texts.Pairwise fun t u => Symbol.precedes t u) {i j : Nat}
    {t u : List Symbol} (less : i < j) (ht : texts[i]? = some t) (hu : texts[j]? = some u) :
    Symbol.precedes t u := by
  obtain ⟨_, rfl⟩ := List.getElem?_eq_some_iff.1 ht
  obtain ⟨_, rfl⟩ := List.getElem?_eq_some_iff.1 hu
  exact List.pairwise_iff_getElem.1 sorted i j _ _ less

theorem Narrowed.after_middle (h : Narrowed texts text low high)
    (sorted : texts.Pairwise fun t u => Symbol.precedes t u) {middle : Nat} {t : List Symbol}
    (here : texts[middle]? = some t) (less : Symbol.precedes t text) :
    Narrowed texts text (middle + 1) high where
  before i bound u found := by
    obtain earlier | rfl := Nat.lt_succ_iff_lt_or_eq.1 bound
    · exact Symbol.precedes_trans (precedes_of_lt sorted earlier found here) less
    · cases here.symm.trans found
      exact less
  after := h.after

theorem Narrowed.before_middle (h : Narrowed texts text low high)
    (sorted : texts.Pairwise fun t u => Symbol.precedes t u) {middle : Nat} {t : List Symbol}
    (here : texts[middle]? = some t) (notLess : ¬ Symbol.precedes t text) :
    Narrowed texts text low middle where
  before := h.before
  after i bound u found := by
    obtain rfl | later := Nat.eq_or_lt_of_le bound
    · cases here.symm.trans found
      exact notLess
    · exact fun less =>
        notLess (Symbol.precedes_trans (precedes_of_lt sorted later here found) less)

theorem narrowed_place (sorted : texts.Pairwise fun t u => Symbol.precedes t u)
    (ordered : low ≤ high) (inside : high ≤ texts.length) (h : Narrowed texts text low high) :
    Narrowed texts text (place texts text low high) (place texts text low high) := by
  fun_induction place texts text low high with
  | case1 low high less middle left ih =>
    obtain ⟨t, here, smaller⟩ := (Option.any_eq_true _ _).1 left
    exact ih (by omega) inside (h.after_middle sorted here smaller)
  | case2 low high less middle right ih =>
    -- there is a text in the middle, so that the comparison fails says that it does not precede
    have here := List.getElem?_eq_getElem (l := texts) (show middle < texts.length by omega)
    have notSmaller := (Option.any_eq_false _ _).1 (eq_false_of_ne_true right) _ here
    exact ih (by omega) (by omega) (h.before_middle sorted here (ne_true_of_eq_false notSmaller))
  | case3 low high done =>
    cases Nat.le_antisymm ordered (Nat.le_of_not_lt done)
    exact h

theorem getElem?_place_iff (sorted : texts.Pairwise fun t u => Symbol.precedes t u) :
    texts[place texts text 0 texts.length]? = some text ↔ text ∈ texts := by
  have start : Narrowed texts text 0 texts.length :=
    ⟨fun i bound => absurd bound (Nat.not_lt_zero i), fun i bound t found =>
      absurd (List.getElem?_eq_none bound ▸ found) nofun⟩
  have found := narrowed_place sorted (Nat.zero_le _) (Nat.le_refl _) start
  refine ⟨List.mem_of_getElem?, fun member => ?_⟩
  obtain ⟨i, here⟩ := List.mem_iff_getElem?.1 member
  -- the text stands neither before nor after the place, so it stands there
  obtain before | rfl | after := Nat.lt_trichotomy i (place texts text 0 texts.length)
  · exact absurd (found.before i before text here) (Symbol.not_precedes_self text)
  · exact here
  · obtain ⟨inside, _⟩ := List.getElem?_eq_some_iff.1 here
    have there := List.getElem?_eq_getElem (Nat.lt_trans after inside)
    exact absurd (precedes_of_lt sorted after there here) (found.after _ (Nat.le_refl _) _ there)

end

theorem holds_iff (xs : List Symbol) (text : List Symbol) :
    (ofSymbols xs).holds text = true ↔ ∃ x ∈ xs, text = [x] := by
  have sorted : ((ofSymbols xs).symbols.map ([·])).Pairwise fun t u => Symbol.precedes t u :=
    List.pairwise_map.2 ((ascending_symbols xs).imp Symbol.precedes_single.2)
  rw [holds, beq_iff_eq, getElem?_place_iff sorted, List.mem_map]
  simp only [mem_symbols, eq_comm]

/-- A set of symbols holds a text just if the text is one of the listed symbols alone; it lists those
symbols in ascending order, each once; and it is the same set as that of other symbols, or has the same
list, just if these are the same ones. -/
theorem listed_symbols_make_set (xs : List Symbol) :
    (∀ text, (ofSymbols xs).holds text = true ↔ ∃ x ∈ xs, text = [x]) ∧
      (∀ x : Symbol, (ofSymbols xs).contains x.codePoint = true ↔ x ∈ xs) ∧
      ((ofSymbols xs).symbols.Pairwise fun x y => x.codePoint < y.codePoint) ∧
      (∀ x, x ∈ (ofSymbols xs).symbols ↔ x ∈ xs) ∧
      ∀ ys, (ofSymbols xs = ofSymbols ys ↔ ∀ x, x ∈ xs ↔ x ∈ ys) ∧
        ((ofSymbols xs).symbols = (ofSymbols ys).symbols ↔ ∀ x, x ∈ xs ↔ x ∈ ys) :=
  ⟨holds_iff xs, fun _ => codePoint_mem_ofSymbols, ascending_symbols xs, fun _ => mem_symbols,
    fun _ => ⟨ofSymbols_eq_iff, symbols_eq_iff⟩⟩

end CodeSet

end EditorSettings
