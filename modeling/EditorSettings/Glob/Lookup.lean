import EditorSettings.Glob.CodeSet
import EditorSettings.Glob.Symbol

/-!
# Looking a text up in a set of symbols

The members of a set can be listed as one-symbol texts in ascending order, and any text can be
looked up among them: the search halves the list by comparing whole texts, so it also answers for a
text that has no symbol or several.

* `Symbol.precedes` is the order of texts;
* `CodeSet.ofSymbols` and `CodeSet.symbols` collect symbols and list them in order;
* `CodeSet.place` is the search and `CodeSet.holds` its use for membership.
-/

namespace EditorSettings

/-- Texts are ordered like words, their symbols by code point. -/
def Symbol.precedes (t u : List Symbol) : Bool := t.map codePoint < u.map codePoint

namespace CodeSet

def ofSymbols (symbols : List Symbol) : CodeSet := ofList (symbols.map Symbol.codePoint)

def symbols (s : CodeSet) : List Symbol := s.toList.map Symbol.ofCodePoint

/-- The first place from `low` on, and before `high`, at which a text could be put in and keep the
texts in order. -/
def place (texts : List (List Symbol)) (text : List Symbol) (low high : Nat) : Nat :=
  if low < high then
    let middle := (low + high) / 2
    if texts[middle]?.any (Symbol.precedes · text) then place texts text (middle + 1) high
    else place texts text low middle
  else low
termination_by high - low

/-- Whether a text is one of the members: it stands at the place where it would be put in. -/
def holds (s : CodeSet) (text : List Symbol) : Bool :=
  let texts := s.symbols.map ([·])
  texts[place texts text 0 texts.length]? == some text

end CodeSet

end EditorSettings
