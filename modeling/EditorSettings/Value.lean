import EditorSettings.Text.Lowercase
import EditorSettings.Path

/-!
# Values

A value is the text that a settings file gives to a key, and the place it was read from.  The
empty text means that nothing is set.  The word `unset`, in any case, is a text like any other
until someone asks for the setting: then it means that nothing is set, too.

* `Value.isUnset` and `Value.isUnsetWord` test for the two;
* `Value.withoutUnset` turns the word into nothing (`isUnsetWord_withoutUnset`);
* values are the same (`Value.same`) if their texts are, wherever they were read.
-/

namespace EditorSettings

structure Source where
  path : Path
  /-- The number of the line; lines of a file are counted from 1. -/
  line : Int
  deriving DecidableEq, Repr

structure Value where
  /-- The text; empty if nothing is set. -/
  text : Text
  /-- Where the text was read, if it was read from a file. -/
  source : Option Source
  deriving DecidableEq, Repr

namespace Value

def unset : Value := ⟨[], none⟩

def ofText (t : Text) : Value := ⟨t, none⟩

def same (v w : Value) : Bool := v.text = w.text

def isUnset (v : Value) : Bool := v.text.isEmpty

def isUnsetWord (v : Value) : Bool := Text.lower v.text = "unset".toList

/-- The value, with nothing set if it is the word `unset`. -/
def withoutUnset (v : Value) : Value := if v.isUnsetWord then unset else v

def toOption (v : Value) : Option Text := if v.isUnset then none else some v.text

/-- The text, or the word `unset` if nothing is set. -/
def orUnsetWord (v : Value) : Text := v.toOption.getD "unset".toList

def lower (v : Value) : Value := { v with text := Text.lower v.text }

theorem isUnsetWord_unset : unset.isUnsetWord = false := by decide

/-- The word `unset` does not survive. -/
theorem isUnsetWord_withoutUnset (v : Value) : v.withoutUnset.isUnsetWord = false := by
  unfold withoutUnset
  split
  · exact isUnsetWord_unset
  · next h => simpa using h

end Value

end EditorSettings
