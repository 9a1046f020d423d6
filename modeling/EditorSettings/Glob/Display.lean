import EditorSettings.Text.Quoted
import EditorSettings.Glob.Basic

/-!
# Displaying programs

A program is shown in two forms: on one line as a constructor term, which is the form of log
messages, and as an outline with one node per line, in which the branches of a choice are
indented.

* `Atom.display`, `Node.display` and `Program.display` give the term;
* `Program.outline` gives the lines of the outline.
-/

namespace EditorSettings

def Text.term (name : String) (arguments : List Text) : Text :=
  name.toList ++ ['('] ++ List.intercalate ", ".toList arguments ++ [')']

def Text.argument (name : String) (value : Text) : Text := name.toList ++ ['='] ++ value

/-- A tuple, which has a comma after an only item. -/
def Text.tuple : List Text → Text
  | [item] => ['('] ++ item ++ ",)".toList
  | items => ['('] ++ List.intercalate ", ".toList items ++ [')']

def Text.ofBool (b : Bool) : Text := if b then "True".toList else "False".toList

def Atom.display : Atom → Text
  | .boundary => Text.term "Separator" []
  | .anyChar => Text.term "AnyChar" []
  | .literal text =>
    Text.term "LiteralSuffix"
      [Text.argument "text" (Quoted.codePoints (text.map Symbol.codePoint))]
  | .charClass members inclusive =>
    Text.term "CharClass"
      [Text.argument "symbols" (Text.term "SymbolSet" [Quoted.codePoints members.toList]),
        Text.argument "inclusive" (Text.ofBool inclusive)]
  | .number low high =>
    Text.term "NumericRange"
      [Text.argument "low" (Decimal.writeInt low), Text.argument "high" (Decimal.writeInt high)]
  | .root => Text.term "End" []

namespace Node

def programTerm (nodes : List Text) : Text :=
  Text.term "Program" [Text.argument "nodes" (Text.tuple nodes)]

mutual

def display : Node → Text
  | .atom a => a.display
  | .run crossing =>
    Text.term "AnySeq" [Text.argument "crosses_separators" (Text.ofBool crossing)]
  | .choice branches =>
    Text.term "Alternation" [Text.argument "branches" (Text.tuple (displayBranches branches))]

def displayNodes : List Node → List Text
  | [] => []
  | n :: rest => display n :: displayNodes rest

def displayBranches : List (List Node) → List Text
  | [] => []
  | b :: rest => programTerm (displayNodes b) :: displayBranches rest

end

mutual

/-- The lines of a node at a depth of indentation. -/
def outline (depth : Nat) : Node → List Text
  | .choice branches =>
    (List.replicate (2 * depth) ' ' ++ "Alternation".toList) :: outlineBranches depth branches
  | .atom a => [List.replicate (2 * depth) ' ' ++ a.display]
  | .run crossing => [List.replicate (2 * depth) ' ' ++ display (.run crossing)]

def outlineNodes (depth : Nat) : List Node → List Text
  | [] => []
  | n :: rest => outline depth n ++ outlineNodes depth rest

def outlineBranches (depth : Nat) : List (List Node) → List Text
  | [] => []
  | b :: rest =>
    (List.replicate (2 * depth) ' ' ++ "  |".toList) :: outlineNodes (depth + 2) b
      ++ outlineBranches depth rest

end

end Node

def Program.display (p : Program) : Text := Node.programTerm (Node.displayNodes p)

def Program.outline (p : Program) : List Text := Node.outlineNodes 0 p

def Glob.display (g : Glob) : Text :=
  Text.term "Glob" [Quoted.codePoints (g.pattern.map Symbol.codePoint)]

def Cursor.display (c : Cursor) : Text :=
  Text.term "Splitter"
    [Text.argument "index" (Decimal.writeInt c.index), Text.argument "part" (Quoted.bytes c.part)]

end EditorSettings
