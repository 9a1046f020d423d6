import EditorSettings.Discovery
import EditorSettings.Glob.Display

/-!
# Displaying settings

Sections, files and properties are shown as terms, with the values that tell them apart.
-/

namespace EditorSettings

def Properties.display (p : Properties) : Text :=
  Text.term "Properties" (p.entries.map fun e => e.1 ++ ['='] ++ Quoted.text e.2.text)

/-- The term of a section: its pattern and the number of its properties. -/
def Section.display (s : Section) : Text :=
  Text.term "Section"
    [Quoted.text s.pattern, Decimal.write s.props.size ++ " properties".toList]

def SettingsFile.display (f : SettingsFile) : Text :=
  Text.term "ConfigFile"
    [Quoted.text f.path.text, Text.argument "is_root" (Text.ofBool f.isRoot)]

/-- The term of several settings files: their paths. -/
def SettingsFile.displayAll (files : List SettingsFile) : Text :=
  Text.term "ConfigFiles"
    [['['] ++ List.intercalate ", ".toList (files.map fun f => Quoted.text f.path.text) ++ [']']]

end EditorSettings
