import EditorSettings.Display
import EditorSettings.Glob.Lookup
import EditorSettings.Main
import EditorSettings.Proofs.Glob.Derivation
import EditorSettings.Proofs.Glob.Place
import EditorSettings.Proofs.Glob.Exploration
import EditorSettings.Proofs.Glob.Guard
import EditorSettings.Proofs.Glob.Building
import EditorSettings.Proofs.Glob.Classes
import EditorSettings.Proofs.Glob.Lookup
import EditorSettings.Proofs.Glob.Tokens
import EditorSettings.Proofs.Glob.Compiled
import EditorSettings.Proofs.Glob.Fusion
import EditorSettings.Proofs.Glob.Canonical
import EditorSettings.Proofs.Glob.Scanning
import EditorSettings.Proofs.Glob.Rendering
import EditorSettings.Proofs.Glob.Rereading
import EditorSettings.Proofs.Glob.Inverse
import EditorSettings.Proofs.Glob.Refusal
import EditorSettings.Proofs.Glob.Leftover
import EditorSettings.Proofs.Glob.Simulation
import EditorSettings.Proofs.Glob.Upstream
import EditorSettings.Proofs.Glob.Readings
import EditorSettings.Proofs.Glob.Load
import EditorSettings.Proofs.Glob.Demand
import EditorSettings.Proofs.Glob.Ceiling
import EditorSettings.Proofs.Glob.Characters
import EditorSettings.Proofs.Glob.CharacterSearch
import EditorSettings.Proofs.Properties.LastWins
import EditorSettings.Proofs.Properties.Fallbacks
import EditorSettings.Proofs.Properties.Merging
import EditorSettings.Proofs.Properties.History
import EditorSettings.Proofs.Document.Lines
import EditorSettings.Proofs.Text.Lowercase
import EditorSettings.Proofs.Properties.Listing
import EditorSettings.Proofs.Document.Headers
import EditorSettings.Proofs.Document.Reading
import EditorSettings.Proofs.Document.Malformed
import EditorSettings.Proofs.Document.Grammar
import EditorSettings.Proofs.Document.Correspondence
import EditorSettings.Proofs.Document.Layout
import EditorSettings.Proofs.Discovery.Candidates
import EditorSettings.Proofs.Discovery.Layers
import EditorSettings.Proofs.Document.Writing
import EditorSettings.Proofs.Document.Sources
import EditorSettings.Proofs.Discovery.Relocation
import EditorSettings.Proofs.Discovery.Listing
import EditorSettings.Proofs.Glob.Resumption
import EditorSettings.Proofs.Glob.Numbers
import EditorSettings.Proofs.Glob.Ranges
import EditorSettings.Proofs.Glob.Positions
import EditorSettings.Proofs.Glob.Members
import EditorSettings.Proofs.Glob.Slashes
import EditorSettings.Proofs.Glob.Faults
import EditorSettings.Proofs.Property.Spelling
import EditorSettings.Proofs.Property.Writing
import EditorSettings.Proofs.Properties.Meanings
import EditorSettings.Proofs.Document.Decoding
import EditorSettings.Proofs.Properties.Widths
