import FlatScript.Report.Code
import FlatScript.Source.Span

/-!
# Diagnostics

A diagnostic is what is shown of a problem: a code and a message, labels that point into the
source, and remarks below.
-/

namespace FlatScript

/-- A remark on a part of the source. -/
structure Label where
  span : Span
  message : String
deriving DecidableEq

/-- What is shown of a problem. -/
structure Diagnostic where
  code : Code
  message : String
  labels : List Label
  notes : List String
  suggestions : List String
deriving DecidableEq

namespace Diagnostic

/-- A diagnostic of a code and a message alone. -/
def bare (code : Code) (message : String) : Diagnostic := ⟨code, message, [], [], []⟩

/-- Adds a label behind the others. -/
def withLabel (d : Diagnostic) (span : Span) (message : String) : Diagnostic :=
  { d with labels := d.labels ++ [⟨span, message⟩] }

/-- Adds a note behind the others. -/
def withNote (d : Diagnostic) (note : String) : Diagnostic :=
  { d with notes := d.notes ++ [note] }

/-- Adds a suggestion behind the others. -/
def withSuggestion (d : Diagnostic) (suggestion : String) : Diagnostic :=
  { d with suggestions := d.suggestions ++ [suggestion] }

/-- The code in brackets. -/
def bracketedCode (d : Diagnostic) : String := "[" ++ d.code.text ++ "]"

/-- The diagnostic on one line. -/
def headline (d : Diagnostic) : String := "error" ++ d.bracketedCode ++ ": " ++ d.message

end Diagnostic

end FlatScript
