import FlatScript.Text.Lines

/-!
# Where printed lines go

A printer keeps what is printed as one text, or drops it.
-/

namespace FlatScript

/-- A destination for printed lines. -/
inductive Printer where
  /-- Keeps everything printed so far. -/
  | capturing (captured : String)
  /-- Keeps nothing. -/
  | silent
deriving DecidableEq

namespace Printer

/-- A printer that has captured nothing yet. -/
def fresh : Printer := .capturing ""

/-- Prints a line, with a line feed behind it. -/
def print (line : String) : Printer → Printer
  | capturing captured => .capturing (captured ++ line ++ "\n")
  | silent => .silent

/-- The text captured so far. -/
def output : Printer → String
  | capturing captured => captured
  | silent => ""

/-- The lines captured so far. -/
def lines (p : Printer) : List String := Text.lines p.output

/-- Forgets what was captured. -/
def clear : Printer → Printer
  | capturing _ => fresh
  | silent => .silent

end Printer

end FlatScript
