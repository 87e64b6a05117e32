import FlatScript.Text.Bytes

/-!
# Lines and columns of a source

A line table holds the byte offsets at which the lines of a source start.  A line runs up to the
start of the next one, so a line feed belongs to the line it ends, and a source always has one
more line than it has line feeds.  Lines and columns are counted from one.
-/

namespace FlatScript

/-- The byte offsets at which lines start, in ascending order. -/
structure LineTable where
  starts : List Nat

namespace LineTable

/-- A table without lines. -/
def empty : LineTable := ⟨[]⟩

/-- The offsets right behind the line feeds of characters that begin at an offset. -/
def startsFrom (offset : Nat) : List Char → List Nat
  | [] => []
  | c :: cs =>
    let next := offset + c.utf8Size
    if c == '\n' then next :: startsFrom next cs else startsFrom next cs

/-- The table of a source: a line starts at the beginning and behind each line feed. -/
def ofSource (source : String) : LineTable := ⟨0 :: startsFrom 0 source.toList⟩

/-- How many lines there are. -/
def lineCount (t : LineTable) : Nat := t.starts.length

/-- The line that an offset lies on: as many lines start at or before it. -/
def lineOf (t : LineTable) (offset : Nat) : Nat := t.starts.countP (· ≤ offset)

/-- Where a line starts. -/
def startOf? (t : LineTable) (line : Nat) : Option Nat :=
  if line = 0 then none else t.starts[line - 1]?

/-- The line and the column of an offset; an offset past the end is drawn back to the end.  A
column counts characters, or bytes when the offset falls inside a character. -/
def position (t : LineTable) (source : String) (offset : Nat) : Nat × Nat :=
  let line := t.lineOf offset
  let start := (t.startOf? line).getD 0
  let stop := min offset source.utf8ByteSize
  let before :=
    match Text.slice? source.toList start stop with
    | some cs => cs.length
    | none => stop - start
  (line, before + 1)

/-- The characters of a line without the line feed and carriage returns at its end. -/
def trimmed (cs : List Char) : List Char :=
  (cs.reverse.dropWhile fun c => c == '\n' || c == '\r').reverse

/-- The text of a line. -/
def lineText? (t : LineTable) (source : String) (line : Nat) : Option String := do
  let start ← t.startOf? line
  let stop := (t.startOf? (line + 1)).getD source.utf8ByteSize
  let cs ← Text.slice? source.toList start stop
  return String.ofList (trimmed cs)

end LineTable

end FlatScript
