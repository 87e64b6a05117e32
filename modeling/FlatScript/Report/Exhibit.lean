import FlatScript.Report.Diagnostic
import FlatScript.Report.Paint
import FlatScript.Source.LineTable

/-!
# Diagnostics with their source

A diagnostic is exhibited with the source and the path it is about, as far as they are known.
With a source, each label shows the line it starts on and a row of carets below it; without one,
it gives the byte offsets alone.
-/

namespace FlatScript

/-- What is known of the place that diagnostics are about. -/
structure Exhibit where
  source : Option String
  path : Option String

/-- The part of a source that a label marks. -/
structure Snippet where
  line : Nat
  column : Nat
  text : String
  carets : Nat
deriving DecidableEq

namespace Snippet

/-- The number of carets: one for each byte of the span, but at least one, and none past the end
of the line. -/
def caretCount (text : String) (column width : Nat) : Nat :=
  max (min width (text.length - (column - 1))) 1

/-- The snippet for a span of a source. -/
def ofSpan (source : String) (span : Span) : Snippet :=
  let table := LineTable.ofSource source
  let position := table.position source span.start
  let text := (table.lineText? source position.1).getD ""
  ⟨position.1, position.2, text, caretCount text position.2 span.width⟩

/-- A row of the same character. -/
def row (n : Nat) (c : Char) : String := String.ofList (List.replicate n c)

/-- The blanks as wide as the line number. -/
def gutter (s : Snippet) : String := row (toString s.line).length ' '

/-- The rows above the carets, and what stands left of the carets. -/
def lead (s : Snippet) : String :=
  "  " ++ s.gutter ++ " |\n"
    ++ "  " ++ toString s.line ++ " | " ++ s.text ++ "\n"
    ++ "  " ++ s.gutter ++ " | " ++ row (s.column - 1) ' '

/-- The carets. -/
def caretRow (s : Snippet) : String := row s.carets '^'

end Snippet

namespace Exhibit

/-- The path as it is shown. -/
def shownPath (x : Exhibit) : String := x.path.getD "<input>"

/-- The place of a span: line and column with a source, byte offsets without. -/
def location (x : Exhibit) (span : Span) : String :=
  match x.source with
  | some source =>
    let s := Snippet.ofSpan source span
    s!"{x.shownPath}:{s.line}:{s.column}"
  | none => s!"{x.shownPath}@{span.text}"

/-- A label: its place, the snippet if there is a source, and its message. -/
def labelPieces (x : Exhibit) (label : Label) : List Piece :=
  let message := [Piece.painted .error label.message, .plain "\n"]
  .plain ("  --> " ++ x.location label.span ++ "\n") ::
    match x.source with
    | some source =>
      let s := Snippet.ofSpan source label.span
      [.plain s.lead, .painted .error s.caretRow, .plain " "] ++ message
    | none => .plain "      " :: message

/-- A remark below the labels. -/
def remarkPieces (paint : Paint) (word remark : String) : List Piece :=
  [.plain "  = ", .painted paint word, .plain (": " ++ remark ++ "\n")]

/-- A diagnostic with everything that belongs to it, and an empty line behind it. -/
def pieces (x : Exhibit) (d : Diagnostic) : List Piece :=
  [.painted .error "error", .painted .bold d.bracketedCode, .plain (": " ++ d.message ++ "\n")]
    ++ d.labels.flatMap x.labelPieces
    ++ d.notes.flatMap (remarkPieces .bold "note")
    ++ d.suggestions.flatMap (remarkPieces .help "help")
    ++ [.plain "\n"]

/-- Diagnostics one after the other, as text. -/
def render (x : Exhibit) (colours : Bool) (ds : List Diagnostic) : String :=
  Piece.renderAll colours (ds.flatMap x.pieces)

end Exhibit

end FlatScript
