/-!
# Painted text

Text for a terminal is a list of pieces, some of them painted.  Whether the paint is applied is
decided only when the pieces are put together, so it cannot change what else is written.
-/

namespace FlatScript

/-- What a piece of text is painted as. -/
inductive Paint where
  | error
  | help
  | bold
deriving DecidableEq

namespace Paint

/-- The escape sequence that begins the paint. -/
def opening : Paint → String
  | error => "\x1b[1;31m"
  | help => "\x1b[1;32m"
  | bold => "\x1b[1m"

/-- The escape sequence that ends every paint. -/
def closing : String := "\x1b[0m"

end Paint

/-- A piece of text, painted or plain. -/
structure Piece where
  paint : Option Paint
  text : String
deriving DecidableEq

namespace Piece

/-- A piece that is never painted. -/
def plain (text : String) : Piece := ⟨none, text⟩

/-- A piece that is painted. -/
def painted (paint : Paint) (text : String) : Piece := ⟨some paint, text⟩

/-- The text of a piece; paint goes round it, even if it is empty. -/
def render (colours : Bool) (p : Piece) : String :=
  match colours, p.paint with
  | true, some paint => paint.opening ++ p.text ++ Paint.closing
  | _, _ => p.text

/-- The text of pieces. -/
def renderAll (colours : Bool) (ps : List Piece) : String :=
  String.join (ps.map (render colours))

end Piece

/-- When paint is applied. -/
inductive ColourMode where
  /-- On a terminal only. -/
  | auto
  | always
  | never
deriving DecidableEq

namespace ColourMode

/-- Whether paint is applied, given whether the text goes to a terminal. -/
def applies (onTerminal : Bool) : ColourMode → Bool
  | auto => onTerminal
  | always => true
  | never => false

end ColourMode

end FlatScript
