import FlatScript.Integer.Range
import FlatScript.Program.Basic
import FlatScript.Text.Indentation
import FlatScript.Token.Basic

/-!
# The layout of a program

A program is written with one statement a line, single spaces between the parts of a statement,
and four more spaces of indentation inside each body.  No parentheses are ever written, so a
nested expression, which no source can spell, is written as it comes and reads as something else
or not at all.
-/

namespace FlatScript

/-- An expression on one line. -/
def Expr.text : Expr → String
  | .literal n => Integer.text n
  | .identifier name => name
  | .binary op left right => left.text ++ " " ++ op.symbol ++ " " ++ right.text

open Text (indentation)

mutual

/-- The lines of a statement at a level. -/
def Stmt.layoutLines (level : Nat) : Stmt → List String
  | .declare name value =>
    [indentation level ++ Keyword.declare.word ++ " " ++ name ++ " = "
      ++ value.text ++ ";"]
  | .debug name => [indentation level ++ Keyword.debug.word ++ " " ++ name ++ ";"]
  | .when condition [] =>
    [indentation level ++ Keyword.when.word ++ " " ++ condition.text ++ " \x7b\x7d"]
  | .when condition (stmt :: rest) =>
    (indentation level ++ Keyword.when.word ++ " " ++ condition.text ++ " \x7b")
      :: (Stmt.layoutLines (level + 1) stmt ++ Program.layoutLines (level + 1) rest
        ++ [indentation level ++ "\x7d"])

/-- The lines of statements at a level. -/
def Program.layoutLines (level : Nat) : Program → List String
  | [] => []
  | stmt :: rest => Stmt.layoutLines level stmt ++ Program.layoutLines level rest

end

/-- Lines as a text, each with a line feed behind it. -/
def Text.unlines (lines : List String) : String := String.join (lines.map (· ++ "\n"))

/-- The text of a program. -/
def Program.layout (p : Program) : String := Text.unlines (Program.layoutLines 0 p)

end FlatScript
