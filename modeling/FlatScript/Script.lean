import FlatScript.Problem
import FlatScript.Program.OfTokens
import FlatScript.Run.Session

/-!
# Scripts

A script is a source text that is scanned, read and run.  Each stage needs the one before it to
succeed, and the first problem ends the script.
-/

namespace FlatScript.Script

/-- The tokens of a script. -/
def tokens (reserved : Reserved) (source : String) : Except Problem (List Token) :=
  (Token.scan reserved source).mapError .lex

/-- The program of a script. -/
def program (reserved : Reserved) (source : String) : Except Problem Program := do
  let ts ← tokens reserved source
  (Program.ofTokens ts).mapError .parse

/-- Runs a script in a session.  A script without a program leaves the session alone. -/
def run (reserved : Reserved) (s : Session) (source : String) :
    Except Problem (List Outcome) × Session :=
  match program reserved source with
  | .error p => (.error p, s)
  | .ok p =>
    match Program.exec s p with
    | (.ok outcomes, s') => (.ok outcomes, s')
    | (.error e, s') => (.error (.eval e), s')

end FlatScript.Script
