import FlatScript.Run.Environment
import FlatScript.Run.Operation
import FlatScript.Run.Printer

/-!
# Running programs

A session is the scope together with the printer.  Statements run in it one after the other; the
first error ends the run, and the session then holds exactly what the statements before it did.
Bodies of conditionals run in the same scope.
-/

namespace FlatScript

/-! ## Expressions -/

/-- The value of an expression: the left operand first, then the right one, then the operator. -/
def Expr.eval (env : Environment) : Expr → Except EvalError Value
  | .literal n => .ok (.int n)
  | .identifier name =>
    match env.lookup name with
    | some v => .ok v
    | none => .error (.unboundIdentifier name)
  | .binary op left right => do
    let l ← left.eval env
    let r ← right.eval env
    op.apply l r

/-! ## Sessions -/

/-- What a run reads and changes. -/
structure Session where
  env : Environment
  printer : Printer

namespace Session

/-- A session in which nothing is bound. -/
def start (printer : Printer) : Session := ⟨.empty, printer⟩

/-- Binds a name. -/
def define (s : Session) (name : String) (value : Value) : Session :=
  { s with env := s.env.define name value }

/-- Prints a line. -/
def print (s : Session) (line : String) : Session :=
  { s with printer := s.printer.print line }

/-- What a debug statement reports of a name: its value, or that it has none. -/
def report (s : Session) (name : String) : Value := (s.env.lookup name).getD .absent

end Session

/-- The line that a debug statement prints. -/
def debugLine (name : String) (value : Value) : String := s!"{name} = {value.text}"

/-! ## Statements -/

mutual

/-- Runs a statement. -/
def Stmt.exec (s : Session) : Stmt → Except EvalError Outcome × Session
  | .declare name value =>
    match value.eval s.env with
    | .ok v => (.ok (.value v), s.define name v)
    | .error e => (.error e, s)
  | .debug name =>
    (.ok (.value (s.report name)), s.print (debugLine name (s.report name)))
  | .when condition body =>
    match condition.eval s.env with
    | .error e => (.error e, s)
    | .ok v =>
      if v.isTruthy then
        match Program.exec s body with
        | (.ok outcomes, s') => (.ok (.branch outcomes), s')
        | (.error e, s') => (.error e, s')
      else (.ok .skipped, s)

/-- Runs statements in order, up to the first error. -/
def Program.exec (s : Session) : Program → Except EvalError (List Outcome) × Session
  | [] => (.ok [], s)
  | stmt :: rest =>
    match Stmt.exec s stmt with
    | (.error e, s') => (.error e, s')
    | (.ok outcome, s') =>
      match Program.exec s' rest with
      | (.ok outcomes, s'') => (.ok (outcome :: outcomes), s'')
      | (.error e, s'') => (.error e, s'')

end

end FlatScript
