import FlatScript.Program.Basic
import FlatScript.Run.Value

/-!
# Sizes of nested programs and outcomes

Both statements and outcomes nest, and both are measured alike: how many there are at all levels,
and how many levels there are.  A caller that cannot show a deeply nested program, or what came of
it, shows these numbers.
-/

namespace FlatScript

mutual

/-- The number of statements in a statement, itself included. -/
def Stmt.count : Stmt → Nat
  | .declare .. => 1
  | .debug _ => 1
  | .when _ body => 1 + Program.count body

/-- The number of statements at all levels. -/
def Program.count : Program → Nat
  | [] => 0
  | stmt :: rest => Stmt.count stmt + Program.count rest

end

mutual

/-- The number of levels of a statement. -/
def Stmt.depth : Stmt → Nat
  | .declare .. => 1
  | .debug _ => 1
  | .when _ body => 1 + Program.depth body

/-- The number of levels of a program; an empty one has none. -/
def Program.depth : Program → Nat
  | [] => 0
  | stmt :: rest => max (Stmt.depth stmt) (Program.depth rest)

end

namespace Outcome

mutual

/-- The number of outcomes in an outcome, itself included. -/
def count : Outcome → Nat
  | .value _ => 1
  | .branch outcomes => 1 + countAll outcomes
  | .skipped => 1

/-- The number of outcomes at all levels. -/
def countAll : List Outcome → Nat
  | [] => 0
  | outcome :: rest => count outcome + countAll rest

end

mutual

/-- The number of levels of an outcome. -/
def depth : Outcome → Nat
  | .value _ => 1
  | .branch outcomes => 1 + depthAll outcomes
  | .skipped => 1

/-- The number of levels of outcomes; none have none. -/
def depthAll : List Outcome → Nat
  | [] => 0
  | outcome :: rest => max (depth outcome) (depthAll rest)

end

end Outcome

end FlatScript
