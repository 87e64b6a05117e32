import FlatScript.Program.Basic
import FlatScript.Run.Value

/-!
# Operators on values

Arithmetic is exact: the result is computed on unbounded integers, division truncates toward
zero, and a result outside the 64-bit range is an overflow.  Comparison never fails: values are
the same when they are of one kind and equal.
-/

namespace FlatScript

/-- Why a program stops. -/
inductive EvalError where
  | unboundIdentifier (name : String)
  /-- An operator, by its spelling, that has no meaning for its operands. -/
  | unknownOperator (symbol : String)
  | divisionByZero
  | integerOverflow (op : Operator)
deriving DecidableEq

namespace EvalError

/-- The text that reports the error. -/
def message : EvalError → String
  | unboundIdentifier name => s!"unbound identifier `{name}`"
  | unknownOperator symbol => s!"unknown operator `{symbol}` for these operands"
  | divisionByZero => "division by zero"
  | integerOverflow op => s!"integer overflow in `{op.symbol}`"

end EvalError

namespace Operator

/-- The exact result of an operator as a value, or an overflow of that operator. -/
def inRange (op : Operator) (n : Int) : Except EvalError Value :=
  match Integer.ofInt? n with
  | some i => .ok (.int i)
  | none => .error (.integerOverflow op)

/-- An operator on two integers. -/
def onInts (op : Operator) (a b : Int64) : Except EvalError Value :=
  match op with
  | add => inRange add (a.toInt + b.toInt)
  | sub => inRange sub (a.toInt - b.toInt)
  | mul => inRange mul (a.toInt * b.toInt)
  | div => if b = 0 then .error .divisionByZero else inRange div (a.toInt.tdiv b.toInt)
  | is => .ok (.bool (a == b))

/-- An operator on two values. -/
def apply (op : Operator) (left right : Value) : Except EvalError Value :=
  match left, right with
  | .int a, .int b => op.onInts a b
  | left, right =>
    match op with
    | is => .ok (.bool (left == right))
    | _ => .error (.unknownOperator op.symbol)

end Operator

end FlatScript
