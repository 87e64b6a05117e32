import FlatScript.Integer.Range

/-!
# Values and outcomes

Expressions compute values; statements have outcomes, which repeat the nesting of the statements
that ran.
-/

namespace FlatScript

/-- What an expression may be worth. -/
inductive Value where
  | int (n : Int64)
  | bool (b : Bool)
  /-- What a debug statement reports for a name that is not bound. -/
  | absent
deriving DecidableEq

namespace Value

/-- Whether a condition with this value lets its body run. -/
def isTruthy : Value → Bool
  | int n => n != 0
  | bool b => b
  | absent => false

/-- The value as a debug statement prints it. -/
def text : Value → String
  | int n => Integer.text n
  | bool true => "true"
  | bool false => "false"
  | absent => "Undefined"

/-- The value with its kind. -/
def outline : Value → String
  | int n => s!"Int({Integer.text n})"
  | bool true => "Bool(true)"
  | bool false => "Bool(false)"
  | absent => "Absent"

end Value

/-- What came of a statement. -/
inductive Outcome where
  /-- The value declared or reported. -/
  | value (v : Value)
  /-- The outcomes of a body that ran. -/
  | branch (outcomes : List Outcome)
  /-- The body did not run. -/
  | skipped

end FlatScript
