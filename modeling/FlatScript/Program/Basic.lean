/-!
# Programs

A program is a list of statements over expressions.  The types admit more than a source can
spell: operands of operators may again be operators, literals may be negative, names may be any
text, and a condition need not be a comparison.  Such programs run and are written out like any
other.
-/

namespace FlatScript

/-! ## Operators -/

/-- The binary operators: arithmetic and comparison. -/
inductive Operator where
  | add
  | sub
  | mul
  | div
  | is
deriving DecidableEq

namespace Operator

/-- The spelling of an operator. -/
def symbol : Operator → String
  | add => "+"
  | sub => "-"
  | mul => "*"
  | div => "/"
  | is => "is"

/-- The name of an operator in an outline. -/
def name : Operator → String
  | add => "Add"
  | sub => "Sub"
  | mul => "Mul"
  | div => "Div"
  | is => "Is"

/-- The operators that compute integers. -/
def arithmetic : List Operator := [add, sub, mul, div]

/-- Whether the operator computes integers. -/
def isArithmetic : Operator → Bool
  | is => false
  | _ => true

/-- The operator with a given spelling. -/
def ofSymbol? (symbol : String) : Option Operator :=
  [add, sub, mul, div, is].find? (·.symbol == symbol)

/-- An operator is found by its spelling, and by no other. -/
theorem ofSymbol?_eq_some_iff {s : String} {op : Operator} :
    ofSymbol? s = some op ↔ op.symbol = s := by
  constructor
  · intro h
    simpa using List.find?_some h
  · rintro rfl
    cases op <;> decide

/-- The arithmetic operators are all but the comparison. -/
theorem mem_arithmetic {op : Operator} : op ∈ arithmetic ↔ op.isArithmetic = true := by
  cases op <;> decide

end Operator

/-! ## Expressions and statements -/

/-- What computes a value. -/
inductive Expr where
  | literal (value : Int64)
  | identifier (name : String)
  | binary (op : Operator) (left right : Expr)
deriving DecidableEq

/-- What a program does. -/
inductive Stmt where
  /-- Binds a name to the value of an expression. -/
  | declare (name : String) (value : Expr)
  /-- Prints what a name is bound to. -/
  | debug (name : String)
  /-- Runs the body if the condition holds. -/
  | when (condition : Expr) (body : List Stmt)

/-- Statements in the order in which they run. -/
abbrev Program := List Stmt

/-! ## Equality of statements -/

mutual

/-- Statements are compared part by part. -/
def Stmt.decEq : (s t : Stmt) → Decidable (s = t)
  | .declare x e, .declare y f =>
    decidable_of_iff (x = y ∧ e = f) (by simp)
  | .debug x, .debug y => decidable_of_iff (x = y) (by simp)
  | .when c ss, .when d ts =>
    match instDecidableEqExpr c d, Stmt.decEqList ss ts with
    | isTrue h, isTrue k => isTrue (h ▸ k ▸ rfl)
    | isFalse h, _ => isFalse fun e => h (Stmt.when.inj e).1
    | _, isFalse k => isFalse fun e => k (Stmt.when.inj e).2
  | .declare .., .debug _ => isFalse nofun
  | .declare .., .when .. => isFalse nofun
  | .debug _, .declare .. => isFalse nofun
  | .debug _, .when .. => isFalse nofun
  | .when .., .declare .. => isFalse nofun
  | .when .., .debug _ => isFalse nofun

/-- Lists of statements are compared statement by statement. -/
def Stmt.decEqList : (ss ts : List Stmt) → Decidable (ss = ts)
  | [], [] => isTrue rfl
  | [], _ :: _ => isFalse nofun
  | _ :: _, [] => isFalse nofun
  | s :: ss, t :: ts =>
    match Stmt.decEq s t, Stmt.decEqList ss ts with
    | isTrue h, isTrue k => isTrue (h ▸ k ▸ rfl)
    | isFalse h, _ => isFalse fun e => h (List.cons.inj e).1
    | _, isFalse k => isFalse fun e => k (List.cons.inj e).2

end

instance : DecidableEq Stmt := Stmt.decEq

end FlatScript
