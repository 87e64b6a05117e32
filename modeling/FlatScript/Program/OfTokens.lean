import FlatScript.Integer.Numeral
import FlatScript.Program.Basic
import FlatScript.Token.Cursor

/-!
# Reading a program

The grammar, one function a rule, by recursive descent with one token of lookahead:

* a statement is a bare `;`, which leaves nothing behind, or a declaration, a debug statement or
  a conditional, told apart by their keywords; the rule of each skips its first token without
  another look;
* an expression is an operand, or two operands joined by an arithmetic operator;
* the condition of a conditional is a comparison of two expressions, and its body is a block in
  braces.

Every rule reads at least one token, which is what ends the recursion between statements and
blocks.
-/

namespace FlatScript

namespace Cursor

/-! ## Expressions -/

/-- The arithmetic operator that comes next, read. -/
def arithmetic? (c : Cursor) : Option (Read c Operator) := do
  let r ← c.readIf? (·.kind == .operator)
  let op ← Operator.ofSymbol? r.value.text
  if op.isArithmetic then some ⟨op, r.next, r.shorter⟩ else none

/-- An operand: a number that is an integer of the language, or a name. -/
def operand (c : Cursor) : Except ParseError (Read c Expr) :=
  match c.readIf? (·.kind == .number) with
  | some r =>
    match Integer.read? r.value.text with
    | some n => .ok ⟨.literal n, r.next, r.shorter⟩
    | none => .error (.literalOutOfRange r.value)
  | none => do
    let r ← c.readIf (·.kind == .identifier) .operand
    return ⟨.identifier r.value.text, r.next, r.shorter⟩

/-- An expression: one operand, or two with an arithmetic operator between them. -/
def expression (c : Cursor) : Except ParseError (Read c Expr) := do
  let left ← c.operand
  match left.next.arithmetic? with
  | none => return left
  | some op =>
    let right ← op.next.operand
    return ⟨.binary op.value left.value right.value, right.next,
      Nat.lt_trans right.shorter (Nat.lt_trans op.shorter left.shorter)⟩

/-! ## Statements -/

/-- A declaration.  Its keyword has been looked at, and is skipped. -/
def declaration (c : Cursor) : Except ParseError (Read c Stmt) := do
  let name ← c.skip.expectKind .identifier
  let equals ← name.next.expect .operator "="
  let value ← equals.next.expression
  let stop ← value.next.expectMark ';'
  return ⟨.declare name.value.text value.value, stop.next, by
    have := c.length_skip_le; have := name.shorter; have := equals.shorter
    have := value.shorter; have := stop.shorter; omega⟩

/-- A debug statement, whose keyword is skipped. -/
def debugStatement (c : Cursor) : Except ParseError (Read c Stmt) := do
  let name ← c.skip.expectKind .identifier
  let stop ← name.next.expectMark ';'
  return ⟨.debug name.value.text, stop.next, by
    have := c.length_skip_le; have := name.shorter; have := stop.shorter; omega⟩

/-- The head of a conditional: its keyword, which is skipped, and the comparison of two
expressions. -/
def conditionalHead (c : Cursor) : Except ParseError (Read c Expr) := do
  let left ← c.skip.expression
  let is ← left.next.expect .operator Operator.is.symbol
  let right ← is.next.expression
  return ⟨.binary .is left.value right.value, right.next, by
    have := c.length_skip_le; have := left.shorter; have := is.shorter
    have := right.shorter; omega⟩

-- three for each token left, so that a rule can also hand over to another before it reads
mutual

/-- A statement; a bare `;` reads as none. -/
def statement (c : Cursor) : Except ParseError (Read c (Option Stmt)) :=
  if hmark : c.checkMark ';' then .ok ⟨none, c.skip, length_skip_lt hmark⟩
  else if c.checkKeyword .declare then do
    let r ← c.declaration
    return ⟨some r.value, r.next, r.shorter⟩
  else if c.checkKeyword .debug then do
    let r ← c.debugStatement
    return ⟨some r.value, r.next, r.shorter⟩
  else if c.checkKeyword .when then do
    let r ← conditional c
    return ⟨some r.value, r.next, r.shorter⟩
  else .error (c.errorHere .statement)
termination_by 3 * c.rest.length + 1

/-- A conditional: its head, and a block. -/
def conditional (c : Cursor) : Except ParseError (Read c Stmt) := do
  let condition ← c.conditionalHead
  have := condition.shorter
  let body ← block condition.next
  return ⟨.when condition.value body.value, body.next, by have := body.shorter; omega⟩
termination_by 3 * c.rest.length

/-- A block: statements in braces. -/
def block (c : Cursor) : Except ParseError (Read c (List Stmt)) := do
  let start ← c.expectMark '\x7b'
  have := start.shorter
  let body ← blockRest start.next
  return ⟨body.value, body.next, by have := body.shorter; omega⟩
termination_by 3 * c.rest.length

/-- The statements of a block up to its closing brace, which is read too. -/
def blockRest (c : Cursor) : Except ParseError (Read c (List Stmt)) :=
  if c.isAtEnd || c.checkMark '\x7d' then do
    let stop ← c.expectMark '\x7d'
    return ⟨[], stop.next, stop.shorter⟩
  else do
    let first ← statement c
    have := first.shorter
    let others ← blockRest first.next
    return ⟨first.value.toList ++ others.value, others.next, by
      have := others.shorter; omega⟩
termination_by 3 * c.rest.length + 2

end

/-- All the statements that are left. -/
def statements (c : Cursor) : Except ParseError (List Stmt) :=
  if c.isAtEnd then .ok []
  else do
    let first ← c.statement
    have := first.shorter
    let others ← statements first.next
    return first.value.toList ++ others
termination_by c.rest.length

end Cursor

/-- The program that a list of tokens spells. -/
def Program.ofTokens (tokens : List Token) : Except ParseError Program :=
  (Cursor.ofTokens tokens).statements

end FlatScript
