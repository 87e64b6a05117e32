/-!
# Codes of reported problems

Every kind of problem has a code, by which it can be looked up on the command line.
-/

namespace FlatScript

/-- The stage of a run at which a problem comes up. -/
inductive Stage where
  | lex
  | parse
  | eval
deriving DecidableEq

namespace Stage

/-- The name of a stage. -/
def name : Stage → String
  | lex => "lex"
  | parse => "parse"
  | eval => "eval"

end Stage

/-- The kinds of problems. -/
inductive Code where
  | unrecognized
  | sourceTooLarge
  | unexpectedToken
  | literalOutOfRange
  | unboundIdentifier
  | unknownOperator
  | divisionByZero
  | integerOverflow
deriving DecidableEq

namespace Code

/-- Every code, in ascending order. -/
def all : List Code :=
  [unrecognized, sourceTooLarge, unexpectedToken, literalOutOfRange,
    unboundIdentifier, unknownOperator, divisionByZero, integerOverflow]

/-- The code as it is written. -/
def text : Code → String
  | unrecognized => "E0001"
  | sourceTooLarge => "E0002"
  | unexpectedToken => "E1001"
  | literalOutOfRange => "E1002"
  | unboundIdentifier => "E6001"
  | unknownOperator => "E6002"
  | divisionByZero => "E6003"
  | integerOverflow => "E6004"

/-- The stage at which the problem comes up. -/
def stage : Code → Stage
  | unrecognized => .lex
  | sourceTooLarge => .lex
  | unexpectedToken => .parse
  | literalOutOfRange => .parse
  | unboundIdentifier => .eval
  | unknownOperator => .eval
  | divisionByZero => .eval
  | integerOverflow => .eval

/-- The code that is written in a given way. -/
def ofText? (text : String) : Option Code := all.find? (·.text == text)

/-- A code is found by its text, and by no other. -/
theorem ofText?_eq_some_iff {text : String} {code : Code} :
    ofText? text = some code ↔ code.text = text := by
  constructor
  · intro h
    simpa using List.find?_some h
  · rintro rfl
    cases code <;> decide

/-- The lines that explain the code. -/
def explanationLines : Code → List String
  | unrecognized => [
      "A character in the source is not part of the language.",
      "",
      "Source may contain letters, digits, underscores, whitespace, the",
      "operators `= + - * /`, the word `is`, and `( ) ; \x7b \x7d`. Anything",
      "else, including `#` and string quotes, stops the lexer."]
  | sourceTooLarge => [
      "The source is larger than 4 GiB.",
      "",
      "Token positions are 32-bit byte offsets, so longer input cannot be",
      "lexed. Split the program."]
  | unexpectedToken => [
      "The parser found a token, or the end of input, where the grammar",
      "needs something else.",
      "",
      "Statements are `ye NAME = EXPR;`, `de NAME;` and",
      "`if EXPR is EXPR \x7b ... \x7d`. An expression is one operand or two",
      "operands joined by one of `+ - * /`; `a + b + c` is rejected."]
  | literalOutOfRange => [
      "An integer literal does not fit in a signed 64-bit integer.",
      "",
      "The largest literal is 9223372036854775807."]
  | unboundIdentifier => [
      "An expression read a variable that was never declared.",
      "",
      "Declare it with `ye NAME = ...;` first. A `de NAME;` statement",
      "does not fail on unbound names; it prints `NAME = Undefined`."]
  | unknownOperator => [
      "An operator was applied to values it has no rule for.",
      "",
      "Arithmetic works on integers only. Source programs cannot reach",
      "this; it guards trees built by other tools."]
  | divisionByZero => ["The right-hand side of `/` evaluated to zero."]
  | integerOverflow => ["An arithmetic result does not fit in a signed 64-bit integer."]

/-- The text that explains the code. -/
def explanation (code : Code) : String := String.intercalate "\n" code.explanationLines

end Code

end FlatScript
