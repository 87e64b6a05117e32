import FlatScript.Report.Diagnostic
import FlatScript.Run.Operation
import FlatScript.Token.Cursor
import FlatScript.Token.Scan

/-!
# Problems

Whatever stops a script, at whichever stage, is a problem with a code, a message and a
diagnostic.  Problems of scanning and reading know their place; problems of running do not.
-/

namespace FlatScript

/-- What stops a script. -/
inductive Problem where
  | lex (e : LexError)
  | parse (e : ParseError)
  | eval (e : EvalError)
deriving DecidableEq

namespace Problem

/-- The code of a problem. -/
def code : Problem → Code
  | lex (.unrecognized ..) => .unrecognized
  | lex (.sourceTooLarge _) => .sourceTooLarge
  | parse (.unexpected ..) => .unexpectedToken
  | parse (.literalOutOfRange _) => .literalOutOfRange
  | eval (.unboundIdentifier _) => .unboundIdentifier
  | eval (.unknownOperator _) => .unknownOperator
  | eval .divisionByZero => .divisionByZero
  | eval (.integerOverflow _) => .integerOverflow

/-- The stage of a problem. -/
def stage (p : Problem) : Stage := p.code.stage

/-- The message of the error behind a problem. -/
def cause : Problem → String
  | lex e => e.message
  | parse e => e.message
  | eval e => e.message

/-- The text that reports a problem. -/
def message (p : Problem) : String := s!"{p.stage.name} error: {p.cause}"

/-- Where a problem is, if it knows. -/
def span? : Problem → Option Span
  | lex e => e.span?
  | parse e => some e.span
  | eval _ => none

/-- The statement that declares a name, to be put in front of a script that misses it. -/
def declarationFor (name : String) : String := s!"ye {name} = 0;"

/-- What is shown of a problem. -/
def diagnostic (p : Problem) : Diagnostic :=
  let d := Diagnostic.bare p.code p.message
  match p with
  | lex (.unrecognized c _ span) =>
    d.withLabel span s!"{Text.quotedChar c} is not part of the language"
  | lex (.sourceTooLarge _) => d.withNote "source offsets are limited to 4 GiB"
  | parse e =>
    let labelled := d.withLabel e.span s!"expected {e.expected}"
    match e with
    | .unexpected .. =>
      if e.isAtEnd then labelled.withNote "the source ended before this statement did"
      else labelled
    | .literalOutOfRange _ =>
      labelled.withNote "integer literals must fit in a signed 64-bit integer"
  | eval (.unboundIdentifier name) =>
    (d.withNote "`de` reports unbound names as Undefined, expressions do not").withSuggestion
      s!"declare it first: `{declarationFor name}`"
  | eval (.unknownOperator _) => d.withNote "arithmetic operators only apply to integers"
  | eval .divisionByZero => d
  | eval (.integerOverflow _) => d.withNote "values are signed 64-bit integers"

end Problem

end FlatScript
