import FlatScript.Token.Basic

/-!
# Reading along a list of tokens

A cursor holds the tokens that are still to be read, together with the place that an error
reports once there are none.  Whatever reads a token answers with the cursor behind it and with
the fact that fewer tokens are left, so a grammar can be read by recursion on cursors.  A refused
expectation reads nothing.
-/

namespace FlatScript

/-! ## Errors of reading -/

/-- What a rule of the grammar would have accepted. -/
inductive Expected where
  /-- One particular token. -/
  | exactly (kind : TokenKind) (text : String)
  /-- Any token of a kind. -/
  | someToken (kind : TokenKind)
  /-- The beginning of an expression. -/
  | operand
  /-- The beginning of a statement. -/
  | statement
  /-- Whatever a caller calls it. -/
  | phrase (text : String)
deriving DecidableEq

namespace Expected

/-- The expectation as it stands in an error text. -/
def text : Expected → String
  | exactly _ text => s!"`{text}`"
  | someToken kind => kind.noun
  | operand => "number or identifier"
  | statement => "statement"
  | phrase text => text

end Expected

/-- What stood in the way. -/
inductive Found where
  | token (kind : TokenKind) (text : String)
  | endOfInput
deriving DecidableEq

namespace Found

/-- A token as what was found; its place is told apart. -/
def ofToken (t : Token) : Found := .token t.kind t.text

/-- What was found, as it stands in an error text. -/
def text : Found → String
  | token kind text => s!"{kind.noun} `{text}`"
  | endOfInput => "end of input"

end Found

/-- Why tokens do not make a program. -/
inductive ParseError where
  /-- The grammar needs something else here. -/
  | unexpected (expected : Expected) (found : Found) (span : Span)
  /-- A number token whose text is no integer of the language. -/
  | literalOutOfRange (literal : Token)
deriving DecidableEq

namespace ParseError

/-- What would have been accepted. -/
def expected : ParseError → String
  | unexpected expected _ _ => expected.text
  | literalOutOfRange _ => "integer literal in range"

/-- What was found instead. -/
def found : ParseError → Found
  | unexpected _ found _ => found
  | literalOutOfRange literal => .ofToken literal

/-- Where it was found. -/
def span : ParseError → Span
  | unexpected _ _ span => span
  | literalOutOfRange literal => literal.span

/-- Whether the tokens ended too early. -/
def isAtEnd (e : ParseError) : Bool := e.found == .endOfInput

/-- The text that reports the error. -/
def message (e : ParseError) : String := s!"expected {e.expected}, found {e.found.text}"

end ParseError

/-! ## Cursors -/

/-- The tokens still to be read, and the place behind the last token of the whole list. -/
structure Cursor where
  rest : List Token
  finish : Span
deriving DecidableEq

/-- A value read at a cursor, and the cursor behind it, with fewer tokens left. -/
structure Read (c : Cursor) (α : Type) where
  value : α
  next : Cursor
  shorter : next.rest.length < c.rest.length

namespace Cursor

/-- The place behind the last token of a list, or the origin if there is none. -/
def finishOf (tokens : List Token) : Span :=
  match tokens.getLast? with
  | some t => t.span.atStop
  | none => Span.origin

/-- The cursor before the first token of a list. -/
def ofTokens (tokens : List Token) : Cursor := ⟨tokens, finishOf tokens⟩

/-- Whether no token is left. -/
def isAtEnd (c : Cursor) : Bool := c.rest.isEmpty

/-- The token that is read next. -/
def current (c : Cursor) : Option Token := c.rest.head?

/-- Reads a token that passes a test. -/
def readIf? (c : Cursor) (accepts : Token → Bool) : Option (Read c Token) :=
  match h : c.rest with
  | [] => none
  | t :: rest => if accepts t then some ⟨t, ⟨rest, c.finish⟩, by simp [h]⟩ else none

/-- Reads a token, whatever it is. -/
def advance? (c : Cursor) : Option (Read c Token) := c.readIf? fun _ => true

/-- The cursor behind the next token, whatever that is.  At the end of the list it is the same. -/
def skip (c : Cursor) : Cursor := (c.advance?.map Read.next).getD c

/-- Whether the next token is a keyword. -/
def checkKeyword (c : Cursor) (k : Keyword) : Bool := c.current.any (·.isKeyword k)

/-- Whether the next token is a punctuation mark. -/
def checkMark (c : Cursor) (mark : Char) : Bool := c.current.any (·.isMark mark)

/-- The error of needing something else at the cursor. -/
def errorHere (c : Cursor) (expected : Expected) : ParseError :=
  match c.current with
  | some t => .unexpected expected (.ofToken t) t.span
  | none => .unexpected expected .endOfInput c.finish

/-- Reads a token that passes a test, or reports what was expected. -/
def readIf (c : Cursor) (accepts : Token → Bool) (expected : Expected) :
    Except ParseError (Read c Token) :=
  match c.readIf? accepts with
  | some r => .ok r
  | none => .error (c.errorHere expected)

/-- Reads one particular token. -/
def expect (c : Cursor) (kind : TokenKind) (text : String) : Except ParseError (Read c Token) :=
  c.readIf (·.isExactly kind text) (.exactly kind text)

/-- Reads a punctuation mark. -/
def expectMark (c : Cursor) (mark : Char) : Except ParseError (Read c Token) :=
  c.expect .punctuation (String.singleton mark)

/-- Reads any token of a kind. -/
def expectKind (c : Cursor) (kind : TokenKind) : Except ParseError (Read c Token) :=
  c.readIf (·.kind == kind) (.someToken kind)

/-! ## What reading does -/

@[simp] theorem isAtEnd_nil (finish : Span) : isAtEnd ⟨[], finish⟩ = true := rfl

@[simp] theorem isAtEnd_cons (t : Token) (rest : List Token) (finish : Span) :
    isAtEnd ⟨t :: rest, finish⟩ = false := rfl

@[simp] theorem current_nil (finish : Span) : current ⟨[], finish⟩ = none := rfl

@[simp] theorem current_cons (t : Token) (rest : List Token) (finish : Span) :
    current ⟨t :: rest, finish⟩ = some t := rfl

@[simp] theorem readIf?_nil (finish : Span) (accepts : Token → Bool) :
    readIf? ⟨[], finish⟩ accepts = none := rfl

@[simp] theorem readIf?_cons (t : Token) (rest : List Token) (finish : Span)
    (accepts : Token → Bool) :
    readIf? ⟨t :: rest, finish⟩ accepts
      = if accepts t then some ⟨t, ⟨rest, finish⟩, Nat.lt_succ_self _⟩ else none := rfl

@[simp] theorem skip_nil (finish : Span) : skip ⟨[], finish⟩ = ⟨[], finish⟩ := rfl

@[simp] theorem skip_cons (t : Token) (rest : List Token) (finish : Span) :
    skip ⟨t :: rest, finish⟩ = ⟨rest, finish⟩ := rfl

theorem length_skip_le (c : Cursor) : c.skip.rest.length ≤ c.rest.length := by
  obtain ⟨rest, finish⟩ := c
  cases rest with
  | nil => exact Nat.le_refl 0
  | cons t rest => exact Nat.le_succ rest.length

/-- Where a mark is seen, a token is left to be skipped. -/
theorem length_skip_lt {c : Cursor} {mark : Char} (h : c.checkMark mark = true) :
    c.skip.rest.length < c.rest.length := by
  obtain ⟨rest, finish⟩ := c
  cases rest with
  | nil => cases h
  | cons t rest => exact Nat.lt_succ_self rest.length

/-- What is read is the next token, and it passed the test; the end of the list stays. -/
theorem readIf?_eq_some {c : Cursor} {accepts : Token → Bool} {r : Read c Token}
    (h : c.readIf? accepts = some r) :
    c.rest = r.value :: r.next.rest ∧ r.next.finish = c.finish ∧ accepts r.value = true := by
  obtain ⟨rest, finish⟩ := c
  cases rest with
  | nil => simp at h
  | cons t rest =>
    rw [readIf?_cons] at h
    split at h
    · next ha => cases h; exact ⟨rfl, rfl, ha⟩
    · cases h

end Cursor

end FlatScript
