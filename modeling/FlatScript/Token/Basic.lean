import FlatScript.Source.Span

/-!
# Tokens

A token is a piece of source text with its kind and its place.  Nothing here ties the three
together: tokens made by the scanner have texts that fit their kinds, but tokens made by hand
may be anything, and the grammar has to cope with them.
-/

namespace FlatScript

/-- What a token is to the grammar. -/
inductive TokenKind where
  | keyword
  | identifier
  | number
  | operator
  | punctuation
deriving DecidableEq

namespace TokenKind

/-- The name of a kind as token listings write it. -/
def name : TokenKind → String
  | keyword => "Keyword"
  | identifier => "Identifier"
  | number => "Number"
  | operator => "Operator"
  | punctuation => "Punctuation"

/-- The name of a kind inside a sentence. -/
def noun : TokenKind → String
  | keyword => "keyword"
  | identifier => "identifier"
  | number => "number"
  | operator => "operator"
  | punctuation => "punctuation"

end TokenKind

/-- The words that begin a statement, when they are reserved. -/
inductive Keyword where
  | declare
  | debug
  | when
deriving DecidableEq

namespace Keyword

/-- The spelling of a keyword in a source. -/
def word : Keyword → String
  | declare => "ye"
  | debug => "de"
  | when => "if"

/-- Every keyword, in the order in which they are reserved by default. -/
def all : List Keyword := [declare, debug, when]

/-- Different keywords are spelled differently. -/
theorem word_injective {k l : Keyword} (h : k.word = l.word) : k = l := by
  revert h
  cases k <;> cases l <;> decide

end Keyword

/-- A piece of source text with its kind and its place. -/
structure Token where
  kind : TokenKind
  text : String
  span : Span
deriving DecidableEq

namespace Token

/-- What the grammar sees of a token: everything but its place. -/
def shape (t : Token) : TokenKind × String := (t.kind, t.text)

/-- Whether the token has exactly this kind and text. -/
def isExactly (t : Token) (kind : TokenKind) (text : String) : Bool :=
  t.kind == kind && t.text == text

/-- Whether the token is this keyword. -/
def isKeyword (t : Token) (k : Keyword) : Bool := t.isExactly .keyword k.word

/-- Whether the token is this punctuation mark; only a one-byte text can be one. -/
def isMark (t : Token) (mark : Char) : Bool :=
  t.kind == .punctuation && t.text.utf8ByteSize == 1 && t.text.toList.head? == some mark

/-- A token as its kind with the text in parentheses. -/
def label (t : Token) : String := s!"{t.kind.name}({t.text})"

/-- A token with its place. -/
def located (t : Token) : String := s!"{t.label} @ {t.span.text}"

end Token

/-! ## Lists of tokens -/

/-- A read outside a list of tokens. -/
structure OutOfBounds where
  length : Nat
  index : Nat
deriving DecidableEq

namespace OutOfBounds

/-- The text that reports the read. -/
def message (e : OutOfBounds) : String :=
  s!"index out of bounds: the len is {e.length} but the index is {e.index}"

end OutOfBounds

namespace Token

/-- The token at an index, or the bounds that the index breaks. -/
def fetch (tokens : List Token) (index : Nat) : Except OutOfBounds Token :=
  match tokens[index]? with
  | some t => .ok t
  | none => .error ⟨tokens.length, index⟩

/-- A list of tokens with their places, in brackets. -/
def listing (tokens : List Token) : String :=
  "[" ++ String.intercalate ", " (tokens.map located) ++ "]"

end Token

end FlatScript
