import FlatScript.Text.Bytes
import FlatScript.Text.Quoted
import FlatScript.Token.Reserved

/-!
# Scanning a source into tokens

A source is blanks and lexemes.  The first character of a lexeme settles its class, and the
class says which characters go on with it, so a lexeme always reaches as far as it can.  A
character that is neither blank nor the first of a lexeme is foreign, and the first foreign
character ends the scan.  Reserved words come in only when a word is given its kind.
-/

namespace FlatScript

/-! ## Characters and lexeme classes -/

/-- The characters that separate lexemes and mean nothing else. -/
def isBlank (c : Char) : Bool :=
  c == ' ' || c == '\t' || c == '\r' || c == '\n' || c == '\x0c'

/-- The characters that a word may begin with. -/
def isWordStart (c : Char) : Bool := c.isAlpha || c == '_'

/-- The characters that a word may go on with. -/
def isWordChar (c : Char) : Bool := c.isAlphanum || c == '_'

/-- The marks that stand for an operator. -/
def isOperatorMark (c : Char) : Bool :=
  c == '=' || c == '+' || c == '-' || c == '*' || c == '/'

/-- The marks that group and separate. -/
def isPunctuationMark (c : Char) : Bool :=
  c == '(' || c == ')' || c == ';' || c == '\x7b' || c == '\x7d'

/-- What a lexeme is made of. -/
inductive LexemeClass where
  | word
  | digits
  | operatorMark
  | punctuationMark
deriving DecidableEq

namespace LexemeClass

/-- The class of the lexeme that a character begins. -/
def ofFirst? (c : Char) : Option LexemeClass :=
  if isWordStart c then some word
  else if c.isDigit then some digits
  else if isOperatorMark c then some operatorMark
  else if isPunctuationMark c then some punctuationMark
  else none

/-- Whether a lexeme of the class goes on with a character; marks stand alone. -/
def goesOnWith : LexemeClass → Char → Bool
  | word, c => isWordChar c
  | digits, c => c.isDigit
  | operatorMark, _ => false
  | punctuationMark, _ => false

/-- The operator that is spelled like a word. -/
def wordOperator : String := "is"

/-- The kind of a token, from the class and the text of its lexeme. -/
def kind (reserved : Reserved) (text : String) : LexemeClass → TokenKind
  | word =>
    if reserved.isReserved text then .keyword
    else if text == wordOperator then .operator
    else .identifier
  | digits => .number
  | operatorMark => .operator
  | punctuationMark => .punctuation

end LexemeClass

/-! ## Scanning -/

/-- Why a source cannot be cut into tokens. -/
inductive LexError where
  /-- A foreign character, its byte offset as far as a span can tell, and its place. -/
  | unrecognized (character : Char) (position : Nat) (span : Span)
  /-- A token that ends at an offset no span can hold. -/
  | sourceTooLarge (offset : Nat)
deriving DecidableEq

namespace LexError

/-- The error of meeting a foreign character at a byte offset. -/
def foreign (c : Char) (offset : Nat) : LexError :=
  .unrecognized c (min offset maxOffset) (Span.clamped offset c.utf8Size)

/-- The text that reports the error. -/
def message : LexError → String
  | unrecognized c position _ =>
    s!"unrecognized character {Text.quotedChar c} at position {position}"
  | sourceTooLarge offset =>
    s!"source is too large: offset {offset} exceeds {maxOffset} bytes"

/-- Where the error is, if a span can tell. -/
def span? : LexError → Option Span
  | unrecognized _ _ span => some span
  | sourceTooLarge _ => none

end LexError

namespace LexemeClass

/-- The position behind the characters that go on with a lexeme, from a position on. -/
def reach (cls : LexemeClass) {source : String} (i : source.Pos) : source.Pos :=
  if h : i = source.endPos then i
  else if cls.goesOnWith (i.get h) then cls.reach (i.next h)
  else i
termination_by i.remainingBytes
decreasing_by exact (String.Pos.lt_iff_remainingBytes_lt _ _).mp String.Pos.lt_next

theorem le_reach (cls : LexemeClass) {source : String} (i : source.Pos) : i ≤ cls.reach i := by
  induction i using reach.induct cls with
  | case1 =>
      rw [reach, dif_pos rfl]
      exact Std.le_refl _
  | case2 i h hgo ih =>
      rw [reach, dif_neg h, if_pos hgo]
      exact Std.le_trans (Std.le_of_lt String.Pos.lt_next) ih
  | case3 i h hgo =>
      rw [reach, dif_neg h, if_neg hgo]
      exact Std.le_refl _

end LexemeClass

namespace Token

/-- Scans a source from a position on, with the tokens before it in reverse. -/
def scanAt (reserved : Reserved) (before : List Token) {source : String} (i : source.Pos) :
    Except LexError (List Token) :=
  if h : i = source.endPos then .ok before.reverse
  else if isBlank (i.get h) then scanAt reserved before (i.next h)
  else match LexemeClass.ofFirst? (i.get h) with
    | none => .error (.foreign (i.get h) i.offset.byteIdx)
    | some cls =>
      let j := cls.reach (i.next h)
      match Span.ofRange i.offset.byteIdx j.offset.byteIdx with
      | .error _ => .error (.sourceTooLarge j.offset.byteIdx)
      | .ok span =>
        let text := source.extract i j
        scanAt reserved (⟨cls.kind reserved text, text, span⟩ :: before) j
-- a number of bytes, so that the kernel can run the scan
termination_by i.remainingBytes
decreasing_by
  · exact (String.Pos.lt_iff_remainingBytes_lt _ _).mp String.Pos.lt_next
  · exact (String.Pos.lt_iff_remainingBytes_lt _ _).mp
      (Std.lt_of_lt_of_le String.Pos.lt_next (cls.le_reach _))

/-- The tokens of a source. -/
def scan (reserved : Reserved) (source : String) : Except LexError (List Token) :=
  scanAt reserved [] source.startPos

end Token

end FlatScript
