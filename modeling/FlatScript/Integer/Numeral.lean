import FlatScript.Integer.Range

/-!
# Reading a numeral

A numeral is one or more ASCII digits behind at most one sign.  Leading zeros are free, and a
numeral counts only if its value is an integer of the language.
-/

namespace FlatScript.Integer

/-- The value of a list of decimal digits. -/
def digitsValue (cs : List Char) : Nat :=
  cs.foldl (fun n c => 10 * n + (c.toNat - '0'.toNat)) 0

/-- The value of a text of digits only; there has to be one. -/
def unsigned? (cs : List Char) : Option Nat :=
  if cs ≠ [] ∧ cs.all Char.isDigit then some (digitsValue cs) else none

/-- The value of a numeral, however large. -/
def signed? : List Char → Option Int
  | '-' :: cs => (unsigned? cs).map fun n => -(n : Int)
  | '+' :: cs => (unsigned? cs).map Int.ofNat
  | cs => (unsigned? cs).map Int.ofNat

/-- The integer that a numeral stands for. -/
def read? (s : String) : Option Int64 := (signed? s.toList).bind ofInt?

end FlatScript.Integer
