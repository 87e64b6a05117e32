/-!
# Integers of the language

Values and literals are 64-bit integers.  Every computation is done on unbounded integers first
and then brought back by `ofInt?`, which answers exactly the integers in range, so nothing wraps.
-/

namespace FlatScript.Integer

/-- The 64-bit integer with a given value, if there is one. -/
def ofInt? (n : Int) : Option Int64 :=
  if h : Int64.minValue.toInt ≤ n ∧ n ≤ Int64.maxValue.toInt then
    some (Int64.ofIntLE n h.1 h.2)
  else none

/-- What is brought back has the value asked for. -/
theorem ofInt?_eq_some_iff {n : Int} {i : Int64} : ofInt? n = some i ↔ i.toInt = n := by
  unfold ofInt?
  split
  · next h =>
    constructor
    · intro e
      cases e
      exact Int64.toInt_ofIntLE
    · intro e
      subst e
      simp
  · next h =>
    simp only [false_iff, reduceCtorEq]
    intro e
    subst e
    exact h ⟨i.minValue_le_toInt, i.toInt_le⟩

/-- Nothing is brought back exactly outside the range of 64 bits. -/
theorem ofInt?_eq_none_iff {n : Int} :
    ofInt? n = none ↔ n < Int64.minValue.toInt ∨ Int64.maxValue.toInt < n := by
  unfold ofInt?
  split
  · next h =>
    simp only [reduceCtorEq, false_iff]
    omega
  · next h =>
    simp only [true_iff]
    omega

/-- An integer in decimal. -/
def text (i : Int64) : String := toString i.toInt

end FlatScript.Integer
