import FlatScript.Integer.Numeral

/-!
# What a numeral stands for

`Numeral cs v` says by itself, without the reader, that the characters `cs` spell the integer `v`:
one or more ASCII digits behind at most one sign, with the decimal value of the digits.

* `read?_eq_some_iff`: the reader answers exactly the integers of 64 bits that a text spells;
* `read?_text`: it undoes the writing of every such integer.
-/

namespace FlatScript.Integer

/-- `Numeral cs v`: the characters spell the integer `v`, however large. -/
inductive Numeral : List Char → Int → Prop
  | plain {ds : List Char} : ds ≠ [] → (∀ c ∈ ds, c.isDigit = true) →
      Numeral ds (Nat.ofDigitChars 10 ds 0)
  | plus {ds : List Char} : ds ≠ [] → (∀ c ∈ ds, c.isDigit = true) →
      Numeral ('+' :: ds) (Nat.ofDigitChars 10 ds 0)
  | minus {ds : List Char} : ds ≠ [] → (∀ c ∈ ds, c.isDigit = true) →
      Numeral ('-' :: ds) (-(Nat.ofDigitChars 10 ds 0 : Int))

/-! ## Reading -/

theorem digitsValue_eq (cs : List Char) : digitsValue cs = Nat.ofDigitChars 10 cs 0 :=
  Nat.ofDigitChars_eq_foldl.symm

theorem unsigned?_eq_some_iff {cs : List Char} {n : Nat} :
    unsigned? cs = some n ↔
      cs ≠ [] ∧ (∀ c ∈ cs, c.isDigit = true) ∧ Nat.ofDigitChars 10 cs 0 = n := by
  rw [unsigned?, digitsValue_eq, ← List.all_eq_true]
  split
  · next h =>
      rw [Option.some.injEq]
      exact ⟨fun hn => ⟨h.1, h.2, hn⟩, fun hn => hn.2.2⟩
  · next h =>
      constructor
      · intro hn
        exact absurd hn (by simp)
      · rintro ⟨hne, hall, -⟩
        exact absurd ⟨hne, hall⟩ h

/-- A text of digits does not begin with a sign, so at most one reading applies. -/
theorem signed?_of_digits {ds : List Char} (h : ∀ c ∈ ds, c.isDigit = true) :
    signed? ds = (unsigned? ds).map Int.ofNat := by
  cases ds with
  | nil => rfl
  | cons d ds =>
      have hd : d.isDigit = true := h d List.mem_cons_self
      have hminus : d ≠ '-' := by rintro rfl; exact absurd hd (by decide)
      have hplus : d ≠ '+' := by rintro rfl; exact absurd hd (by decide)
      rw [signed?]
      · intro cs hcs; exact hminus (List.cons.inj hcs).1
      · intro cs hcs; exact hplus (List.cons.inj hcs).1

theorem signed?_minus (cs : List Char) :
    signed? ('-' :: cs) = (unsigned? cs).map fun n : Nat => -(n : Int) := by
  rw [signed?]
  cases unsigned? cs with
  | none => rfl
  | some n => rfl

theorem signed?_eq_some_iff {cs : List Char} {v : Int} :
    signed? cs = some v ↔ Numeral cs v := by
  constructor
  · intro h
    rw [signed?.eq_def] at h
    split at h
    · next ds =>
        replace h : signed? ('-' :: ds) = some v := h
        rw [signed?_minus] at h
        obtain ⟨n, hn, rfl⟩ := Option.map_eq_some_iff.mp h
        obtain ⟨hne, hall, rfl⟩ := unsigned?_eq_some_iff.mp hn
        exact .minus hne hall
    · obtain ⟨n, hn, rfl⟩ := Option.map_eq_some_iff.mp h
      obtain ⟨hne, hall, rfl⟩ := unsigned?_eq_some_iff.mp hn
      exact .plus hne hall
    · obtain ⟨n, hn, rfl⟩ := Option.map_eq_some_iff.mp h
      obtain ⟨hne, hall, rfl⟩ := unsigned?_eq_some_iff.mp hn
      exact .plain hne hall
  · intro h
    cases h with
    | plain hne hall =>
        rw [signed?_of_digits hall, unsigned?_eq_some_iff.mpr ⟨hne, hall, rfl⟩]
        rfl
    | plus hne hall =>
        rw [signed?, unsigned?_eq_some_iff.mpr ⟨hne, hall, rfl⟩]
        rfl
    | minus hne hall =>
        rw [signed?_minus, unsigned?_eq_some_iff.mpr ⟨hne, hall, rfl⟩]
        rfl

/-- The reader answers the 64-bit integer that a text spells, and nothing else. -/
theorem read?_eq_some_iff {s : String} {n : Int64} :
    read? s = some n ↔ Numeral s.toList n.toInt := by
  rw [read?, Option.bind_eq_some_iff]
  constructor
  · rintro ⟨v, hv, hn⟩
    rw [ofInt?_eq_some_iff] at hn
    exact signed?_eq_some_iff.mp (hn ▸ hv)
  · intro h
    exact ⟨n.toInt, signed?_eq_some_iff.mpr h, ofInt?_eq_some_iff.mpr rfl⟩

/-! ## Writing -/

theorem digits_toDigits (m : Nat) : ∀ c ∈ Nat.toDigits 10 m, c.isDigit = true :=
  fun _ hc => Nat.isDigit_of_mem_toDigits (by decide) (by decide) hc

theorem toList_toString_ofNat (m : Nat) :
    (toString (Int.ofNat m)).toList = Nat.toDigits 10 m :=
  Nat.toList_repr

theorem toList_toString_negSucc (m : Nat) :
    (toString (Int.negSucc m)).toList = '-' :: Nat.toDigits 10 (m + 1) := by
  rw [← Nat.toList_repr]
  show ("-" ++ (m + 1).repr).toList = '-' :: (m + 1).repr.toList
  rw [String.toList_append]
  rfl

/-- What is written spells what was to be written. -/
theorem numeral_text (n : Int64) : Numeral (text n).toList n.toInt := by
  rw [text]
  cases n.toInt with
  | ofNat m =>
      have h := Numeral.plain Nat.toDigits_ne_nil (digits_toDigits m)
      rwa [Nat.ofDigitChars_ten_toDigits, ← toList_toString_ofNat] at h
  | negSucc m =>
      have h := Numeral.minus Nat.toDigits_ne_nil (digits_toDigits (m + 1))
      rwa [Nat.ofDigitChars_ten_toDigits, ← toList_toString_negSucc] at h

theorem read?_text (n : Int64) : read? (text n) = some n :=
  read?_eq_some_iff.mpr (numeral_text n)

/-- The digits of a number spell no other integer. -/
theorem eq_of_numeral_toString {m : Nat} {v : Int} (h : Numeral (toString m).toList v) : v = m := by
  have hm : Numeral (toString m).toList m := by
    have h := Numeral.plain Nat.toDigits_ne_nil (digits_toDigits m)
    rwa [Nat.ofDigitChars_ten_toDigits, ← toList_toString_ofNat] at h
  rw [← signed?_eq_some_iff] at h hm
  exact Option.some.inj (h.symm.trans hm)

end FlatScript.Integer
