/-!
# Byte lengths and byte offsets of a text

Positions in a source are offsets in its UTF-8 encoding, while columns and carets count
characters.  A text is handled here as its list of characters; `charIndex?` carries a byte
offset over to the characters, and answers `none` exactly when the offset falls inside a
character or past the end.
-/

namespace FlatScript.Text

/-- The number of bytes that the characters take in UTF-8. -/
def byteLength (cs : List Char) : Nat := cs.foldr (fun c n => c.utf8Size + n) 0

@[simp] theorem byteLength_nil : byteLength [] = 0 := rfl

@[simp] theorem byteLength_cons (c : Char) (cs : List Char) :
    byteLength (c :: cs) = c.utf8Size + byteLength cs := rfl

@[simp] theorem byteLength_append (cs ds : List Char) :
    byteLength (cs ++ ds) = byteLength cs + byteLength ds := by
  induction cs with
  | nil => simp
  | cons c cs ih => simp [ih, Nat.add_assoc]

/-! ## From bytes to characters -/

/-- Walks over characters until `offset` bytes are used up, with `seen` characters behind. -/
def charIndexFrom (seen : Nat) : List Char → Nat → Option Nat
  | _, 0 => some seen
  | [], _ + 1 => none
  | c :: cs, offset + 1 =>
    if c.utf8Size ≤ offset + 1 then charIndexFrom (seen + 1) cs (offset + 1 - c.utf8Size)
    else none

/-- How many characters end at or before byte `offset`, if a character boundary is there. -/
def charIndex? (cs : List Char) (offset : Nat) : Option Nat := charIndexFrom 0 cs offset

/-- The characters between two byte offsets, if both lie on boundaries and are in order. -/
def slice? (cs : List Char) (start stop : Nat) : Option (List Char) := do
  guard (start ≤ stop)
  let i ← charIndex? cs start
  let j ← charIndex? cs stop
  return (cs.take j).drop i

theorem charIndexFrom_eq (seen : Nat) (cs : List Char) (offset : Nat) :
    charIndexFrom seen cs offset = (charIndex? cs offset).map (seen + ·) := by
  unfold charIndex?
  induction cs generalizing seen offset with
  | nil => cases offset <;> simp [charIndexFrom]
  | cons c cs ih =>
    cases offset with
    | zero => simp [charIndexFrom]
    | succ n =>
      simp only [charIndexFrom]
      split
      · rw [ih (seen + 1), ih (0 + 1)]
        cases charIndexFrom 0 cs (n + 1 - c.utf8Size) <;> simp [Nat.add_assoc]
      · rfl

/-- The end of any initial part is a boundary, and the index there is that part's length. -/
theorem charIndex?_append (cs ds : List Char) :
    charIndex? (cs ++ ds) (byteLength cs) = some cs.length := by
  induction cs with
  | nil => cases ds <;> simp [charIndex?, charIndexFrom]
  | cons c cs ih =>
    have hc := c.utf8Size_pos
    obtain ⟨n, hn⟩ : ∃ n, byteLength (c :: cs) = n + 1 :=
      ⟨c.utf8Size + byteLength cs - 1, by rw [byteLength_cons]; omega⟩
    have hle : c.utf8Size ≤ n + 1 := by rw [← hn, byteLength_cons]; omega
    have hrest : n + 1 - c.utf8Size = byteLength cs := by rw [← hn, byteLength_cons]; omega
    rw [charIndex?, hn, List.cons_append, charIndexFrom, if_pos hle, hrest, charIndexFrom_eq, ih]
    simp [Nat.add_comm]

end FlatScript.Text
