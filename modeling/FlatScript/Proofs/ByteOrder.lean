import FlatScript.Proofs.Utf8
import Mathlib.Algebra.Group.Nat.Defs
import Mathlib.Order.Monotone.Basic

/-!
# The order of texts and the order of their bytes

Texts are compared by the code points of their characters.  This is also the order of their bytes,
since UTF-8 was made so: the first byte of a character grows with its code point, and of characters
with the same first byte the bytes that follow hold the remaining bits, the leading ones first.

So the bytes of two characters part at a byte that both have (`parts_utf8EncodeChar`), and neither is
the beginning of the other.  Whatever follows two characters, they decide the order, and for texts it
is the first two that differ (`bytes_lt`).
-/

namespace FlatScript.Text

/-! ## Lists of bytes that part -/

/-- Up to some byte the lists are the same, and there the first one is below the second. -/
inductive Parts : List UInt8 → List UInt8 → Prop
  | here {a b : UInt8} (as bs : List UInt8) : a < b → Parts (a :: as) (b :: bs)
  | later {as bs : List UInt8} (a : UInt8) : Parts as bs → Parts (a :: as) (a :: bs)

/-- Whatever is put behind them, the lists are in order. -/
theorem Parts.append_lt {as bs : List UInt8} (h : Parts as bs) (xs ys : List UInt8) :
    as ++ xs < bs ++ ys := by
  induction h with
  | here as bs hlt => exact List.cons_lt_cons_iff.mpr (.inl hlt)
  | later a _ ih => exact List.cons_lt_cons_iff.mpr (.inr ⟨rfl, ih⟩)

/-! ## The bytes of one character -/

/-- How many bytes follow the first one of a code point. -/
def followers (v : Nat) : Nat :=
  if v ≤ 0x7f then 0 else if v ≤ 0x7ff then 1 else if v ≤ 0xffff then 2 else 3

/-- The lower bound of the first bytes that this many bytes follow. -/
def marker : Nat → Nat
  | 0 => 0
  | 1 => 0xc0
  | 2 => 0xe0
  | 3 => 0xf0
  | _ => 0xf8

/-- The first byte, with the leading bits above the marker. -/
def lead (v : Nat) : Nat := v / 64 ^ followers v + marker (followers v)

/-- The bytes that follow: the last `6 * n` bits, six in each byte. -/
def trail (v : Nat) : Nat → List UInt8
  | 0 => []
  | n + 1 => UInt8.ofNat (v / 64 ^ n % 64 + 0x80) :: trail v n

theorem toNat_lt (c : Char) : c.toNat < 0x110000 := by
  rcases c.valid with h | ⟨-, h⟩
  · exact Nat.lt_trans h (by decide)
  · exact h

theorem utf8EncodeChar_eq (c : Char) :
    String.utf8EncodeChar c = UInt8.ofNat (lead c.toNat) :: trail c.toNat (followers c.toNat) := by
  have hc := toNat_lt c
  rw [String.utf8EncodeChar, Char.toNat_val, lead, followers]
  split
  · simp [trail, marker]
  · split
    · have htop : c.toNat / 0x40 % 32 = c.toNat / 0x40 := by omega
      simp [trail, marker, htop]
    · split
      · have htop : c.toNat / 0x1000 % 16 = c.toNat / 0x1000 := by omega
        simp [trail, marker, htop]
      · have htop : c.toNat / 0x40000 % 8 = c.toNat / 0x40000 := by omega
        simp [trail, marker, htop]

/-! ## The order of two characters -/

section Order

variable {v w n : Nat}

theorem followers_le (h : v ≤ w) : followers v ≤ followers w := by
  grind [followers]

theorem followers_le_three (v : Nat) : followers v ≤ 3 := by
  grind [followers]

theorem marker_mono : Monotone marker := by
  refine monotone_nat_of_le_succ fun n => ?_
  match n with
  | 0 | 1 | 2 | 3 => decide
  | _ + 4 => exact Nat.le_refl _

/-- A first byte stays below the next marker. -/
theorem lead_lt_marker (h : v < 0x110000) : lead v < marker (followers v + 1) := by
  rw [lead, followers]
  split
  · show v / 1 + 0 < 0xc0
    omega
  · split
    · show v / 0x40 + 0xc0 < 0xe0
      omega
    · split
      · show v / 0x1000 + 0xe0 < 0xf0
        omega
      · show v / 0x40000 + 0xf0 < 0xf8
        omega

theorem lead_lt (h : v < 0x110000) : lead v < 256 :=
  calc lead v < marker (followers v + 1) := lead_lt_marker h
    _ ≤ marker 4 := marker_mono (Nat.succ_le_succ (followers_le_three v))
    _ < 256 := by decide

/-- The first byte grows with the code point, unless the number of bytes and the leading bits are
the same. -/
theorem lead_lt_or (hlt : v < w) (hw : w < 0x110000) : lead v < lead w ∨
    followers v = followers w ∧ v / 64 ^ followers w = w / 64 ^ followers w := by
  rcases Nat.lt_or_eq_of_le (followers_le (Nat.le_of_lt hlt)) with hfew | hfew
  · refine .inl ?_
    calc lead v < marker (followers v + 1) := lead_lt_marker (Nat.lt_trans hlt hw)
      _ ≤ marker (followers w) := marker_mono hfew
      _ ≤ lead w := Nat.le_add_left _ _
  · rw [lead, lead, hfew]
    have hle : v / 64 ^ followers w ≤ w / 64 ^ followers w :=
      Nat.div_le_div_right (Nat.le_of_lt hlt)
    exact (Nat.lt_or_eq_of_le hle).imp (Nat.add_lt_add_right · _) fun htop => ⟨rfl, htop⟩

theorem ofNat_lt_ofNat (h : v < w) (hw : w < 256) : UInt8.ofNat v < UInt8.ofNat w := by
  rw [UInt8.lt_iff_toNat_lt, UInt8.toNat_ofNat', UInt8.toNat_ofNat',
    Nat.mod_eq_of_lt (Nat.lt_trans h hw), Nat.mod_eq_of_lt hw]
  exact h

/-- Where the leading bits are the same, the bytes that follow part. -/
theorem parts_trail (hlt : v < w) (h : v / 64 ^ n = w / 64 ^ n) :
    Parts (trail v n) (trail w n) := by
  induction n with
  | zero =>
      rw [Nat.pow_zero, Nat.div_one, Nat.div_one] at h
      exact absurd h (Nat.ne_of_lt hlt)
  | succ n ih =>
      rw [trail, trail]
      have hle : v / 64 ^ n ≤ w / 64 ^ n := Nat.div_le_div_right (Nat.le_of_lt hlt)
      rcases Nat.eq_or_lt_of_le hle with heq | hlt'
      · rw [heq]
        exact .later _ (ih heq)
      · rw [Nat.pow_succ, ← Nat.div_div_eq_div_mul, ← Nat.div_div_eq_div_mul] at h
        exact .here _ _ (ofNat_lt_ofNat (by omega) (by omega))

end Order

/-- The bytes of two characters part. -/
theorem parts_utf8EncodeChar {c d : Char} (h : c < d) :
    Parts (String.utf8EncodeChar c) (String.utf8EncodeChar d) := by
  have hlt : c.toNat < d.toNat := h
  have hd := toNat_lt d
  rw [utf8EncodeChar_eq, utf8EncodeChar_eq]
  rcases lead_lt_or hlt hd with hlead | ⟨hfew, htop⟩
  · exact .here _ _ (ofNat_lt_ofNat hlead (lead_lt hd))
  · rw [lead, lead, hfew, htop]
    exact .later _ (parts_trail hlt htop)

/-! ## The order of two texts -/

theorem encode_lt {cs ds : List Char} (h : cs < ds) : encode cs < encode ds := by
  induction cs generalizing ds with
  | nil =>
      cases ds with
      | nil => exact absurd h (List.lt_irrefl _)
      | cons d ds =>
          obtain ⟨b, bs, hb, -⟩ := exists_lead d
          rw [encode_cons, hb]
          exact List.nil_lt_cons b _
  | cons c cs ih =>
      cases ds with
      | nil => exact absurd h (List.not_lt_nil _)
      | cons d ds =>
          rw [encode_cons, encode_cons]
          rcases List.cons_lt_cons_iff.mp h with hlt | ⟨rfl, hrest⟩
          · exact (parts_utf8EncodeChar hlt).append_lt _ _
          · exact List.append_left_lt (ih hrest)

/-- Texts in order have their bytes in order. -/
theorem bytes_lt {s t : String} (h : s < t) : bytes s < bytes t := by
  rw [bytes_eq, bytes_eq]
  exact encode_lt (String.lt_iff.mp h)

end FlatScript.Text
