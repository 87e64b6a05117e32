import FlatScript.Program.Layout
import FlatScript.Proofs.Faults
import FlatScript.Proofs.Hints
import FlatScript.Proofs.Progress

/-!
# Numbers as operands

Where an operand is awaited, a number token is a literal exactly if its text spells an integer of
64 bits, and it is that integer; with any other text the reader stops at the token.  The bounds are
those of `Integer.InRange`, and nothing wraps on the way to them: `Integer.Spells` is about the
decimal value of the digits, however many there are.

At one operand this is a matter of one test.  For a whole list of tokens, an operand is awaited
behind the tokens that a `0` may follow (`AwaitsOperand`).  What is pending there wants an operand
(`wants_operand_of_step`), so the machine refuses a number only for its text.

Main statement, `literals_exact`.
-/

namespace FlatScript

open Cursor (before)
open Grammar Pending

/-! ## Texts of integers -/

namespace Integer

/-- The text is one or more ASCII digits behind at most one sign, and its value is `v`, an integer
of 64 bits. -/
def Spells (s : String) (v : Int) : Prop := Numeral s.toList v ∧ InRange v

theorem spells_iff {s : String} {v : Int} : Spells s v ↔ ∃ n, read? s = some n ∧ n.toInt = v := by
  constructor
  · rintro ⟨hnumeral, hrange⟩
    obtain ⟨n, hn⟩ : ∃ n, ofInt? v = some n := by
      refine Option.ne_none_iff_exists'.mp fun hnone => ?_
      exact ofInt?_eq_none_iff_not_inRange.mp hnone hrange
    obtain rfl := ofInt?_eq_some_iff.mp hn
    exact ⟨n, read?_eq_some_iff.mpr hnumeral, rfl⟩
  · rintro ⟨n, hn, rfl⟩
    exact ⟨read?_eq_some_iff.mp hn, inRange_toInt n⟩

theorem exists_spells_iff {s : String} : (∃ v, Spells s v) ↔ (read? s).isSome = true := by
  rw [Option.isSome_iff_exists]
  constructor
  · rintro ⟨v, hv⟩
    obtain ⟨n, hn, -⟩ := spells_iff.mp hv
    exact ⟨n, hn⟩
  · rintro ⟨n, hn⟩
    exact ⟨n.toInt, spells_iff.mpr ⟨n, hn, rfl⟩⟩

theorem read?_eq_none {s : String} (h : ¬ ∃ v, Spells s v) : read? s = none := by
  rw [exists_spells_iff] at h
  exact Option.not_isSome_iff_eq_none.mp h

end Integer

open Integer (Spells)

/-! ## One operand -/

section Operand

variable {ts : List Token} {p : Progress} {t : Token}

theorem Cursor.readIf?_before (ht : ts[p.index]? = some t) (hk : t.kind = .number) :
    ∃ r, (before ts p.index).readIf? (·.kind == .number) = some r ∧ r.value = t := by
  rw [before_of_getElem? ht]
  exact ⟨_, if_pos (beq_iff_eq.mpr hk), rfl⟩

theorem Cursor.operand_of_read?_eq_some {n : Int64} (ht : ts[p.index]? = some t)
    (hk : t.kind = .number) (hn : Integer.read? t.text = some n) :
    ∃ r, (before ts p.index).operand = .ok r ∧ r.value = .literal n := by
  obtain ⟨r, hr, rfl⟩ := readIf?_before ht hk
  rw [operand, hr]
  dsimp only
  rw [hn]
  exact ⟨_, rfl, rfl⟩

theorem Cursor.operand_of_read?_eq_none (ht : ts[p.index]? = some t) (hk : t.kind = .number)
    (hn : Integer.read? t.text = none) :
    (before ts p.index).operand = .error (.literalOutOfRange t) := by
  obtain ⟨r, hr, rfl⟩ := readIf?_before ht hk
  rw [operand, hr]
  dsimp only
  rw [hn]

/-- A number is read as the literal that its text spells. -/
theorem Cursor.operand_eq_literal_iff (ht : ts[p.index]? = some t) (hk : t.kind = .number)
    {n : Int64} : (∃ r, (before ts p.index).operand = .ok r ∧ r.value = .literal n) ↔
      Integer.read? t.text = some n := by
  constructor
  · rintro ⟨r, hr, hv⟩
    cases hn : Integer.read? t.text with
    | none =>
        rw [operand_of_read?_eq_none ht hk hn] at hr
        cases hr
    | some m =>
        obtain ⟨s, hs, hm⟩ := operand_of_read?_eq_some ht hk hn
        cases hs.symm.trans hr
        cases hm.symm.trans hv
        rfl
  · exact operand_of_read?_eq_some ht hk

/-- A number that is refused is looked at and not read. -/
theorem Walk.operand_of_read?_eq_none (ht : ts[p.index]? = some t) (hk : t.kind = .number)
    (hn : Integer.read? t.text = none) :
    operand ts p = some (.error (.literalOutOfRange t), p) := by
  refine (bind_of_ok rfl).trans ?_
  rw [Cursor.before_of_getElem? ht, Cursor.current_cons]
  dsimp only
  rw [hk, if_pos (beq_self_eq_true _), hn]
  rfl

end Operand

/-! ## Operands that are awaited -/

namespace Grammar.Pending

variable {k k' : Pending} {t : Token}

theorem begin_number (ht : t.kind = .number) : begin t k ≠ .ok k' :=
  begin_ne_ok (by rw [ht]; decide) (by rw [ht]; decide)

theorem isArithmetic_number (ht : t.kind = .number) : isArithmetic t = false :=
  isArithmetic_eq_false (by rw [ht]; decide)

/-- Only an operand takes a number. -/
theorem wants_operand_of_step (ht : t.kind = .number) :
    ∀ {k k' : Pending}, Quotable k → step k t = .ok k' → Wants k .operand
  | [], _, _, h => absurd h (begin_number ht)
  | .statement :: _, _, _, h => absurd h (begin_number ht)
  | .body :: _, _, _, h => by
      rw [step] at h
      split at h
      · next hclose =>
          have hs := (Token.isMark_iff (by decide)).mp hclose
          cases ht.symm.trans (Prod.mk.inj hs).1
      · exact absurd h (begin_number ht)
  | .token kind text :: _, _, hk, h => by
      have hs := Token.isExactly_iff.mp (need_eq_ok_iff.mp h).1
      have hmem : t.shape ∈ quotable := hs ▸ List.contains_iff_mem.mp (quotable_cons.mp hk).1
      have hkinds : ∀ s ∈ quotable, s.1 ≠ .number := by decide
      exact absurd ht (hkinds _ hmem)
  | .name :: _, _, _, h => by
      have hs := eq_of_beq (need_eq_ok_iff.mp h).1
      cases ht.symm.trans hs
  | .operand :: _, _, _, _ => .operand
  | .more :: k, _, hk, h => by
      rw [step, isArithmetic_number ht] at h
      exact .more (wants_operand_of_step ht hk.tail h)

/-- Where an operand is wanted, a number is refused only for its text. -/
theorem step_of_read?_eq_none (ht : t.kind = .number) (hn : Integer.read? t.text = none) :
    ∀ {k : Pending}, Wants k .operand → step k t = .error (.literalOutOfRange t)
  | .operand :: _, _ => by
      rw [step, ht, hn]
      rfl
  | .more :: k, .more h => by
      rw [step, isArithmetic_number ht]
      exact step_of_read?_eq_none ht hn h

end Grammar.Pending

namespace Program

/-- Behind these tokens an operand may stand, and a number can be one. -/
def AwaitsOperand (us : List Token) : Prop := Viable (us ++ [⟨.number, "0", .origin⟩])

variable {us : List Token} {t : Token}

theorem AwaitsOperand.exists_wants (h : AwaitsOperand us) :
    ∃ k, advance [] us = .ok k ∧ Wants k .operand := by
  obtain ⟨k', hk'⟩ := viable_iff.mp h
  rw [advance_append] at hk'
  obtain ⟨k, hk, hstep⟩ := bind_eq_ok_iff.mp hk'
  obtain ⟨k₁, hstep, -⟩ := bind_eq_ok_iff.mp hstep
  exact ⟨k, hk, wants_operand_of_step rfl (quotable_nil.advance hk) hstep⟩

theorem AwaitsOperand.viable_iff (h : AwaitsOperand us) (ht : t.kind = .number) :
    Viable (us ++ [t]) ↔ ∃ v, Spells t.text v := by
  obtain ⟨k, hk, hwants⟩ := h.exists_wants
  rw [viable_concat_iff hk, Integer.exists_spells_iff]
  constructor
  · rintro ⟨k', hstep⟩
    refine Option.isSome_iff_ne_none.mpr fun hn => ?_
    rw [step_of_read?_eq_none ht hn hwants] at hstep
    cases hstep
  · intro hn
    exact hwants.exists_step (.inr ⟨ht, hn⟩)

/-- A number that spells no integer ends the reading of the whole list. -/
theorem AwaitsOperand.ofTokens_eq (h : AwaitsOperand us) (ht : t.kind = .number)
    (hn : Integer.read? t.text = none) (rest : List Token) :
    ofTokens (us ++ t :: rest) = .error (.literalOutOfRange t) := by
  obtain ⟨k, hk, hwants⟩ := h.exists_wants
  exact ofTokens_of_step hk (step_of_read?_eq_none ht hn hwants) rest

/-- A number at which an operand is read is a literal of value `v` exactly if its text spells `v`,
and otherwise an error that carries the number, with the cursor left before it.  The same holds
where an operand is awaited in a list: the number can stand there exactly if it spells an integer,
and otherwise the reading of the list ends with that error, whatever follows.  The text that is
written for a literal reads as the literal again. -/
theorem literals_exact :
    (∀ (ts : List Token) (p : Progress) (t : Token), ts[p.index]? = some t → t.kind = .number →
      ∃ q, Walk.Ends ts (Walk.operand ts) (before ts p.index).operand p q ∧
        (∀ v, (∃ r n, (before ts p.index).operand = .ok r ∧ r.value = .literal n ∧ n.toInt = v) ↔
          Spells t.text v) ∧
        ((¬ ∃ v, Spells t.text v) →
          (before ts p.index).operand = .error (.literalOutOfRange t) ∧ q = p)) ∧
      (∀ t : Token, (ParseError.literalOutOfRange t).found = .token t.kind t.text ∧
        (ParseError.literalOutOfRange t).span = t.span) ∧
      (∀ (us : List Token) (t : Token), AwaitsOperand us → t.kind = .number →
        (Viable (us ++ [t]) ↔ ∃ v, Spells t.text v) ∧
        ((¬ ∃ v, Spells t.text v) → ∀ rest, ∃ q,
          ofTokens (us ++ t :: rest) = .error (.literalOutOfRange t) ∧
          Walk.statements (us ++ t :: rest) ⟨0, 0⟩ = some (.error (.literalOutOfRange t), q) ∧
          (us ++ t :: rest)[q.index]? = some t)) ∧
      ∀ (ts : List Token) (i : Nat) (n : Int64) (span : Span),
        ts[i]? = some ⟨.number, (Expr.literal n).text, span⟩ →
          ∃ r, (before ts i).operand = .ok r ∧ r.value = .literal n := by
  refine ⟨fun ts p t ht hk => ?_, fun t => ⟨rfl, rfl⟩, fun us t hus hk => ?_,
    fun ts i n span ht => ?_⟩
  · have hlt := (List.getElem?_eq_some_iff.mp ht).1
    obtain ⟨q, hq, -⟩ := Walk.quiet_operand rfl (Nat.le_of_lt hlt)
    refine ⟨q, hq, fun v => ?_, fun hno => ?_⟩
    · rw [Integer.spells_iff]
      constructor
      · rintro ⟨r, n, hr, hv, rfl⟩
        exact ⟨n, (Cursor.operand_eq_literal_iff ht hk).mp ⟨r, hr, hv⟩, rfl⟩
      · rintro ⟨n, hn, rfl⟩
        obtain ⟨r, hr, hv⟩ := (Cursor.operand_eq_literal_iff ht hk).mpr hn
        exact ⟨r, n, hr, hv, rfl⟩
    · have hn := Integer.read?_eq_none hno
      have hrun := hq.run.symm.trans (Walk.operand_of_read?_eq_none ht hk hn)
      exact ⟨Cursor.operand_of_read?_eq_none ht hk hn, (Prod.mk.inj (Option.some.inj hrun)).2⟩
  · refine ⟨hus.viable_iff hk, fun hno rest => ?_⟩
    have hread := hus.ofTokens_eq hk (Integer.read?_eq_none hno) rest
    obtain ⟨q, hrun, hat, -⟩ := Walk.statements_ends (us ++ t :: rest) (p := ⟨0, 0⟩)
      (Cursor.before_zero _).symm (Nat.zero_le _) (Nat.le_refl _)
    replace hat := hat _ hread
    cases hat with
    | literal ht => exact ⟨q, hread, hread ▸ hrun, ht⟩
  · exact (Cursor.operand_eq_literal_iff (p := ⟨i, 0⟩) ht rfl).mpr (Integer.read?_text n)

/-- The least integer and, behind zeros and a sign, the one above the greatest. -/
theorem literals_exact_at_the_bounds :
    (∃ r n, (before [⟨.number, "-9223372036854775808", .origin⟩] 0).operand = .ok r ∧
        r.value = .literal n ∧ n.toInt = -9223372036854775808) ∧
      (before [⟨.number, "+009223372036854775808", .origin⟩] 0).operand
        = .error (.literalOutOfRange ⟨.number, "+009223372036854775808", .origin⟩) ∧
      ¬ Viable [⟨.keyword, "if", .origin⟩, ⟨.number, "+009223372036854775808", .origin⟩] := by
  have hleast : Spells "-9223372036854775808" (-9223372036854775808) :=
    Integer.spells_iff.mpr ⟨Int64.minValue, by decide, rfl⟩
  have habove : ¬ ∃ v, Spells "+009223372036854775808" v := by
    rw [Integer.exists_spells_iff]
    decide
  obtain ⟨q, -, hliteral, -⟩ := literals_exact.1 [⟨.number, "-9223372036854775808", .origin⟩]
    ⟨0, 0⟩ _ rfl rfl
  obtain ⟨q', -, -, herror⟩ := literals_exact.1 [⟨.number, "+009223372036854775808", .origin⟩]
    ⟨0, 0⟩ _ rfl rfl
  have hif : AwaitsOperand [⟨.keyword, "if", .origin⟩] := Program.viable_iff.mpr ⟨_, rfl⟩
  obtain ⟨hviable, -⟩ := literals_exact.2.2.1 _
    ⟨.number, "+009223372036854775808", .origin⟩ hif rfl
  exact ⟨(hliteral _).mpr hleast, (herror habove).1, mt hviable.mp habove⟩

end Program

end FlatScript
