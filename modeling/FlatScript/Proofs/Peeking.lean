import FlatScript.Proofs.Walk

/-!
# Looking at a token and reading it

A rule that stops where it sees a token relies on being able to read that token.  The two are
separate tests.  A keyword is seen by the comparison by which it is read.  A mark is seen by the
number of bytes of the token's text and by its first character, but it is read by comparing the
whole text.

The two tests agree on a mark of a single byte, whatever the tokens are (`Token.isMark_iff`).  They
do not agree on a longer one: a token whose text is the mark is read, and it is never seen
(`Token.isMark_iff_isExactly`).  The closing brace, where the loop of a block stops, is a single
byte.

Main statement, `Cursor.seen_iff_read`.
-/

namespace FlatScript

/-- No token is seen as a mark of more than one byte. -/
theorem Token.isMark_iff_isExactly {t : Token} {mark : Char} :
    t.isMark mark = true ↔
      mark.utf8Size = 1 ∧ t.isExactly .punctuation (String.singleton mark) = true := by
  suffices h : t.isMark mark = true → mark.utf8Size = 1 by
    constructor
    · intro hmark
      exact ⟨h hmark, isExactly_iff.mpr ((isMark_iff (h hmark)).mp hmark)⟩
    · rintro ⟨hsize, hexactly⟩
      exact (isMark_iff hsize).mpr (isExactly_iff.mp hexactly)
  intro hmark
  rw [isMark, Bool.and_eq_true, Bool.and_eq_true, beq_iff_eq, beq_iff_eq, beq_iff_eq,
    Text.utf8ByteSize_eq] at hmark
  obtain ⟨⟨-, hbytes⟩, hhead⟩ := hmark
  obtain ⟨cs, hcs⟩ := List.head?_eq_some_iff.mp hhead
  have hpos := mark.utf8Size_pos
  rw [hcs, Text.byteLength_cons] at hbytes
  omega

namespace Cursor

variable {c : Cursor} {accepts : Token → Bool} {expected : Expected}

theorem exists_readIf_eq_ok_iff :
    (∃ r, c.readIf accepts expected = .ok r) ↔ c.current.any accepts = true := by
  obtain ⟨rest, finish⟩ := c
  cases rest with
  | nil =>
      refine iff_of_false ?_ Bool.false_ne_true
      rintro ⟨_, ⟨⟩⟩
  | cons t rest =>
      rw [current_cons, Option.any_some, readIf, readIf?_cons]
      cases accepts t with
      | true => exact iff_of_true ⟨_, rfl⟩ rfl
      | false =>
          refine iff_of_false ?_ Bool.false_ne_true
          rintro ⟨_, ⟨⟩⟩

/-- A keyword is seen where it can be read. -/
theorem checkKeyword_iff_expect {k : Keyword} :
    c.checkKeyword k = true ↔ ∃ r, c.expect .keyword k.word = .ok r :=
  exists_readIf_eq_ok_iff.symm

/-- A mark is seen where it can be read, if it is a single byte. -/
theorem checkMark_iff_expectMark {mark : Char} :
    c.checkMark mark = true ↔ mark.utf8Size = 1 ∧ ∃ r, c.expectMark mark = .ok r := by
  rw [expectMark, expect, exists_readIf_eq_ok_iff, checkMark]
  cases c.current with
  | none => exact iff_of_false Bool.false_ne_true fun h => Bool.false_ne_true h.2
  | some t => exact Token.isMark_iff_isExactly

/-- The loop of a block that stops at a closing brace reads it. -/
theorem checkMark_iff_blockRest :
    c.checkMark '\x7d' = true ↔
      ∃ stop, c.expectMark '\x7d' = .ok stop ∧ c.blockRest = .ok ⟨[], stop.next, stop.shorter⟩ := by
  constructor
  · intro hseen
    obtain ⟨-, stop, hstop⟩ := checkMark_iff_expectMark.mp hseen
    refine ⟨stop, hstop, ?_⟩
    rw [blockRest, hseen, Bool.or_true, if_pos rfl, hstop]
    rfl
  · rintro ⟨stop, hstop, -⟩
    exact checkMark_iff_expectMark.mpr ⟨rfl, stop, hstop⟩

/-- At every place of every list of tokens, a keyword is seen exactly if it can be read, and a mark
is seen exactly if it can be read and is a single byte.  So looking and reading disagree exactly
where a longer mark can be read.  The loop of a block sees the closing brace exactly where it can
stop and read it. -/
theorem seen_iff_read (ts : List Token) (i : Nat) :
    (∀ k : Keyword, (before ts i).checkKeyword k = true ↔
        ∃ r, (before ts i).expect .keyword k.word = .ok r) ∧
      (∀ mark : Char, (before ts i).checkMark mark = true ↔
        mark.utf8Size = 1 ∧ ∃ r, (before ts i).expectMark mark = .ok r) ∧
      (∀ mark : Char,
        ((before ts i).checkMark mark = true ↔ ∃ r, (before ts i).expectMark mark = .ok r) ↔
          ((∃ r, (before ts i).expectMark mark = .ok r) → mark.utf8Size = 1)) ∧
      ((before ts i).checkMark '\x7d' = true ↔
        ∃ stop, (before ts i).expectMark '\x7d' = .ok stop ∧
          (before ts i).blockRest = .ok ⟨[], stop.next, stop.shorter⟩) := by
  refine ⟨fun _ => checkKeyword_iff_expect, fun _ => checkMark_iff_expectMark, fun mark => ?_,
    checkMark_iff_blockRest⟩
  rw [checkMark_iff_expectMark]
  exact and_iff_right_iff_imp

/-- The mark `é` has two bytes. -/
example : let c := before [⟨.punctuation, "é", .origin⟩] 0
    c.checkMark 'é' = false ∧ ∃ r, c.expectMark 'é' = .ok r :=
  ⟨by decide, _, rfl⟩

end Cursor

end FlatScript
