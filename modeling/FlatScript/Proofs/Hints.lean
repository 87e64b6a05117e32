import FlatScript.Proofs.Lookahead

/-!
# What an error of reading asks for

An error of reading names what would have been accepted, as a text.  `Suggests` gives the tokens
that such a text stands for, by the text alone, and it is to be shown that each of them can follow
on what was read.

On the way from a pending item to the text, an error carries an `Expected`.

* What pending items want, they take (`Wants.exists_step`).
* An error asks for what the pending items want (`wants_of_step`, `wants_of_stop`).
* Only five particular tokens are ever pending, whatever the steps (`Quotable.step`); so the text of
  an expectation tells which one it is.

Main statement, `ofTokens_expected`.
-/

namespace FlatScript

open Grammar

/-! ## Hints -/

/-- The particular tokens that the grammar has a place for inside of a statement. -/
def quotable : List (TokenKind × String) :=
  [(.operator, "="), (.operator, "is"), (.punctuation, ";"), (.punctuation, "\x7b"),
    (.punctuation, "\x7d")]

/-- `Suggests hint t`: the token is one of those that the hint stands for. -/
inductive Suggests : String → Token → Prop
  | quoted {t : Token} : t.shape ∈ quotable → Suggests s!"`{t.text}`" t
  | identifier {t : Token} : t.kind = .identifier → Suggests "identifier" t
  | nameOperand {t : Token} : t.kind = .identifier → Suggests "number or identifier" t
  | numberOperand {t : Token} {n : Int64} : t.kind = .number →
      Integer.Numeral t.text.toList n.toInt → Suggests "number or identifier" t
  | semicolon {t : Token} : t.shape = (.punctuation, ";") → Suggests "statement" t
  | keyword {t : Token} (k : Keyword) : t.shape = (.keyword, k.word) → Suggests "statement" t
  | literal {t : Token} {n : Int64} : t.kind = .number →
      Integer.Numeral t.text.toList n.toInt → Suggests "integer literal in range" t

/-- What the error asks for. -/
def ParseError.wanted : ParseError → Expected
  | .unexpected expected _ _ => expected
  | .literalOutOfRange _ => .phrase "integer literal in range"

theorem ParseError.text_wanted (e : ParseError) : e.wanted.text = e.expected := by
  cases e <;> rfl

theorem Integer.isSome_read?_of_numeral {s : String} {n : Int64}
    (h : Numeral s.toList n.toInt) : (read? s).isSome = true := by
  rw [read?_eq_some_iff.mpr h]
  rfl

namespace Expected

/-- The tokens that an expectation is about; the one phrase in use is that of a literal. -/
def Admits : Expected → Token → Prop
  | exactly kind text, t => t.shape = (kind, text)
  | someToken kind, t => t.kind = kind
  | operand, t => t.kind = .identifier ∨ t.kind = .number ∧ (Integer.read? t.text).isSome = true
  | statement, t => t.shape = (.punctuation, ";") ∨ ∃ k : Keyword, t.shape = (.keyword, k.word)
  | phrase _, t => t.kind = .number ∧ (Integer.read? t.text).isSome = true

/-- What the reader asks for. -/
def asked : List Expected :=
  [statement, operand, someToken .identifier, phrase "integer literal in range"]
    ++ quotable.map fun s => exactly s.1 s.2

variable {ex ex' : Expected} {t : Token}

theorem exactly_mem_asked {s : TokenKind × String} (hs : s ∈ quotable) :
    exactly s.1 s.2 ∈ asked :=
  List.mem_append_right _ (List.mem_map_of_mem hs)

/-- Among what the reader asks for, the text settles the expectation. -/
theorem text_injective (hex : ex ∈ asked) (hex' : ex' ∈ asked) (h : ex.text = ex'.text) :
    ex = ex' := by
  have hall : ∀ ex ∈ asked, ∀ ex' ∈ asked, ex.text = ex'.text → ex = ex' := by decide
  exact hall ex hex ex' hex' h

theorem admits_of_suggests (hex : ex ∈ asked) (h : Suggests ex.text t) : ex.Admits t := by
  generalize htext : ex.text = hint at h
  cases h with
  | quoted hs =>
      obtain rfl : ex = exactly t.kind t.text :=
        text_injective hex (exactly_mem_asked hs) htext
      rfl
  | identifier hk =>
      obtain rfl : ex = someToken .identifier := text_injective hex (by decide) htext
      exact hk
  | nameOperand hk =>
      obtain rfl : ex = operand := text_injective hex (by decide) htext
      exact .inl hk
  | numberOperand hk hn =>
      obtain rfl : ex = operand := text_injective hex (by decide) htext
      exact .inr ⟨hk, Integer.isSome_read?_of_numeral hn⟩
  | semicolon hs =>
      obtain rfl : ex = statement := text_injective hex (by decide) htext
      exact .inl hs
  | keyword k hs =>
      obtain rfl : ex = statement := text_injective hex (by decide) htext
      exact .inr ⟨k, hs⟩
  | literal hk hn =>
      obtain rfl : ex = phrase "integer literal in range" :=
        text_injective hex (by decide) htext
      exact ⟨hk, Integer.isSome_read?_of_numeral hn⟩

/-- No hint of the reader is empty. -/
theorem exists_suggests (hex : ex ∈ asked) : ∃ t, Suggests ex.text t := by
  rcases List.mem_append.mp hex with hex | hex
  · simp only [List.mem_cons, List.not_mem_nil, or_false] at hex
    rcases hex with rfl | rfl | rfl | rfl
    · exact ⟨⟨.punctuation, ";", .origin⟩, .semicolon rfl⟩
    · exact ⟨⟨.identifier, "x", .origin⟩, .nameOperand rfl⟩
    · exact ⟨⟨.identifier, "x", .origin⟩, .identifier rfl⟩
    · exact ⟨⟨.number, "0", .origin⟩, .literal rfl (Integer.read?_eq_some_iff.mp rfl)⟩
  · obtain ⟨⟨kind, text⟩, hs, rfl⟩ := List.mem_map.mp hex
    exact ⟨⟨kind, text, .origin⟩, .quoted (t := ⟨kind, text, .origin⟩) hs⟩

end Expected

/-! ## What pending items want -/

namespace Grammar.Pending

open Expected

/-- `k.Wants ex`: what the innermost of the pending items may complain of. -/
inductive Wants : Pending → Expected → Prop
  | program : Wants [] statement
  | statement {k : Pending} : Wants (.statement :: k) statement
  | body {k : Pending} : Wants (.body :: k) statement
  | close {k : Pending} : Wants (.body :: k) (exactly .punctuation "\x7d")
  | token {kind : TokenKind} {text : String} {k : Pending} :
      Wants (.token kind text :: k) (exactly kind text)
  | name {k : Pending} : Wants (.name :: k) (someToken .identifier)
  | operand {k : Pending} : Wants (.operand :: k) operand
  | literal {k : Pending} : Wants (.operand :: k) (phrase "integer literal in range")
  /-- The optional operator complains of nothing. -/
  | more {k : Pending} {ex : Expected} : Wants k ex → Wants (.more :: k) ex

variable {k k' : Pending} {t : Token} {ex : Expected} {e : ParseError} {finish : Span}

theorem exists_begin (h : statement.Admits t) (k : Pending) : ∃ k', begin t k = .ok k' := by
  rcases h with h | ⟨kw, h⟩
  · exact ⟨_, begin_of_semicolon h⟩
  · exact ⟨_, begin_of_keyword h⟩

/-- What pending items want, they take. -/
theorem Wants.exists_step (h : Wants k ex) (ht : ex.Admits t) : ∃ k', step k t = .ok k' := by
  induction h with
  | program => exact exists_begin ht []
  | statement => exact exists_begin ht _
  | @body k =>
      rw [step]
      split
      · exact ⟨_, rfl⟩
      · exact exists_begin ht _
  | close =>
      have hclose : t.isMark '\x7d' = true := (Token.isMark_iff (by decide)).mpr ht
      rw [step, if_pos hclose]
      exact ⟨_, rfl⟩
  | token =>
      rw [step, need, if_pos (Token.isExactly_iff.mpr ht)]
      exact ⟨_, rfl⟩
  | name =>
      rw [step, need, if_pos (beq_iff_eq.mpr ht)]
      exact ⟨_, rfl⟩
  | operand =>
      rw [step, need]
      rcases ht with hk | ⟨hk, hn⟩
      · rw [hk]
        exact ⟨_, rfl⟩
      · rw [hk, if_pos hn]
        exact ⟨_, rfl⟩
  | literal =>
      obtain ⟨hk, hn⟩ := ht
      rw [step, hk, if_pos hn]
      exact ⟨_, rfl⟩
  | more _ ih =>
      rw [step]
      split
      · exact ⟨_, rfl⟩
      · exact ih ht

/-! ### What an error asks for -/

/-- A step that fails asks for what its pending items want. -/
theorem wants_of_step : ∀ {k : Pending}, step k t = .error e → Wants k e.wanted
  | [], h => begin_error h ▸ .program
  | .statement :: _, h => begin_error h ▸ .statement
  | .token .. :: _, h => need_error h ▸ .token
  | .name :: _, h => need_error h ▸ .name
  | .body :: _, h => by
      rw [step] at h
      split at h
      · cases h
      · exact begin_error h ▸ .body
  | .operand :: _, h => by
      rw [step] at h
      split at h
      · split at h
        · cases h
        · cases h
          exact .literal
      · exact need_error h ▸ .operand
  | .more :: k, h => by
      rw [step] at h
      split at h
      · cases h
      · exact .more (wants_of_step h)

/-- So does the end of the tokens. -/
theorem wants_of_stop (h : stop finish k = .error e) : Wants k e.wanted := by
  induction k with
  | nil => cases h
  | cons item k ih =>
      cases item with
      | more => exact .more (ih h)
      | token kind text => cases h; exact .token
      | name => cases h; exact .name
      | operand => cases h; exact .operand
      | statement => cases h; exact .statement
      | body => cases h; exact .close

/-! ### The particular tokens that are ever pending -/

/-- The item is none of a particular token, or one of the five. -/
def isQuotable : Item → Bool
  | .token kind text => quotable.contains (kind, text)
  | _ => true

/-- The particular tokens among the pending items are among the five. -/
def Quotable (k : Pending) : Prop := ∀ item ∈ k, isQuotable item = true

theorem quotable_nil : Quotable [] := by
  intro item h
  cases h

theorem quotable_cons {item : Item} :
    Quotable (item :: k) ↔ isQuotable item = true ∧ Quotable k :=
  List.forall_mem_cons

theorem Quotable.tail {item : Item} (h : Quotable (item :: k)) : Quotable k :=
  (quotable_cons.mp h).2

theorem Quotable.afterKeyword (kw : Keyword) (h : Quotable k) :
    Quotable (Item.afterKeyword kw ++ k) := by
  have hitems : ∀ item ∈ Item.afterKeyword kw, isQuotable item = true := by
    cases kw with
    | declare => decide
    | debug => decide
    | when => decide
  exact List.forall_mem_append.mpr ⟨hitems, h⟩

theorem Quotable.begin (hk : Quotable k) (h : begin t k = .ok k') : Quotable k' := by
  rcases begin_eq_ok_iff.mp h with ⟨-, rfl⟩ | ⟨kw, -, rfl⟩
  · exact hk
  · exact hk.afterKeyword kw

theorem Quotable.step : ∀ {k k' : Pending}, Quotable k → step k t = .ok k' → Quotable k'
  | [], _, hk, h => hk.begin h
  | .statement :: _, _, hk, h => hk.tail.begin h
  | .token .. :: _, _, hk, h => (need_eq_ok_iff.mp h).2 ▸ hk.tail
  | .name :: _, _, hk, h => (need_eq_ok_iff.mp h).2 ▸ hk.tail
  | .body :: _, _, hk, h => by
      rw [Pending.step] at h
      split at h
      · cases h
        exact hk.tail
      · exact hk.begin h
  | .operand :: _, _, hk, h => by
      rw [Pending.step] at h
      split at h
      · split at h
        · cases h
          exact hk.tail
        · cases h
      · exact (need_eq_ok_iff.mp h).2 ▸ hk.tail
  | .more :: k, k', hk, h => by
      rw [Pending.step] at h
      split at h
      · cases h
        exact quotable_cons.mpr ⟨rfl, hk.tail⟩
      · exact hk.tail.step h

theorem Quotable.advance {ts : List Token} (hk : Quotable k) (h : advance k ts = .ok k') :
    Quotable k' := by
  induction ts generalizing k with
  | nil =>
      cases h
      exact hk
  | cons t ts ih =>
      obtain ⟨k₁, hstep, hrest⟩ := bind_eq_ok_iff.mp h
      exact ih (hk.step hstep) hrest

/-- Pending items that want something want one of the things that the reader asks for. -/
theorem Wants.mem_asked (h : Wants k ex) (hk : Quotable k) : ex ∈ asked := by
  induction h with
  | program => decide
  | statement => decide
  | body => decide
  | close => decide
  | token => exact exactly_mem_asked (List.contains_iff_mem.mp (quotable_cons.mp hk).1)
  | name => decide
  | operand => decide
  | literal => decide
  | more _ ih => exact ih hk.tail

end Grammar.Pending

/-! ## Where an error stops -/

namespace Program

open Pending

/-- `StopsAfter e ts pre`: of the tokens, the error leaves `pre` behind.  It complains of the next
one, with which `pre` can no longer be completed, or of their end. -/
inductive StopsAfter (e : ParseError) : List Token → List Token → Prop
  | token {pre rest : List Token} {t : Token} : e.found = .ofToken t → e.span = t.span →
      Viable pre → ¬ Viable (pre ++ [t]) → StopsAfter e (pre ++ t :: rest) pre
  | endOfInput {ts : List Token} : e.found = .endOfInput → Viable ts → StopsAfter e ts ts

variable {ts pre : List Token} {t : Token} {k : Pending} {e : ParseError}

theorem exists_stopsAfter (h : ofTokens ts = .error e) : ∃ pre, StopsAfter e ts pre := by
  rw [ofTokens_eq_error_iff] at h
  rcases bind_eq_error_iff.mp h with hadv | ⟨k, hk, hstop⟩
  · obtain ⟨us, t, vs, k, rfl, hus, hstep⟩ := exists_step_of_advance hadv
    obtain ⟨hfound, hspan⟩ := step_error hstep
    exact ⟨us, .token hfound hspan (viable_iff.mpr ⟨k, hus⟩) (not_viable_of_step hus hstep [])⟩
  · exact ⟨ts, .endOfInput (stop_error hstop).1 (viable_iff.mpr ⟨k, hk⟩)⟩

/-- After tokens that can be completed, a token can follow exactly if the machine takes it. -/
theorem viable_concat_iff (hk : advance [] pre = .ok k) :
    Viable (pre ++ [t]) ↔ ∃ k', step k t = .ok k' := by
  have hadvance : advance [] (pre ++ [t]) = step k t := by
    rw [advance_append, hk]
    exact bind_pure (step k t)
  rw [viable_iff, hadvance]

/-- The items left pending where an error stops want what it asks for. -/
theorem StopsAfter.exists_wants (hpre : StopsAfter e ts pre) (h : ofTokens ts = .error e) :
    ∃ k, advance [] pre = .ok k ∧ Wants k e.wanted := by
  cases hpre with
  | token _ _ hviable hnot =>
      obtain ⟨k, hk⟩ := viable_iff.mp hviable
      rw [viable_concat_iff hk] at hnot
      cases hstep : step k _ with
      | ok k' => exact absurd ⟨k', hstep⟩ hnot
      | error e' =>
          rw [ofTokens_of_step hk hstep] at h
          cases h
          exact ⟨k, hk, wants_of_step hstep⟩
  | endOfInput _ hviable =>
      obtain ⟨k, hk⟩ := viable_iff.mp hviable
      rw [ofTokens_eq_error_iff, hk] at h
      exact ⟨k, hk, wants_of_stop h⟩

theorem viable_of_wants (hk : advance [] pre = .ok k) (hwants : Wants k e.wanted)
    (ht : Suggests e.expected t) : Viable (pre ++ [t]) := by
  have hasked : e.wanted ∈ Expected.asked := hwants.mem_asked (quotable_nil.advance hk)
  rw [← e.text_wanted] at ht
  exact (viable_concat_iff hk).mpr (hwants.exists_step (Expected.admits_of_suggests hasked ht))

/-- Every error of reading leaves tokens behind that can be completed, asks for some token, and
each token that it asks for can follow on them. -/
theorem ofTokens_expected (h : ofTokens ts = .error e) :
    (∃ pre, StopsAfter e ts pre) ∧ (∃ t, Suggests e.expected t) ∧
      ∀ pre t, StopsAfter e ts pre → Suggests e.expected t → Viable (pre ++ [t]) := by
  obtain ⟨pre, hpre⟩ := exists_stopsAfter h
  refine ⟨⟨pre, hpre⟩, ?_, ?_⟩
  · obtain ⟨k, hk, hwants⟩ := hpre.exists_wants h
    rw [← e.text_wanted]
    exact Expected.exists_suggests (hwants.mem_asked (quotable_nil.advance hk))
  · intro pre' t hpre' ht
    obtain ⟨k, hk, hwants⟩ := hpre'.exists_wants h
    exact viable_of_wants hk hwants ht

/-- `if a is 1 { de 5 ;` is refused at its `5`, where an identifier can stand. -/
theorem ofTokens_expected_in_body :
    ∃ ts e pre t, ts.map Token.text = ["if", "a", "is", "1", "\x7b", "de", "5", ";"] ∧
      ofTokens ts = .error e ∧ e.expected = "identifier" ∧
      pre.map Token.text = ["if", "a", "is", "1", "\x7b", "de"] ∧ StopsAfter e ts pre ∧
      Suggests e.expected t ∧ Viable (pre ++ [t]) := by
  let pre : List Token := [⟨.keyword, "if", .origin⟩, ⟨.identifier, "a", .origin⟩,
    ⟨.operator, "is", .origin⟩, ⟨.number, "1", .origin⟩, ⟨.punctuation, "\x7b", .origin⟩,
    ⟨.keyword, "de", .origin⟩]
  let five : Token := ⟨.number, "5", .origin⟩
  let e : ParseError := .unexpected (.someToken .identifier) (.ofToken five) .origin
  have hpre : advance [] pre = .ok [.name, Item.semicolon, .body] := rfl
  have hstep : step [.name, Item.semicolon, .body] five = .error e := rfl
  have h : ofTokens (pre ++ [five, ⟨.punctuation, ";", .origin⟩]) = .error e :=
    ofTokens_of_step hpre hstep _
  have hstops : StopsAfter e (pre ++ [five, ⟨.punctuation, ";", .origin⟩]) pre :=
    .token rfl rfl (viable_iff.mpr ⟨_, hpre⟩) (not_viable_of_step hpre hstep [])
  have hname : Suggests e.expected ⟨.identifier, "b", .origin⟩ := .identifier rfl
  exact ⟨_, e, pre, _, rfl, h, rfl, rfl, hstops, hname,
    (ofTokens_expected h).2.2 pre _ hstops hname⟩

end Program

end FlatScript
