import FlatScript.Program.OfTokens
import FlatScript.Proofs.Utf8

/-!
# What the steps of the reader do

Every rule of the reader is a chain of tests of the next token.  The lemmas here say for each
kind of test when it succeeds and what it leaves, and `Passes` says of two cursors that the second
lies behind the first by exactly the tokens of a given shape.  Nothing below opens a test again.
-/

namespace FlatScript

/-- A chain of two steps succeeds when both do. -/
theorem bind_eq_ok_iff {ε α β : Type} {x : Except ε α} {f : α → Except ε β} {b : β} :
    (x >>= f) = .ok b ↔ ∃ a, x = .ok a ∧ f a = .ok b := by
  cases x with
  | error e => exact ⟨fun h => (nomatch h), fun ⟨_, h, _⟩ => (nomatch h)⟩
  | ok a => exact ⟨fun h => ⟨a, rfl, h⟩, fun ⟨_, h, hf⟩ => by cases h; exact hf⟩

/-- A chain of two steps fails where the first fails, or where the second does behind it. -/
theorem bind_eq_error_iff {ε α β : Type} {x : Except ε α} {f : α → Except ε β} {e : ε} :
    (x >>= f) = .error e ↔ x = .error e ∨ ∃ a, x = .ok a ∧ f a = .error e := by
  cases x with
  | error e' =>
      refine ⟨fun h => .inl (by cases h; rfl), ?_⟩
      rintro (h | ⟨a, h, -⟩)
      · cases h
        rfl
      · cases h
  | ok a =>
      refine ⟨fun h => .inr ⟨a, rfl, h⟩, ?_⟩
      rintro (h | ⟨b, h, hf⟩)
      · cases h
      · cases h
        exact hf

theorem mapError_eq_ok_iff {ε ε' α : Type} {x : Except ε α} {f : ε → ε'} {a : α} :
    x.mapError f = .ok a ↔ x = .ok a := by
  cases x with
  | error e => exact iff_of_false nofun nofun
  | ok b => exact ⟨fun h => congrArg _ (Except.ok.inj h), fun h => congrArg _ (Except.ok.inj h)⟩

theorem mapError_eq_error_iff {ε ε' α : Type} {x : Except ε α} {f : ε → ε'} {e : ε'} :
    x.mapError f = .error e ↔ ∃ e₀, x = .error e₀ ∧ f e₀ = e := by
  cases x with
  | error e₀ =>
      constructor
      · intro h
        exact ⟨e₀, rfl, Except.error.inj h⟩
      · rintro ⟨e₁, h, rfl⟩
        cases h
        rfl
  | ok a => exact iff_of_false nofun nofun

/-! ## Marks -/

/-- A text of one byte that begins with a mark is the mark. -/
theorem Token.isMark_iff {t : Token} {mark : Char} (h : mark.utf8Size = 1) :
    t.isMark mark = true ↔ t.shape = (.punctuation, String.singleton mark) := by
  rw [Token.isMark, Token.shape, Prod.mk.injEq, ← String.toList_inj, String.toList_singleton,
    Text.utf8ByteSize_eq]
  cases hcs : t.text.toList with
  | nil => simp
  | cons c cs =>
      have hc := c.utf8Size_pos
      simp only [Bool.and_eq_true, beq_iff_eq, List.head?_cons, Option.some.injEq,
        Text.byteLength_cons, List.cons.injEq, and_assoc, and_congr_right_iff]
      intro _
      constructor
      · rintro ⟨hlen, rfl⟩
        refine ⟨rfl, ?_⟩
        cases cs with
        | nil => rfl
        | cons d ds =>
            have hd := d.utf8Size_pos
            rw [Text.byteLength_cons] at hlen
            omega
      · rintro ⟨rfl, rfl⟩
        exact ⟨h, rfl⟩

theorem Token.isExactly_iff {t : Token} {kind : TokenKind} {text : String} :
    t.isExactly kind text = true ↔ t.shape = (kind, text) := by
  rw [Token.isExactly, Token.shape, Prod.mk.injEq, Bool.and_eq_true, beq_iff_eq, beq_iff_eq]

theorem Token.isKeyword_iff {t : Token} {k : Keyword} :
    t.isKeyword k = true ↔ t.shape = (.keyword, k.word) :=
  Token.isExactly_iff

/-! ## Tests of the next token -/

namespace Read

theorem ext {c : Cursor} {α : Type} {r s : Read c α} (hv : r.value = s.value)
    (hn : r.next = s.next) : r = s := by
  cases r; cases s; cases hv; cases hn; rfl

end Read

namespace Cursor

theorem ext {c d : Cursor} (hr : c.rest = d.rest) (hf : c.finish = d.finish) : c = d := by
  cases c; cases d; cases hr; cases hf; rfl

variable {c d e : Cursor} {accepts : Token → Bool} {expected : Expected}

theorem readIf?_eq_some_iff {r : Read c Token} :
    c.readIf? accepts = some r ↔
      accepts r.value = true ∧ c.rest = r.value :: r.next.rest ∧ r.next.finish = c.finish := by
  constructor
  · intro h
    obtain ⟨hr, hf, ha⟩ := readIf?_eq_some h
    exact ⟨ha, hr, hf⟩
  · obtain ⟨rest, finish⟩ := c
    obtain ⟨t, next, shorter⟩ := r
    rintro ⟨ha, hr, hf⟩
    dsimp only at hr hf ha
    subst hr
    rw [readIf?_cons, if_pos ha]
    exact congrArg some (Read.ext rfl (Cursor.ext rfl hf.symm))

theorem readIf?_eq_none_iff :
    c.readIf? accepts = none ↔ ∀ t, c.current = some t → accepts t = false := by
  obtain ⟨rest, finish⟩ := c
  cases rest with
  | nil => simp
  | cons t rest =>
      rw [readIf?_cons, current_cons]
      cases h : accepts t <;> simp [h]

theorem readIf_eq_ok_iff {r : Read c Token} :
    c.readIf accepts expected = .ok r ↔
      accepts r.value = true ∧ c.rest = r.value :: r.next.rest ∧ r.next.finish = c.finish := by
  rw [← readIf?_eq_some_iff, readIf]
  cases c.readIf? accepts with
  | none => simp
  | some s => simp

/-! ## Passing over tokens

Tokens count by their shapes, as the grammar sees them, so a cursor may pass the same shapes with
different tokens. -/

/-- `c.Passes used d`: tokens of the shapes `used` lead from `c` to `d`. -/
def Passes (c : Cursor) (used : List (TokenKind × String)) (d : Cursor) : Prop :=
  d.finish = c.finish ∧ ∃ ts : List Token, ts.map Token.shape = used ∧ c.rest = ts ++ d.rest

theorem Passes.refl (c : Cursor) : c.Passes [] c :=
  ⟨rfl, [], rfl, rfl⟩

theorem passes_nil_iff : c.Passes [] d ↔ c = d := by
  constructor
  · rintro ⟨hf, ts, hts, hr⟩
    rw [List.map_eq_nil_iff] at hts
    subst hts
    exact Cursor.ext hr hf.symm
  · rintro rfl
    exact Passes.refl c

theorem passes_append_iff {us vs : List (TokenKind × String)} :
    c.Passes (us ++ vs) e ↔ ∃ d, c.Passes us d ∧ d.Passes vs e := by
  constructor
  · rintro ⟨hf, ts, hts, hr⟩
    obtain ⟨as, bs, rfl, has, hbs⟩ := List.map_eq_append_iff.mp hts
    rw [List.append_assoc] at hr
    exact ⟨⟨bs ++ e.rest, c.finish⟩, ⟨rfl, as, has, hr⟩, hf, bs, hbs, rfl⟩
  · rintro ⟨d, ⟨hf, as, has, hr⟩, hf', bs, hbs, hr'⟩
    refine ⟨hf'.trans hf, as ++ bs, ?_, ?_⟩
    · rw [List.map_append, has, hbs]
    · rw [hr, hr', List.append_assoc]

theorem Passes.append {us vs : List (TokenKind × String)} (h : c.Passes us d)
    (k : d.Passes vs e) : c.Passes (us ++ vs) e :=
  passes_append_iff.mpr ⟨d, h, k⟩

theorem passes_cons_iff {s : TokenKind × String} {us : List (TokenKind × String)} :
    c.Passes (s :: us) e ↔ ∃ d, c.Passes [s] d ∧ d.Passes us e := by
  rw [← List.singleton_append, passes_append_iff]

theorem Passes.cons {s : TokenKind × String} {us : List (TokenKind × String)}
    (h : c.Passes [s] d) (k : d.Passes us e) : c.Passes (s :: us) e :=
  passes_cons_iff.mpr ⟨d, h, k⟩

theorem passes_singleton_iff {s : TokenKind × String} :
    c.Passes [s] d ↔ ∃ t : Token, t.shape = s ∧ c.rest = t :: d.rest ∧ d.finish = c.finish := by
  constructor
  · rintro ⟨hf, ts, hts, hr⟩
    obtain ⟨t, rfl, ht⟩ := List.map_eq_singleton_iff.mp hts
    exact ⟨t, ht, hr, hf⟩
  · rintro ⟨t, ht, hr, hf⟩
    exact ⟨hf, [t], by rw [List.map_singleton, ht], hr⟩

theorem Passes.length_eq {us : List (TokenKind × String)} (h : c.Passes us d) :
    c.rest.length = us.length + d.rest.length := by
  obtain ⟨-, ts, rfl, hr⟩ := h
  rw [hr, List.length_append, List.length_map]

theorem Passes.shorter {s : TokenKind × String} {us : List (TokenKind × String)}
    (h : c.Passes (s :: us) d) : d.rest.length < c.rest.length := by
  have hl := h.length_eq
  rw [List.length_cons] at hl
  omega

/-- From one cursor, the next token has one shape. -/
theorem Passes.head_eq {s t : TokenKind × String} {us vs : List (TokenKind × String)}
    (h : c.Passes (s :: us) d) (k : c.Passes (t :: vs) e) : s = t := by
  obtain ⟨-, ts, hts, hr⟩ := h
  obtain ⟨-, ts', hts', hr'⟩ := k
  obtain ⟨a, as, rfl, ha, -⟩ := List.map_eq_cons_iff.mp hts
  obtain ⟨b, bs, rfl, hb, -⟩ := List.map_eq_cons_iff.mp hts'
  rw [hr, List.cons_append, List.cons_append, List.cons.injEq] at hr'
  rw [← ha, ← hb, hr'.1]

/-! ## Reading a token -/

theorem passes_of_readIf {r : Read c Token} (h : c.readIf accepts expected = .ok r) :
    c.Passes [r.value.shape] r.next := by
  obtain ⟨-, hr, hf⟩ := readIf_eq_ok_iff.mp h
  exact passes_singleton_iff.mpr ⟨r.value, rfl, hr, hf⟩

theorem exists_readIf (accepts : Token → Bool) (expected : Expected) {s : TokenKind × String}
    (h : c.Passes [s] d) (ha : ∀ t : Token, t.shape = s → accepts t = true) :
    ∃ r : Read c Token, c.readIf accepts expected = .ok r ∧ r.value.shape = s ∧ r.next = d := by
  obtain ⟨t, ht, hr, hf⟩ := passes_singleton_iff.mp h
  have hlt : d.rest.length < c.rest.length := by
    rw [hr]; exact Nat.lt_succ_self _
  exact ⟨⟨t, d, hlt⟩, readIf_eq_ok_iff.mpr ⟨ha t ht, hr, hf⟩, ht, rfl⟩

variable {kind : TokenKind} {text : String}

theorem passes_of_expect {r : Read c Token} (h : c.expect kind text = .ok r) :
    c.Passes [(kind, text)] r.next := by
  have hs := Token.isExactly_iff.mp (readIf_eq_ok_iff.mp h).1
  exact hs ▸ passes_of_readIf h

theorem exists_expect (h : c.Passes [(kind, text)] d) :
    ∃ r : Read c Token, c.expect kind text = .ok r ∧ r.next = d := by
  obtain ⟨r, hr, -, hd⟩ := exists_readIf (·.isExactly kind text) (.exactly kind text) h
    fun t ht => Token.isExactly_iff.mpr ht
  exact ⟨r, hr, hd⟩

theorem passes_of_readKind {r : Read c Token}
    (h : c.readIf (·.kind == kind) expected = .ok r) :
    c.Passes [(kind, r.value.text)] r.next := by
  have hs : (r.value.kind == kind) = true := (readIf_eq_ok_iff.mp h).1
  rw [← eq_of_beq hs]
  exact passes_of_readIf h

theorem exists_readKind (expected : Expected) (h : c.Passes [(kind, text)] d) :
    ∃ r : Read c Token, c.readIf (·.kind == kind) expected = .ok r ∧
      r.value.text = text ∧ r.next = d := by
  obtain ⟨r, hr, hs, hd⟩ := exists_readIf (·.kind == kind) expected h
    fun t ht => beq_iff_eq.mpr (Prod.mk.inj ht).1
  exact ⟨r, hr, (Prod.mk.inj hs).2, hd⟩

/-- An optional test answers as the test that reports does. -/
theorem readIf?_of_readIf {r : Read c Token} (h : c.readIf accepts expected = .ok r) :
    c.readIf? accepts = some r :=
  readIf?_eq_some_iff.mpr (readIf_eq_ok_iff.mp h)

/-! ## Looking at a token -/

theorem checkMark_cons (t : Token) (ts : List Token) (finish : Span) (mark : Char) :
    checkMark ⟨t :: ts, finish⟩ mark = t.isMark mark := rfl

theorem checkKeyword_cons (t : Token) (ts : List Token) (finish : Span) (k : Keyword) :
    checkKeyword ⟨t :: ts, finish⟩ k = t.isKeyword k := rfl

theorem Passes.current {s : TokenKind × String} {us : List (TokenKind × String)}
    (h : c.Passes (s :: us) d) : ∃ t, c.current = some t ∧ t.shape = s := by
  obtain ⟨e, he, -⟩ := passes_cons_iff.mp h
  obtain ⟨t, ht, hr, -⟩ := passes_singleton_iff.mp he
  exact ⟨t, by rw [Cursor.current, hr]; rfl, ht⟩

theorem Passes.readIf?_eq_none {s : TokenKind × String} {us : List (TokenKind × String)}
    (h : c.Passes (s :: us) d) (ha : ∀ t : Token, t.shape = s → accepts t = false) :
    c.readIf? accepts = none := by
  obtain ⟨t, ht, hs⟩ := h.current
  refine readIf?_eq_none_iff.mpr fun t' ht' => ?_
  rw [ht, Option.some.injEq] at ht'
  exact ht' ▸ ha t hs

theorem isAtEnd_iff : c.isAtEnd = true ↔ c.rest = [] :=
  List.isEmpty_iff

theorem Passes.isAtEnd_eq {s : TokenKind × String} {us : List (TokenKind × String)}
    (h : c.Passes (s :: us) d) : c.isAtEnd = false := by
  rw [Bool.eq_false_iff, Ne, isAtEnd_iff]
  intro hr
  have hlt := h.shorter
  rw [hr] at hlt
  exact Nat.not_lt_zero _ hlt

theorem Passes.checkMark_iff {s : TokenKind × String} {us : List (TokenKind × String)}
    (h : c.Passes (s :: us) d) {mark : Char} (hm : mark.utf8Size = 1) :
    c.checkMark mark = true ↔ s = (.punctuation, String.singleton mark) := by
  obtain ⟨t, ht, rfl⟩ := h.current
  rw [checkMark, ht, Option.any_some, Token.isMark_iff hm]

theorem Passes.checkKeyword_iff {s : TokenKind × String} {us : List (TokenKind × String)}
    (h : c.Passes (s :: us) d) (k : Keyword) :
    c.checkKeyword k = true ↔ s = (.keyword, k.word) := by
  obtain ⟨t, ht, rfl⟩ := h.current
  rw [checkKeyword, ht, Option.any_some, Token.isKeyword_iff]

/-! ## Skipping a token -/

theorem Passes.skip_eq {s : TokenKind × String} (h : c.Passes [s] d) : c.skip = d := by
  obtain ⟨t, -, hr, hf⟩ := passes_singleton_iff.mp h
  obtain ⟨rest, finish⟩ := c
  cases hr
  exact Cursor.ext rfl hf.symm

theorem passes_skip {t : Token} (h : c.current = some t) : c.Passes [t.shape] c.skip := by
  obtain ⟨rest, finish⟩ := c
  cases rest with
  | nil => cases h
  | cons t' rest =>
      cases h
      exact passes_singleton_iff.mpr ⟨t, rfl, rfl, rfl⟩

/-- A mark that is seen is skipped. -/
theorem passes_skip_of_checkMark {mark : Char} (hm : mark.utf8Size = 1)
    (h : c.checkMark mark = true) : c.Passes [(.punctuation, String.singleton mark)] c.skip := by
  obtain ⟨t, ht, hmark⟩ := (Option.any_eq_true _ _).mp h
  exact (Token.isMark_iff hm).mp hmark ▸ passes_skip ht

/-- A keyword that is seen is skipped. -/
theorem passes_skip_of_checkKeyword {k : Keyword} (h : c.checkKeyword k = true) :
    c.Passes [(.keyword, k.word)] c.skip := by
  obtain ⟨t, ht, hkeyword⟩ := (Option.any_eq_true _ _).mp h
  exact Token.isKeyword_iff.mp hkeyword ▸ passes_skip ht

end Cursor

end FlatScript
