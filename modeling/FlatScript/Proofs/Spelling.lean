import FlatScript.Proofs.Canonical
import FlatScript.Text.Indentation

/-!
# Texts and the tokens they spell

A text is put together from pieces and scanned piece by piece.  A piece is `Closed` if what stands
behind it cannot change its tokens, and `Open` if it ends in a word or a number, which a word
character behind it would go on with.  Pieces are joined by four rules, and of the tokens only their
shapes are kept: where a text stands in a source makes no difference to them.
-/

namespace FlatScript

open Grammar

/-! ## Lexemes by their classes -/

namespace LexemeClass

/-- The text is a lexeme of the class. -/
def Fits (cls : LexemeClass) (s : String) : Prop :=
  ∃ c ds, s.toList = c :: ds ∧ cls.beginsWith c = true ∧ ∀ d ∈ ds, cls.goesOnWith d = true

variable {K : Reserved} {s : String}

theorem exists_fits_of_scannable {u : Shape} (h : Scannable K u) :
    ∃ cls : LexemeClass, cls.Fits u.2 ∧ u.1 = cls.kind K u.2 := by
  obtain ⟨next, h⟩ := h
  obtain ⟨cls, c, ds, hcs, hc, hds, -, hkind⟩ := Token.lexeme_iff.mp h
  exact ⟨cls, ⟨c, ds, hcs, hc, hds⟩, hkind⟩

theorem fits_digits_iff : digits.Fits s ↔ IsDigitRun s := by
  constructor
  · rintro ⟨c, ds, hcs, hc, hds⟩
    rw [IsDigitRun, hcs]
    exact ⟨List.cons_ne_nil c ds, List.forall_mem_cons.mpr ⟨hc, hds⟩⟩
  · rintro ⟨hne, hall⟩
    obtain ⟨c, ds, hcs⟩ := List.exists_cons_of_ne_nil hne
    rw [hcs, List.forall_mem_cons] at hall
    exact ⟨c, ds, hcs, hall.1, hall.2⟩

/-- No lexeme goes on with a character that no word goes on with. -/
theorem goesOnWith_eq_false {cls : LexemeClass} {c : Char} (h : isWordChar c = false) :
    cls.goesOnWith c = false := by
  rw [Bool.eq_false_iff] at h ⊢
  cases cls with
  | word => exact h
  | digits => exact fun hc => h (isWordChar_iff.mpr (.inr hc))
  | operatorMark => nofun
  | punctuationMark => nofun

theorem isWordChar_of_isBlank {c : Char} (h : isBlank c = true) : isWordChar c = false := by
  rw [Bool.eq_false_iff]
  intro hc
  rcases isWordChar_iff.mp hc with hc | hc
  · rw [@not_isBlank_of_beginsWith c .word hc] at h
    cases h
  · rw [@not_isBlank_of_beginsWith c .digits hc] at h
    cases h

/-- No character of a lexeme is a blank. -/
theorem Fits.not_isBlank {cls : LexemeClass} (hs : cls.Fits s) :
    ∀ c ∈ s.toList, isBlank c = false := by
  obtain ⟨d, ds, hcs, hd, hds⟩ := hs
  rw [hcs, List.forall_mem_cons]
  refine ⟨not_isBlank_of_beginsWith hd, fun c hc => ?_⟩
  rw [Bool.eq_false_iff]
  intro hblank
  have hgo := hds c hc
  rw [goesOnWith_eq_false (isWordChar_of_isBlank hblank)] at hgo
  cases hgo

/-- All characters of a lexeme are single bytes. -/
theorem Fits.toNat_lt {cls : LexemeClass} (hs : cls.Fits s) : ∀ c ∈ s.toList, c.toNat < 128 := by
  obtain ⟨d, ds, hcs, hd, hds⟩ := hs
  rw [hcs]
  exact Token.toNat_lt_of_lexeme hd hds

theorem Fits.ne_nil {cls : LexemeClass} (hs : cls.Fits s) : s.toList ≠ [] := by
  obtain ⟨d, ds, hcs, -⟩ := hs
  rw [hcs]
  exact List.cons_ne_nil d ds

end LexemeClass

/-! ## Characters that spell shapes -/

/-- Wherever there is room for them, the characters are scanned as tokens of these shapes. -/
def Spells (K : Reserved) (cs : List Char) (us : List Shape) : Prop :=
  ∀ o, o + Text.byteLength cs ≤ maxOffset →
    ∃ ts, Token.scanFrom K o cs = .ok ts ∧ ts.map Token.shape = us

section Spells

variable {K : Reserved} {rest : List Char} {us : List Shape}

theorem spells_nil : Spells K [] [] := by
  intro o _
  exact ⟨[], Token.scanFrom_nil, rfl⟩

theorem Spells.blank (h : Spells K rest us) {c : Char} (hc : isBlank c = true) :
    Spells K (c :: rest) us := by
  intro o ho
  rw [Token.scanFrom_blank hc]
  refine h _ ?_
  rw [Text.byteLength_cons] at ho
  omega

/-- A lexeme in front of what does not go on with it. -/
theorem Spells.lexeme (h : Spells K rest us) {cls : LexemeClass} {s : String} (hs : cls.Fits s)
    (hrest : rest.head?.any cls.goesOnWith = false) :
    Spells K (s.toList ++ rest) ((cls.kind K s, s) :: us) := by
  obtain ⟨c, ds, hcs, hc, hds⟩ := hs
  intro o ho
  rw [Text.byteLength_append, ← Nat.add_assoc, hcs] at ho
  have hstop : o + Text.byteLength (c :: ds) ≤ maxOffset := by omega
  obtain ⟨ts, hts, hshape⟩ := h _ ho
  let span : Span := ⟨o, o + Text.byteLength (c :: ds), by omega, hstop⟩
  have htext : String.ofList (c :: ds) = s := by rw [← hcs, String.ofList_toList]
  refine ⟨Token.ofLexeme K cls (c :: ds) span :: ts, ?_, ?_⟩
  · rw [hcs]
    exact (Token.scanFrom_lexeme_eq_ok_iff hc ⟨hds, hrest⟩).mpr ⟨span, ts, rfl, rfl, rfl, hts⟩
  · rw [List.map_cons, hshape, Token.ofLexeme, htext]
    rfl

theorem Spells.exists_scan {s : String} (h : Spells K s.toList us)
    (hsize : s.utf8ByteSize ≤ maxOffset) :
    ∃ ts, Token.scan K s = .ok ts ∧ ts.map Token.shape = us := by
  rw [Text.utf8ByteSize_eq, ← Nat.zero_add (Text.byteLength _)] at hsize
  rw [Token.scan_eq]
  exact h 0 hsize

end Spells

/-! ## Open and closed pieces -/

/-- In front of anything, the text is scanned as tokens of these shapes. -/
def Closed (K : Reserved) (s : String) (us : List Shape) : Prop :=
  ∀ rest vs, Spells K rest vs → Spells K (s.toList ++ rest) (us ++ vs)

/-- In front of anything but a word character, it is. -/
def Open (K : Reserved) (s : String) (us : List Shape) : Prop :=
  ∀ rest vs, rest.head?.any isWordChar = false → Spells K rest vs →
    Spells K (s.toList ++ rest) (us ++ vs)

section Pieces

variable {K : Reserved} {s t : String} {us vs : List Shape}

theorem closed_empty : Closed K "" [] := by
  intro rest ws h
  exact h

/-- A closed text is scanned as its shapes. -/
theorem Closed.scan (h : Closed K s us) (hsize : s.utf8ByteSize ≤ maxOffset) :
    ∃ ts, Token.scan K s = .ok ts ∧ ts.map Token.shape = us := by
  have hspells := h [] [] spells_nil
  rw [List.append_nil, List.append_nil] at hspells
  exact hspells.exists_scan hsize

theorem Closed.append (h : Closed K s us) (k : Closed K t vs) : Closed K (s ++ t) (us ++ vs) := by
  intro rest ws hws
  rw [String.toList_append, List.append_assoc, List.append_assoc]
  exact h _ _ (k rest ws hws)

theorem Closed.open (h : Closed K s us) (k : Open K t vs) : Open K (s ++ t) (us ++ vs) := by
  intro rest ws hrest hws
  rw [String.toList_append, List.append_assoc, List.append_assoc]
  exact h _ _ (k rest ws hrest hws)

/-- A piece that begins with anything but a word character closes the one before it. -/
theorem Open.append (h : Open K s us) (k : Closed K t vs) (c : Char) (cs : List Char)
    (ht : t.toList = c :: cs) (hc : isWordChar c = false) : Closed K (s ++ t) (us ++ vs) := by
  intro rest ws hws
  rw [String.toList_append, List.append_assoc, List.append_assoc]
  refine h _ _ ?_ (k rest ws hws)
  rw [ht]
  exact hc

theorem closed_blanks (hs : s.toList.all isBlank = true) : Closed K s [] := by
  intro rest ws hws
  generalize s.toList = cs at hs
  induction cs with
  | nil => exact hws
  | cons c cs ih =>
      rw [List.all_cons, Bool.and_eq_true] at hs
      exact (ih hs.2).blank hs.1

/-- A mark, which no character goes on with. -/
theorem closed_singleton {cls : LexemeClass} {c : Char} (hc : cls.beginsWith c = true)
    (halone : ∀ d, cls.goesOnWith d = false) :
    Closed K (String.singleton c) [(cls.kind K (String.singleton c), String.singleton c)] := by
  intro rest ws hws
  exact hws.lexeme ⟨c, [], String.toList_singleton c, hc, nofun⟩
    (Token.any_head?_eq_false halone rest)

theorem closed_mark (c : Char) (hc : isPunctuationMark c = true) :
    Closed K (String.singleton c) [mark c] :=
  @closed_singleton K .punctuationMark c hc fun _ => rfl

theorem closed_sign (c : Char) (hc : isOperatorMark c = true) :
    Closed K (String.singleton c) [sign (String.singleton c)] :=
  @closed_singleton K .operatorMark c hc fun _ => rfl

theorem open_lexeme {cls : LexemeClass} (hs : cls.Fits s) : Open K s [(cls.kind K s, s)] := by
  intro rest ws hrest hws
  refine hws.lexeme hs ?_
  cases rest with
  | nil => rfl
  | cons d rest => exact LexemeClass.goesOnWith_eq_false hrest

theorem open_word (hs : IsWord s) : Open K s [(LexemeClass.word.kind K s, s)] :=
  @open_lexeme K s .word hs

theorem open_number (hs : IsDigitRun s) : Open K s [(.number, s)] :=
  open_lexeme (LexemeClass.fits_digits_iff.mpr hs)

theorem open_name {x : String} (h : IsName K x) : Open K x [(.identifier, x)] := by
  obtain ⟨hx, his, hr⟩ := h
  rw [← Token.kind_of_ne hr his]
  exact open_word hx

theorem isWord_word (k : Keyword) : IsWord k.word := by
  cases k with
  | declare => exact ⟨'y', ['e'], rfl, rfl, List.forall_mem_singleton.mpr rfl⟩
  | debug => exact ⟨'d', ['e'], rfl, rfl, List.forall_mem_singleton.mpr rfl⟩
  | when => exact ⟨'i', ['f'], rfl, rfl, List.forall_mem_singleton.mpr rfl⟩

theorem open_keyword {k : Keyword} (h : K.isReserved k.word = true) : Open K k.word [word k] := by
  rw [word, ← Token.kind_of_reserved h]
  exact open_word (isWord_word k)

theorem not_isReserved_is : K.isReserved "is" = false := by
  rw [Reserved.isReserved, Option.isSome_eq_false_iff, Option.isNone_iff_eq_none]
  cases h : K.lookup "is" with
  | none => rfl
  | some k =>
      have hk := (Reserved.lookup_eq_some_iff.mp h).2
      cases k <;> exact absurd hk (by decide)

theorem open_is : Open K "is" [sign "is"] := by
  rw [sign, ← Token.kind_is not_isReserved_is]
  exact open_word ⟨'i', ['s'], rfl, rfl, List.forall_mem_singleton.mpr rfl⟩

theorem isDigitRun_toString (m : Nat) : IsDigitRun (toString m) := by
  have htext : (toString m).toList = Nat.toDigits 10 m := Integer.toList_toString_ofNat m
  rw [IsDigitRun, htext]
  exact ⟨Nat.toDigits_ne_nil, Integer.digits_toDigits m⟩

theorem closed_space : Closed K " " [] :=
  closed_blanks rfl

theorem closed_newline : Closed K "\n" [] :=
  closed_blanks rfl

theorem closed_indentation (level : Nat) : Closed K (Text.indentation level) [] := by
  induction level with
  | zero => exact closed_empty
  | succ level ih =>
      have hstep : Closed K Text.indentStep [] := closed_blanks rfl
      exact hstep.append ih

end Pieces

end FlatScript
