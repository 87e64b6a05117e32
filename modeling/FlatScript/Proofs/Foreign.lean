import FlatScript.Proofs.Scanning

/-!
# Foreign characters

A source is made of ASCII letters, digits and underscores, five blanks and ten marks.  Any other
character is foreign wherever it stands, also inside of what would else be a word or a number, and
nothing but a foreign character stops the scan of a source whose offsets fit into spans.

The scan takes such a source apart into blanks and lexemes, which hold no foreign character, up to
the first foreign one if there is one (`scanFrom_cases`); reserved words have no part in it.

Main statement, `scan_eq_error_iff`.
-/

namespace FlatScript

/-- The character is neither a letter, a digit, the underscore, a blank nor a mark. -/
def IsForeign (c : Char) : Prop :=
  ¬ (('A' ≤ c ∧ c ≤ 'Z') ∨ ('a' ≤ c ∧ c ≤ 'z') ∨ ('0' ≤ c ∧ c ≤ '9') ∨
    c ∈ ['_', ' ', '\t', '\r', '\n', '\x0c', '=', '+', '-', '*', '/', '(', ')', ';', '\x7b', '\x7d'])

instance : DecidablePred IsForeign := fun _ => inferInstanceAs (Decidable (¬ _))

namespace LexemeClass

variable {c : Char} {cls : LexemeClass}

theorem isForeign_iff_toNat : IsForeign c ↔
    ¬ ((65 ≤ c.toNat ∧ c.toNat ≤ 90) ∨ (97 ≤ c.toNat ∧ c.toNat ≤ 122) ∨
      (48 ≤ c.toNat ∧ c.toNat ≤ 57) ∨ c.toNat = 95 ∨
      c.toNat = 32 ∨ c.toNat = 9 ∨ c.toNat = 13 ∨ c.toNat = 10 ∨ c.toNat = 12 ∨
      c.toNat = 61 ∨ c.toNat = 43 ∨ c.toNat = 45 ∨ c.toNat = 42 ∨ c.toNat = 47 ∨
      c.toNat = 40 ∨ c.toNat = 41 ∨ c.toNat = 59 ∨ c.toNat = 123 ∨ c.toNat = 125) := by
  simp only [IsForeign, Char.le_def, UInt32.le_iff_toNat_le, List.mem_cons, List.not_mem_nil,
    or_false, ← Char.toNat_inj]
  exact Iff.rfl

theorem not_isForeign_of_isBlank (h : isBlank c = true) : ¬ IsForeign c := by
  rw [isBlank_iff] at h
  rw [isForeign_iff_toNat]
  omega

theorem not_isForeign_of_beginsWith (h : cls.beginsWith c = true) : ¬ IsForeign c := by
  rw [isForeign_iff_toNat]
  cases cls <;>
    simp only [beginsWith, isWordStart_iff, isDigit_iff, isOperatorMark_iff,
      isPunctuationMark_iff] at h <;> omega

theorem not_isForeign_of_goesOnWith (h : cls.goesOnWith c = true) : ¬ IsForeign c := by
  cases cls with
  | word =>
      rcases isWordChar_iff.mp h with h | h
      · exact @not_isForeign_of_beginsWith c .word h
      · exact @not_isForeign_of_beginsWith c .digits h
  | digits => exact @not_isForeign_of_beginsWith c .digits h
  | operatorMark => cases h
  | punctuationMark => cases h

/-- What is neither a blank nor the first character of a lexeme is foreign. -/
theorem isForeign_of_ofFirst? (hb : isBlank c = false) (hc : ofFirst? c = none) :
    IsForeign c := by
  have hclass : ∀ cls : LexemeClass, ¬ cls.beginsWith c = true := fun _ =>
    Bool.eq_false_iff.mp (ofFirst?_eq_none hc)
  have hword := hclass .word
  have hdigits := hclass .digits
  have hoperator := hclass .operatorMark
  have hpunctuation := hclass .punctuationMark
  rw [Bool.eq_false_iff, Ne, isBlank_iff] at hb
  simp only [beginsWith, isWordStart_iff, isDigit_iff, isOperatorMark_iff,
    isPunctuationMark_iff] at hword hdigits hoperator hpunctuation
  rw [isForeign_iff_toNat]
  omega

end LexemeClass

/-! ## The first foreign character -/

/-- `FirstForeign cs before c`: behind `before`, which has none, stands the foreign character
`c`. -/
def FirstForeign (cs before : List Char) (c : Char) : Prop :=
  (∃ behind, cs = before ++ c :: behind) ∧ (∀ d ∈ before, ¬ IsForeign d) ∧ IsForeign c

namespace FirstForeign

variable {cs ds before before' : List Char} {c c' : Char}

theorem append (hds : ∀ d ∈ ds, ¬ IsForeign d) (h : FirstForeign cs before c) :
    FirstForeign (ds ++ cs) (ds ++ before) c := by
  obtain ⟨⟨behind, rfl⟩, hbefore, hc⟩ := h
  exact ⟨⟨behind, by simp⟩, List.forall_mem_append.mpr ⟨hds, hbefore⟩, hc⟩

theorem mem (h : FirstForeign cs before c) : c ∈ cs := by
  obtain ⟨⟨behind, rfl⟩, -, -⟩ := h
  simp

theorem unique (h : FirstForeign cs before c) (h' : FirstForeign cs before' c') :
    before = before' ∧ c = c' := by
  obtain ⟨⟨behind, rfl⟩, hbefore, hc⟩ := h
  obtain ⟨⟨behind', hsplit⟩, hbefore', hc'⟩ := h'
  rcases List.append_eq_append_iff.mp hsplit with ⟨between, rfl, hrest⟩ | ⟨between, rfl, hrest⟩
  · cases between with
    | nil =>
        cases hrest
        exact ⟨by simp, rfl⟩
    | cons d between =>
        cases hrest
        exact absurd hc (hbefore' _ (by simp))
  · cases between with
    | nil =>
        cases hrest
        exact ⟨by simp, rfl⟩
    | cons d between =>
        cases hrest
        exact absurd hc' (hbefore _ (by simp))

end FirstForeign

/-! ## Errors of a scan -/

namespace LexError

/-- The error is about the first foreign character of the source: it tells the character, its
offset in bytes and the span of its bytes. -/
inductive ReportsForeign (source : String) : LexError → Prop
  | first {before behind : String} {c : Char} {span : Span} :
      source = before ++ String.singleton c ++ behind → (∀ d ∈ before.toList, ¬ IsForeign d) →
      IsForeign c → span.start = before.utf8ByteSize →
      span.stop = before.utf8ByteSize + c.utf8Size →
      ReportsForeign source (.unrecognized c before.utf8ByteSize span)

theorem reportsForeign_iff {source : String} {e : LexError}
    (hsize : source.utf8ByteSize ≤ maxOffset) :
    e.ReportsForeign source ↔
      ∃ before c, FirstForeign source.toList before c ∧ e = foreign c (Text.byteLength before) := by
  rw [Text.utf8ByteSize_eq] at hsize
  constructor
  · intro h
    cases h with
    | @first before behind c span hsource hbefore hc hstart hstop =>
        subst hsource
        simp only [String.toList_append, String.toList_singleton, Text.byteLength_append,
          Text.byteLength_cons, Text.byteLength_nil] at hsize
        rw [Text.utf8ByteSize_eq] at hstart hstop
        refine ⟨before.toList, c, ⟨⟨behind.toList, by simp⟩, hbefore, hc⟩, ?_⟩
        rw [foreign_eq (by omega), Text.utf8ByteSize_eq]
        cases span
        cases hstart
        cases hstop
        rfl
  · rintro ⟨before, c, ⟨⟨behind, hcs⟩, hbefore, hc⟩, rfl⟩
    rw [hcs, Text.byteLength_append, Text.byteLength_cons] at hsize
    have hlength : (String.ofList before).utf8ByteSize = Text.byteLength before := by
      rw [Text.utf8ByteSize_eq, String.toList_ofList]
    have hsource : source = String.ofList before ++ String.singleton c ++ String.ofList behind := by
      rw [← String.toList_inj, hcs]
      simp
    have h : ReportsForeign source (.unrecognized c (String.ofList before).utf8ByteSize
        ⟨Text.byteLength before, Text.byteLength before + c.utf8Size, by omega, by omega⟩) :=
      .first hsource (by rwa [String.toList_ofList]) hc hlength.symm (by rw [hlength])
    rwa [hlength, ← foreign_eq] at h

end LexError

namespace Token

variable {K : Reserved}

/-- A scan takes all of its characters, or stops at the first foreign one. -/
theorem scanFrom_cases (cs : List Char) : ∀ o, o + Text.byteLength cs ≤ maxOffset →
    ((∀ c ∈ cs, ¬ IsForeign c) ∧ ∃ ts, scanFrom K o cs = .ok ts) ∨
    ∃ before c, FirstForeign cs before c ∧
      scanFrom K o cs = .error (.foreign c (o + Text.byteLength before)) := by
  induction cs using scanInduction with
  | nil =>
      intro o _
      exact .inl ⟨nofun, [], scanFrom_nil⟩
  | blank c cs hb ih =>
      intro o ho
      rw [Text.byteLength_cons] at ho
      have hc := LexemeClass.not_isForeign_of_isBlank hb
      rw [scanFrom_blank hb]
      rcases ih (o + c.utf8Size) (by omega) with ⟨hcs, hok⟩ | ⟨before, d, hd, herror⟩
      · exact .inl ⟨List.forall_mem_cons.mpr ⟨hc, hcs⟩, hok⟩
      · refine .inr ⟨c :: before, d, hd.append (List.forall_mem_singleton.mpr hc), ?_⟩
        rw [herror, Text.byteLength_cons, Nat.add_assoc]
  | foreign c cs hb hc =>
      intro o _
      refine .inr ⟨[], c, ⟨⟨cs, rfl⟩, nofun, LexemeClass.isForeign_of_ofFirst? hb hc⟩, ?_⟩
      exact scanFrom_foreign hb hc
  | lexeme cls c ds rest hc hreach ih =>
      intro o ho
      rw [← List.cons_append, Text.byteLength_append] at ho
      have hlexeme : ∀ d ∈ c :: ds, ¬ IsForeign d := List.forall_mem_cons.mpr
        ⟨LexemeClass.not_isForeign_of_beginsWith hc,
          fun d hd => LexemeClass.not_isForeign_of_goesOnWith (hreach.1 d hd)⟩
      rw [scanFrom_lexeme_of_le hc hreach (by omega)]
      rcases ih (o + Text.byteLength (c :: ds)) (by omega) with
        ⟨hrest, ts, hok⟩ | ⟨before, d, hd, herror⟩
      · refine .inl ⟨List.forall_mem_append.mpr ⟨hlexeme, hrest⟩, ?_⟩
        rw [hok]
        exact ⟨_, rfl⟩
      · refine .inr ⟨(c :: ds) ++ before, d, hd.append hlexeme, ?_⟩
        rw [herror, Text.byteLength_append, Nat.add_assoc]
        rfl

section Sources

variable {source : String} (hsize : source.utf8ByteSize ≤ maxOffset)

include hsize

theorem scan_cases (K : Reserved) :
    ((∀ c ∈ source.toList, ¬ IsForeign c) ∧ ∃ ts, scan K source = .ok ts) ∨
    ∃ before c, FirstForeign source.toList before c ∧
      scan K source = .error (.foreign c (Text.byteLength before)) := by
  rw [Text.utf8ByteSize_eq] at hsize
  simpa [scan_eq] using scanFrom_cases source.toList 0 (by omega)

theorem scan_eq_error_iff_reportsForeign (K : Reserved) {e : LexError} :
    scan K source = .error e ↔ e.ReportsForeign source := by
  rw [LexError.reportsForeign_iff hsize]
  rcases scan_cases hsize K with ⟨hnone, ts, hok⟩ | ⟨before, c, hfirst, herror⟩
  · rw [hok]
    refine iff_of_false nofun ?_
    rintro ⟨before, c, hfirst, -⟩
    exact hnone c hfirst.mem hfirst.2.2
  · rw [herror]
    constructor
    · rintro ⟨⟩
      exact ⟨before, c, hfirst, rfl⟩
    · rintro ⟨before', c', hfirst', rfl⟩
      obtain ⟨rfl, rfl⟩ := hfirst.unique hfirst'
      rfl

/-- A source whose offsets fit into spans is scanned exactly if it has no foreign character, and
otherwise the error is about the first of them.  It makes no difference which words are
reserved. -/
theorem scan_eq_error_iff :
    (∀ K, (∃ e, scan K source = .error e) ↔ ∃ c ∈ source.toList, IsForeign c) ∧
    (∀ K e, scan K source = .error e ↔ e.ReportsForeign source) ∧
    (∀ K L e, scan K source = .error e ↔ scan L source = .error e) := by
  have hreports : ∀ K e, scan K source = .error e ↔ e.ReportsForeign source :=
    fun K _ => scan_eq_error_iff_reportsForeign hsize K
  refine ⟨fun K => ⟨?_, ?_⟩, hreports, fun K L e => (hreports K e).trans (hreports L e).symm⟩
  · rintro ⟨e, he⟩
    obtain ⟨before, c, hfirst, -⟩ := (LexError.reportsForeign_iff hsize).mp ((hreports K e).mp he)
    exact ⟨c, hfirst.mem, hfirst.2.2⟩
  · rintro ⟨c, hc, hforeign⟩
    rcases scan_cases hsize K with ⟨hnone, -⟩ | ⟨before, d, -, herror⟩
    · exact absurd hforeign (hnone c hc)
    · exact ⟨_, herror⟩

end Sources

/-- In `x1é2 = ß;` the scan stops inside of a word, at a character of two bytes. -/
theorem scan_eq_error_inside_word :
    "x1é2 = ß;".utf8ByteSize ≤ maxOffset ∧ ∃ e, scan .standard "x1é2 = ß;" = .error e ∧
      scan .empty "x1é2 = ß;" = .error e ∧ e.ReportsForeign "x1é2 = ß;" ∧
      e.span? = some ⟨2, 4, by decide, by decide⟩ := by
  have hsize : "x1é2 = ß;".utf8ByteSize ≤ maxOffset := by decide
  have hsource : "x1é2 = ß;" = "x1" ++ String.singleton 'é' ++ "2 = ß;" := by decide
  have hreport : LexError.ReportsForeign "x1é2 = ß;"
      (.unrecognized 'é' 2 ⟨2, 4, by decide, by decide⟩) :=
    .first hsource (by simp [IsForeign]) (by simp [IsForeign]) rfl rfl
  obtain ⟨-, hreports, hsame⟩ := scan_eq_error_iff hsize
  have h := (hreports .standard _).mpr hreport
  exact ⟨hsize, _, h, (hsame _ _ _).mp h, hreport, rfl⟩

end Token

end FlatScript
