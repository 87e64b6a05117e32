import FlatScript.Proofs.Reading
import FlatScript.Token.Scan

/-!
# The scan, one lexeme at a time

Any list of characters is empty, or begins with a blank, with a foreign character, or with a
lexeme that reaches as far as it can (`scanInduction`).  There is one equation of the scan for
each of these, and proofs about the scan go by this induction and these equations.

The scan itself moves over the positions of a source and never looks at a list.  `scanFrom` says
what it does with the characters that are still ahead, and `scan_eq` that they are all it needs.
-/

namespace FlatScript

/-! ## Words and numbers -/

/-- `[A-Za-z_][A-Za-z0-9_]*` -/
def IsWord (s : String) : Prop :=
  ∃ c cs, s.toList = c :: cs ∧ isWordStart c = true ∧ ∀ d ∈ cs, isWordChar d = true

/-- `[0-9]+` -/
def IsDigitRun (s : String) : Prop :=
  s.toList ≠ [] ∧ ∀ d ∈ s.toList, d.isDigit = true

instance (s : String) : Decidable (IsWord s) :=
  decidable_of_iff ((s.toList.head?.any isWordStart && s.toList.tail.all isWordChar) = true) <| by
    rw [IsWord]
    cases s.toList with
    | nil => simp
    | cons c cs =>
        constructor
        · intro h
          obtain ⟨hc, hcs⟩ := Bool.and_eq_true_iff.mp h
          exact ⟨c, cs, rfl, hc, List.all_eq_true.mp hcs⟩
        · rintro ⟨d, ds, hcons, hd, hds⟩
          cases hcons
          exact Bool.and_eq_true_iff.mpr ⟨hd, List.all_eq_true.mpr hds⟩

instance (s : String) : Decidable (IsDigitRun s) :=
  decidable_of_iff (s.toList ≠ [] ∧ s.toList.all Char.isDigit = true) <| by
    rw [IsDigitRun, List.all_eq_true]

/-! ## Characters by their codes -/

section Codes

variable {c : Char}

theorem isBlank_iff : isBlank c = true ↔
    c.toNat = 32 ∨ c.toNat = 9 ∨ c.toNat = 13 ∨ c.toNat = 10 ∨ c.toNat = 12 := by
  simp only [isBlank, Bool.or_eq_true, beq_iff_eq, or_assoc, ← Char.toNat_inj]
  exact Iff.rfl

theorem isUpper_iff : c.isUpper = true ↔ 65 ≤ c.toNat ∧ c.toNat ≤ 90 := by
  show decide (('A'.val ≤ c.val) ∧ c.val ≤ 'Z'.val) = true ↔ _
  rw [decide_eq_true_iff, UInt32.le_iff_toNat_le, UInt32.le_iff_toNat_le]
  exact Iff.rfl

theorem isLower_iff : c.isLower = true ↔ 97 ≤ c.toNat ∧ c.toNat ≤ 122 := by
  show (decide ('a'.val ≤ c.val) && decide (c.val ≤ 'z'.val)) = true ↔ _
  rw [Bool.and_eq_true, decide_eq_true_iff, decide_eq_true_iff, UInt32.le_iff_toNat_le,
    UInt32.le_iff_toNat_le]
  exact Iff.rfl

theorem isWordStart_iff : isWordStart c = true ↔
    (65 ≤ c.toNat ∧ c.toNat ≤ 90) ∨ (97 ≤ c.toNat ∧ c.toNat ≤ 122) ∨ c.toNat = 95 := by
  show (c.isUpper || c.isLower || c == '_') = true ↔ _
  rw [Bool.or_eq_true, Bool.or_eq_true, or_assoc, isUpper_iff, isLower_iff, beq_iff_eq,
    ← Char.toNat_inj]
  exact Iff.rfl

theorem isDigit_iff : c.isDigit = true ↔ 48 ≤ c.toNat ∧ c.toNat ≤ 57 :=
  Char.isDigit_iff_toNat

theorem isWordChar_iff : isWordChar c = true ↔ isWordStart c = true ∨ c.isDigit = true := by
  show (c.isAlpha || c.isDigit || c == '_') = true ↔ (c.isAlpha || c == '_') = true ∨ _
  rw [Bool.or_eq_true, Bool.or_eq_true, Bool.or_eq_true, or_right_comm]

theorem isOperatorMark_iff : isOperatorMark c = true ↔
    c.toNat = 61 ∨ c.toNat = 43 ∨ c.toNat = 45 ∨ c.toNat = 42 ∨ c.toNat = 47 := by
  simp only [isOperatorMark, Bool.or_eq_true, beq_iff_eq, or_assoc, ← Char.toNat_inj]
  exact Iff.rfl

theorem isPunctuationMark_iff : isPunctuationMark c = true ↔
    c.toNat = 40 ∨ c.toNat = 41 ∨ c.toNat = 59 ∨ c.toNat = 123 ∨ c.toNat = 125 := by
  simp only [isPunctuationMark, Bool.or_eq_true, beq_iff_eq, or_assoc, ← Char.toNat_inj]
  exact Iff.rfl

theorem isOperatorMark_iff_mem : isOperatorMark c = true ↔ c ∈ ['=', '+', '-', '*', '/'] := by
  simp [isOperatorMark, or_assoc]

theorem isPunctuationMark_iff_mem :
    isPunctuationMark c = true ↔ c ∈ ['(', ')', ';', '\x7b', '\x7d'] := by
  simp [isPunctuationMark, or_assoc]

end Codes

/-! ## Lexeme classes -/

namespace LexemeClass

variable {c : Char} {cls : LexemeClass}

/-- The characters that a lexeme of the class begins with. -/
def beginsWith : LexemeClass → Char → Bool
  | word, c => isWordStart c
  | digits, c => c.isDigit
  | operatorMark, c => isOperatorMark c
  | punctuationMark, c => isPunctuationMark c

/-- No character begins lexemes of two classes, so the order of the tests does not matter. -/
theorem beginsWith_unique {cls' : LexemeClass} (h : cls.beginsWith c = true)
    (h' : cls'.beginsWith c = true) : cls = cls' := by
  cases cls <;> cases cls' <;>
    simp only [beginsWith, isWordStart_iff, isDigit_iff, isOperatorMark_iff,
      isPunctuationMark_iff] at h h' ⊢ <;> omega

theorem beginsWith_of_ofFirst? (h : ofFirst? c = some cls) : cls.beginsWith c = true := by
  rw [ofFirst?] at h
  split at h
  · next hc => cases h; exact hc
  · split at h
    · next hc => cases h; exact hc
    · split at h
      · next hc => cases h; exact hc
      · split at h
        · next hc => cases h; exact hc
        · cases h

theorem ofFirst?_eq_none (h : ofFirst? c = none) : cls.beginsWith c = false := by
  rw [Bool.eq_false_iff]
  intro hc
  rw [ofFirst?] at h
  split at h
  · cases h
  · split at h
    · cases h
    · split at h
      · cases h
      · split at h
        · cases h
        · cases cls <;> contradiction

theorem ofFirst?_eq_some_iff : ofFirst? c = some cls ↔ cls.beginsWith c = true := by
  refine ⟨beginsWith_of_ofFirst?, fun h => ?_⟩
  cases hc : ofFirst? c with
  | none => exact absurd h (Bool.eq_false_iff.mp (ofFirst?_eq_none hc))
  | some cls' => rw [beginsWith_unique h (beginsWith_of_ofFirst? hc)]

theorem not_isBlank_of_beginsWith (h : cls.beginsWith c = true) : isBlank c = false := by
  rw [Bool.eq_false_iff, Ne, isBlank_iff]
  cases cls <;>
    simp only [beginsWith, isWordStart_iff, isDigit_iff, isOperatorMark_iff,
      isPunctuationMark_iff] at h <;> omega

theorem toNat_lt_of_beginsWith (h : cls.beginsWith c = true) : c.toNat < 128 := by
  cases cls <;>
    simp only [beginsWith, isWordStart_iff, isDigit_iff, isOperatorMark_iff,
      isPunctuationMark_iff] at h <;> omega

theorem toNat_lt_of_goesOnWith (h : cls.goesOnWith c = true) : c.toNat < 128 := by
  cases cls with
  | word =>
      rcases isWordChar_iff.mp h with h | h
      · exact @toNat_lt_of_beginsWith c .word h
      · exact @toNat_lt_of_beginsWith c .digits h
  | digits => exact @toNat_lt_of_beginsWith c .digits h
  | operatorMark => cases h
  | punctuationMark => cases h

end LexemeClass

theorem toNat_lt_of_isBlank {c : Char} (h : isBlank c = true) : c.toNat < 128 := by
  rw [isBlank_iff] at h
  omega

/-! ## Lexemes in a list of characters -/

/-- The error of meeting a foreign character, where its end fits into a span. -/
theorem LexError.foreign_eq {c : Char} {o : Nat} (h : o + c.utf8Size ≤ maxOffset) :
    foreign c o = .unrecognized c o ⟨o, o + c.utf8Size, by omega, h⟩ := by
  have ho : min o maxOffset = o := Nat.min_eq_left (by omega)
  simp only [foreign, Span.clamped, ho, Nat.min_eq_left h]

namespace Token

variable {K : Reserved} {o : Nat} {c : Char} {cs ds rest : List Char} {cls : LexemeClass}

/-- `ds` goes on with a lexeme of the class, and what comes behind it does not. -/
def Reaches (cls : LexemeClass) (ds rest : List Char) : Prop :=
  (∀ d ∈ ds, cls.goesOnWith d = true) ∧ rest.head?.any cls.goesOnWith = false

theorem reaches_takeWhile (cls : LexemeClass) (cs : List Char) :
    Reaches cls (cs.takeWhile cls.goesOnWith) (cs.dropWhile cls.goesOnWith) := by
  constructor
  · exact List.all_eq_true.mp List.all_takeWhile
  · have h := List.head?_dropWhile_not cls.goesOnWith cs
    cases hd : (cs.dropWhile cls.goesOnWith).head? with
    | none => rfl
    | some d => rw [hd] at h; exact h

theorem Reaches.takeWhile_eq (h : Reaches cls ds rest) :
    (ds ++ rest).takeWhile cls.goesOnWith = ds := by
  rw [List.takeWhile_append_of_pos h.1]
  cases rest with
  | nil => exact List.append_nil ds
  | cons d rest =>
      have hd : ¬ cls.goesOnWith d = true := Bool.eq_false_iff.mp h.2
      rw [List.takeWhile_cons_of_neg hd, List.append_nil]

theorem Reaches.dropWhile_eq (h : Reaches cls ds rest) :
    (ds ++ rest).dropWhile cls.goesOnWith = rest := by
  rw [List.dropWhile_append_of_pos h.1]
  cases rest with
  | nil => rfl
  | cons d rest =>
      have hd : ¬ cls.goesOnWith d = true := Bool.eq_false_iff.mp h.2
      exact List.dropWhile_cons_of_neg hd

/-- A lexeme that no character goes on with ends in front of anything. -/
theorem any_head?_eq_false (h : ∀ d, cls.goesOnWith d = false) (rest : List Char) :
    rest.head?.any cls.goesOnWith = false := by
  cases rest with
  | nil => rfl
  | cons d rest => exact h d

/-- Skipping what goes on with a lexeme leaves no more than there was. -/
theorem length_dropWhile_lt (p : Char → Bool) (c : Char) (cs : List Char) :
    (cs.dropWhile p).length < (c :: cs).length :=
  Nat.lt_succ_of_le (List.dropWhile_sublist p).length_le

@[elab_as_elim]
theorem scanInduction {motive : List Char → Prop} (nil : motive [])
    (blank : ∀ c cs, isBlank c = true → motive cs → motive (c :: cs))
    (foreign : ∀ c cs, isBlank c = false → LexemeClass.ofFirst? c = none → motive (c :: cs))
    (lexeme : ∀ cls c ds rest, cls.beginsWith c = true → Reaches cls ds rest → motive rest →
      motive (c :: (ds ++ rest)))
    (cs : List Char) : motive cs := by
  match cs with
  | [] => exact nil
  | c :: cs =>
      cases hb : isBlank c with
      | true => exact blank c cs hb (scanInduction nil blank foreign lexeme cs)
      | false =>
          cases hc : LexemeClass.ofFirst? c with
          | none => exact foreign c cs hb hc
          | some cls =>
              have hrest := scanInduction nil blank foreign lexeme (cs.dropWhile cls.goesOnWith)
              have h := lexeme cls c _ _ (LexemeClass.beginsWith_of_ofFirst? hc)
                (reaches_takeWhile cls cs) hrest
              rwa [List.takeWhile_append_dropWhile] at h
termination_by cs.length
decreasing_by
  · exact length_dropWhile_lt cls.goesOnWith c cs
  · exact Nat.lt_succ_self _

/-! ## The scan over characters -/

/-- The token of a lexeme. -/
def ofLexeme (K : Reserved) (cls : LexemeClass) (lexeme : List Char) (span : Span) : Token :=
  ⟨cls.kind K (String.ofList lexeme), String.ofList lexeme, span⟩

/-- The tokens of the characters that are ahead at a byte offset. -/
def scanFrom (K : Reserved) (o : Nat) : List Char → Except LexError (List Token)
  | [] => .ok []
  | c :: cs =>
    if isBlank c then scanFrom K (o + c.utf8Size) cs
    else match LexemeClass.ofFirst? c with
      | none => .error (.foreign c o)
      | some cls =>
        let lexeme := c :: cs.takeWhile cls.goesOnWith
        let stop := o + Text.byteLength lexeme
        match Span.ofRange o stop with
        | .error _ => .error (.sourceTooLarge stop)
        | .ok span => (scanFrom K stop (cs.dropWhile cls.goesOnWith)).map
            (ofLexeme K cls lexeme span :: ·)
termination_by cs => cs.length
decreasing_by
  · exact Nat.lt_succ_self _
  · exact length_dropWhile_lt cls.goesOnWith c cs

theorem scanFrom_nil : scanFrom K o [] = .ok [] := by
  rw [scanFrom]

theorem scanFrom_blank (h : isBlank c = true) :
    scanFrom K o (c :: cs) = scanFrom K (o + c.utf8Size) cs := by
  rw [scanFrom, if_pos h]

theorem scanFrom_foreign (hb : isBlank c = false) (hc : LexemeClass.ofFirst? c = none) :
    scanFrom K o (c :: cs) = .error (.foreign c o) := by
  rw [scanFrom, if_neg (Bool.eq_false_iff.mp hb), hc]

theorem scanFrom_lexeme (hc : cls.beginsWith c = true) (h : Reaches cls ds rest) :
    scanFrom K o (c :: (ds ++ rest)) =
      match Span.ofRange o (o + Text.byteLength (c :: ds)) with
      | .error _ => .error (.sourceTooLarge (o + Text.byteLength (c :: ds)))
      | .ok span => (scanFrom K (o + Text.byteLength (c :: ds)) rest).map
          (ofLexeme K cls (c :: ds) span :: ·) := by
  rw [scanFrom, if_neg (Bool.eq_false_iff.mp (LexemeClass.not_isBlank_of_beginsWith hc)),
    LexemeClass.ofFirst?_eq_some_iff.mpr hc]
  dsimp only
  rw [h.takeWhile_eq, h.dropWhile_eq]

theorem scanFrom_lexeme_of_le (hc : cls.beginsWith c = true) (h : Reaches cls ds rest)
    (hstop : o + Text.byteLength (c :: ds) ≤ maxOffset) :
    scanFrom K o (c :: (ds ++ rest)) =
      (scanFrom K (o + Text.byteLength (c :: ds)) rest).map
        (ofLexeme K cls (c :: ds) ⟨o, o + Text.byteLength (c :: ds), by omega, hstop⟩ :: ·) := by
  rw [scanFrom_lexeme hc h, Span.ofRange_eq_ok (by omega) hstop]

theorem scanFrom_lexeme_eq_ok_iff (hc : cls.beginsWith c = true) (h : Reaches cls ds rest)
    {ts : List Token} :
    scanFrom K o (c :: (ds ++ rest)) = .ok ts ↔
      ∃ span us, span.start = o ∧ span.stop = o + Text.byteLength (c :: ds) ∧
        ts = ofLexeme K cls (c :: ds) span :: us ∧ scanFrom K span.stop rest = .ok us := by
  rw [scanFrom_lexeme hc h]
  constructor
  · intro hts
    cases hspan : Span.ofRange o (o + Text.byteLength (c :: ds)) with
    | error e => rw [hspan] at hts; cases hts
    | ok span =>
        obtain ⟨hstart, hstop⟩ := Span.ofRange_ok hspan
        rw [hspan] at hts
        cases hus : scanFrom K (o + Text.byteLength (c :: ds)) rest with
        | error e => rw [hus] at hts; cases hts
        | ok us =>
            rw [hus] at hts
            cases hts
            exact ⟨span, us, hstart, hstop, rfl, hstop ▸ hus⟩
  · rintro ⟨span, us, rfl, hstop, rfl, hus⟩
    rw [← hstop, Span.ofRange_eq_ok span.start_le span.stop_le, hus]
    rfl

end Token

/-! ## The scan over positions -/

/-- The position stands between the first characters of the source and the others. -/
def Between {source : String} (i : source.Pos) (cs ds : List Char) : Prop :=
  i.Splits (String.ofList cs) (String.ofList ds)

namespace Between

variable {source : String} {i j : source.Pos} {cs ds es : List Char} {c : Char}

theorem startPos (source : String) : Between source.startPos [] source.toList := by
  rw [Between, String.ofList_toList]
  exact String.splits_startPos source

theorem eq_endPos_iff (h : Between i cs ds) : i = source.endPos ↔ ds = [] := by
  rw [String.Pos.Splits.eq_endPos_iff h, String.ofList_eq_empty_iff]

/-- The next position stands behind one more character. -/
theorem cons (h : Between i cs (c :: ds)) :
    ∃ hi : i ≠ source.endPos, i.get hi = c ∧ Between (i.next hi) (cs ++ [c]) ds := by
  have hsplit := h
  rw [Between, String.ofList_cons] at hsplit
  have hnext := hsplit.next
  refine ⟨hsplit.ne_endPos_of_singleton, hnext.get_eq_of_singleton, ?_⟩
  rw [Between, String.ofList_append]
  exact hnext

theorem byteIdx (h : Between i cs ds) : i.offset.byteIdx = Text.byteLength cs := by
  rw [String.Pos.Splits.offset_eq_rawEndPos h, String.byteIdx_rawEndPos, Text.utf8ByteSize_eq,
    String.toList_ofList]

theorem extract (hi : Between i cs (ds ++ es)) (hj : Between j (cs ++ ds) es) :
    source.extract i j = String.ofList ds := by
  rw [Between, String.ofList_append] at hi hj
  obtain ⟨hle, hcopy⟩ := String.copy_slice_eq_iff_splits.mpr ⟨_, _, hi, hj⟩
  rw [String.extract_eq_copy_slice i j hle, hcopy]

/-- Going on with a lexeme passes the characters that belong to it. -/
theorem reach {cls : LexemeClass} {rest : List Char} (hds : Token.Reaches cls ds rest) :
    ∀ {i : source.Pos} {cs : List Char}, Between i cs (ds ++ rest) →
      Between (cls.reach i) (cs ++ ds) rest := by
  induction ds with
  | nil =>
      intro i cs h
      rw [List.append_nil]
      cases rest with
      | nil =>
          rw [LexemeClass.reach, dif_pos (h.eq_endPos_iff.mpr rfl)]
          exact h
      | cons d rest =>
          obtain ⟨hi, hd, -⟩ := h.cons
          have hstop : ¬ cls.goesOnWith d = true := Bool.eq_false_iff.mp hds.2
          rw [LexemeClass.reach, dif_neg hi, hd, if_neg hstop]
          exact h
  | cons d ds ih =>
      intro i cs h
      obtain ⟨hi, hd, hnext⟩ := h.cons
      rw [LexemeClass.reach, dif_neg hi, hd, if_pos (hds.1 d List.mem_cons_self), List.append_cons]
      exact ih ⟨fun e he => hds.1 e (List.mem_cons_of_mem d he), hds.2⟩ hnext

end Between

namespace Token

/-- From a position on, the scan finds the tokens of the characters that are ahead. -/
theorem scanAt_eq {K : Reserved} {source : String} (ds : List Char) :
    ∀ {i : source.Pos} {cs : List Char} {before : List Token}, Between i cs ds →
      scanAt K before i = (scanFrom K (Text.byteLength cs) ds).map (before.reverse ++ ·) := by
  induction ds using scanInduction with
  | nil =>
      intro i cs before h
      rw [scanAt, dif_pos (h.eq_endPos_iff.mpr rfl), scanFrom_nil]
      exact congrArg Except.ok (List.append_nil _).symm
  | blank c ds hb ih =>
      intro i cs before h
      obtain ⟨hi, rfl, hnext⟩ := h.cons
      rw [scanAt, dif_neg hi, if_pos hb, ih hnext, scanFrom_blank hb, Text.byteLength_append,
        Text.byteLength_cons, Text.byteLength_nil, Nat.add_zero]
  | foreign c ds hb hc =>
      intro i cs before h
      obtain ⟨hi, rfl, -⟩ := h.cons
      rw [scanAt, dif_neg hi, if_neg (Bool.eq_false_iff.mp hb), hc, scanFrom_foreign hb hc,
        h.byteIdx]
      rfl
  | lexeme cls c ds rest hc hreach ih =>
      intro i cs before h
      obtain ⟨hi, rfl, hnext⟩ := h.cons
      have hj := hnext.reach hreach
      rw [← List.append_cons] at hj
      rw [scanAt, dif_neg hi,
        if_neg (Bool.eq_false_iff.mp (LexemeClass.not_isBlank_of_beginsWith hc)),
        LexemeClass.ofFirst?_eq_some_iff.mpr hc, scanFrom_lexeme hc hreach]
      dsimp only
      rw [h.extract hj, h.byteIdx, hj.byteIdx, Text.byteLength_append]
      cases Span.ofRange (Text.byteLength cs) _ with
      | error e => rfl
      | ok span =>
          dsimp only
          rw [ih hj, Text.byteLength_append, List.reverse_cons]
          cases scanFrom K _ rest with
          | error e => rfl
          | ok ts => exact congrArg Except.ok (List.append_assoc _ _ _)

/-- The scan of a source is the scan of its characters. -/
theorem scan_eq (K : Reserved) (source : String) :
    scan K source = scanFrom K 0 source.toList := by
  rw [scan, scanAt_eq _ (Between.startPos source), Text.byteLength_nil]
  cases scanFrom K 0 source.toList <;> rfl

end Token

end FlatScript
