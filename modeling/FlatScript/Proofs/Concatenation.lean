import FlatScript.Proofs.Canonical
import FlatScript.Proofs.Relocation

/-!
# One source behind another

A source that reads as a program ends in a punctuation mark and perhaps blanks, and neither goes on
with anything.  So no lexeme reaches over the seam when another source is put behind it, and no
statement is left open there: the second source is scanned and read as it is by itself, only so
many bytes further on.

Main statement, `program_append`.
-/

namespace FlatScript

/-! ## Places further on -/

section Shifted

variable (n : Nat)

/-- The same bytes, `n` further on. -/
def Span.Shifted (s s' : Span) : Prop := s'.start = s.start + n ∧ s'.stop = s.stop + n

/-- The same foreign character, `n` bytes further on. -/
inductive LexError.Shifted : LexError → LexError → Prop
  | unrecognized {c : Char} {position : Nat} {s s' : Span} : s.Shifted n s' →
      Shifted (.unrecognized c position s) (.unrecognized c (position + n) s')

/-- The same problem of scanning or reading, `n` bytes further on. -/
inductive Problem.Shifted : Problem → Problem → Prop
  | lex {e e' : LexError} : e.Shifted n e' → Shifted (.lex e) (.lex e')
  | parse {e e' : ParseError} : e.Moved (Span.Shifted n) e' → Shifted (.parse e) (.parse e')

end Shifted

variable {n : Nat}

theorem Span.Shifted.atStop (s s' : Span) (h : s.Shifted n s') : s.atStop.Shifted n s'.atStop :=
  ⟨h.2, h.2⟩

theorem LexError.foreign_shifted {c : Char} {o : Nat} (h : o + n + c.utf8Size ≤ maxOffset) :
    LexError.Shifted n (.foreign c o) (.foreign c (o + n)) := by
  rw [foreign_eq (by omega), foreign_eq h]
  exact .unrecognized ⟨rfl, Nat.add_right_comm ..⟩

/-! ## The scan at another offset -/

namespace Token

variable {K : Reserved} {o : Nat} {c : Char} {cs ds rest : List Char} {cls : LexemeClass}

/-- As long as its places fit into spans, a text is scanned alike at every offset. -/
theorem scanFrom_shifted (cs : List Char) : ∀ o, o + n + Text.byteLength cs ≤ maxOffset →
    Alike (LexError.Shifted n) (List.Forall₂ (Token.Moved (Span.Shifted n)))
      (scanFrom K o cs) (scanFrom K (o + n) cs) := by
  induction cs using scanInduction with
  | nil =>
      intro o _
      rw [scanFrom_nil, scanFrom_nil]
      exact .nil
  | blank c cs hb ih =>
      intro o h
      rw [Text.byteLength_cons] at h
      rw [scanFrom_blank hb, scanFrom_blank hb, Nat.add_right_comm]
      exact ih _ (by omega)
  | foreign c cs hb hc =>
      intro o h
      rw [Text.byteLength_cons] at h
      rw [scanFrom_foreign hb hc, scanFrom_foreign hb hc]
      exact LexError.foreign_shifted (by omega)
  | lexeme cls c ds rest hc hreach ih =>
      intro o h
      rw [← List.cons_append, Text.byteLength_append] at h
      rw [scanFrom_lexeme_of_le hc hreach (by omega), scanFrom_lexeme_of_le hc hreach (by omega)]
      have hrest := ih (o + Text.byteLength (c :: ds)) (by omega)
      rw [Nat.add_right_comm] at hrest
      refine hrest.map fun us us' hus => .cons ⟨rfl, rfl, ?_⟩ hus
      exact Nat.add_right_comm ..

/-! ## The scan over a seam -/

theorem goesOnWith_of_punctuation {s : String} (h : cls.kind K s = .punctuation) (c : Char) :
    cls.goesOnWith c = false := by
  cases cls with
  | word =>
      rw [LexemeClass.kind] at h
      split at h
      · cases h
      · split at h
        · cases h
        · cases h
  | digits => cases h
  | operatorMark => rfl
  | punctuationMark => rfl

/-- A lexeme goes no further when the text does, unless the text ended with the lexeme. -/
theorem Reaches.append (h : Reaches cls ds rest)
    (hseam : rest = [] → ∀ c, cls.goesOnWith c = false) (es : List Char) :
    Reaches cls ds (rest ++ es) := by
  refine ⟨h.1, ?_⟩
  cases rest with
  | nil => exact any_head?_eq_false (hseam rfl) es
  | cons d rest => exact h.2

/-- Behind a punctuation mark the scan begins anew. -/
theorem scanFrom_append (es : List Char) (cs : List Char) : ∀ {o : Nat} {ts : List Token},
    scanFrom K o cs = .ok ts → (∀ t, ts.getLast? = some t → t.kind = .punctuation) →
      scanFrom K o (cs ++ es)
        = (scanFrom K (o + Text.byteLength cs) es).map (ts ++ ·) := by
  induction cs using scanInduction with
  | nil =>
      intro o ts hts _
      rw [scanFrom_nil] at hts
      cases hts
      exact (id_map (scanFrom K o es)).symm
  | blank c cs hb ih =>
      intro o ts hts hlast
      rw [scanFrom_blank hb] at hts
      rw [List.cons_append, scanFrom_blank hb, ih hts hlast, Text.byteLength_cons, Nat.add_assoc]
  | foreign c cs hb hc =>
      intro o ts hts _
      rw [scanFrom_foreign hb hc] at hts
      cases hts
  | lexeme cls c ds rest hc hreach ih =>
      intro o ts hts hlast
      obtain ⟨span, us, rfl, hstop, rfl, hus⟩ := (scanFrom_lexeme_eq_ok_iff hc hreach).mp hts
      have hseam : rest = [] → ∀ d, cls.goesOnWith d = false := by
        rintro rfl
        rw [scanFrom_nil] at hus
        cases hus
        exact goesOnWith_of_punctuation (hlast _ rfl)
      have hlast' : ∀ t, us.getLast? = some t → t.kind = .punctuation := by
        intro t ht
        apply hlast
        rw [List.getLast?_cons, ht]
        rfl
      rw [List.cons_append, List.append_assoc, scanFrom_lexeme hc (hreach.append hseam es),
        ← hstop, Span.ofRange_eq_ok span.start_le span.stop_le]
      dsimp only
      rw [ih hus hlast', ← List.cons_append, Text.byteLength_append, ← Nat.add_assoc, ← hstop]
      exact (comp_map _ _ (scanFrom K _ es)).symm

end Token

/-! ## The reader over a seam -/

namespace Grammar

theorem Statement.exists_getLast? {us : List Shape} {s : Option Stmt} (h : Statement us s) :
    ∃ c, us.getLast? = some (mark c) := by
  cases h with
  | empty => exact ⟨';', rfl⟩
  | declare he => exact ⟨';', by simp [List.getLast?_cons]⟩
  | debug x => exact ⟨';', rfl⟩
  | when hl hr hss => exact ⟨'\x7d', by simp [List.getLast?_cons]⟩

theorem Statements.kind_of_getLast? : ∀ {us : List Shape} {ss : List Stmt}, Statements us ss →
    ∀ u, us.getLast? = some u → u.1 = .punctuation
  | _, _, .nil => nofun
  | _, _, @Statements.cons us vs s ss hs hss => by
      intro u hu
      rw [List.getLast?_append] at hu
      cases hvs : vs.getLast? with
      | some v =>
          rw [hvs] at hu
          cases hu
          exact hss.kind_of_getLast? _ hvs
      | none =>
          obtain ⟨c, hc⟩ := hs.exists_getLast?
          rw [hvs, hc] at hu
          cases hu
          rfl

end Grammar

namespace Program

variable {ts : List Token} {p : Program}

/-- The last token of a list that reads as a program is a punctuation mark. -/
theorem kind_of_getLast? (h : ofTokens ts = .ok p) (t : Token) (ht : ts.getLast? = some t) :
    t.kind = .punctuation := by
  refine (derives_of_ofTokens h).kind_of_getLast? t.shape ?_
  rw [List.getLast?_map, ht]
  rfl

/-- Behind the tokens of a program the reader begins anew. -/
theorem ofTokens_append (h : ofTokens ts = .ok p) (us : List Token) :
    ofTokens (ts ++ us) = (ofTokens us).map (p ++ ·) := by
  cases us with
  | nil =>
      rw [List.append_nil, h, @ofTokens_of_derives [] [] .nil]
      exact congrArg Except.ok (List.append_nil p).symm
  | cons u us =>
      have hfinish : Cursor.finishOf (ts ++ u :: us) = Cursor.finishOf (u :: us) := by
        rw [Cursor.finishOf, Cursor.finishOf,
          List.getLast?_append_of_ne_nil _ (List.cons_ne_nil u us)]
      have hpass : (Cursor.ofTokens (ts ++ u :: us)).Passes (ts.map Token.shape)
          (Cursor.ofTokens (u :: us)) := ⟨hfinish.symm, ts, rfl, rfl⟩
      exact (Cursor.run_complete (derives_of_ofTokens h) hpass).statements_eq

end Program

/-! ## Two sources -/

namespace Script

variable {K : Reserved} {s t : String} {p : Program}

/-- The scan of a source behind the source of a program. -/
theorem scan_append {ts : List Token} (hts : Token.scan K s = .ok ts)
    (hp : Program.ofTokens ts = .ok p) (hsize : s.utf8ByteSize + t.utf8ByteSize ≤ maxOffset) :
    ∃ behind, Token.scan K (s ++ t) = behind.map (ts ++ ·) ∧
      Alike (LexError.Shifted s.utf8ByteSize)
        (List.Forall₂ (Token.Moved (Span.Shifted s.utf8ByteSize))) (Token.scan K t) behind := by
  rw [Token.scan_eq] at hts
  rw [Token.scan_eq, Token.scan_eq, String.toList_append]
  refine ⟨Token.scanFrom K (0 + s.utf8ByteSize) t.toList, ?_,
    Token.scanFrom_shifted t.toList 0 ?_⟩
  · rw [Text.utf8ByteSize_eq]
    exact Token.scanFrom_append t.toList s.toList hts (Program.kind_of_getLast? hp)
  · rwa [Nat.zero_add, ← Text.utf8ByteSize_eq]

/-- Behind the source of a program stands what stands there by itself: a program goes on with its
statements, and a problem is the same problem, as many bytes further on as the first source has. -/
theorem program_append (hsize : s.utf8ByteSize + t.utf8ByteSize ≤ maxOffset)
    (hp : program K s = .ok p) :
    (∀ q, program K t = .ok q → program K (s ++ t) = .ok (p ++ q)) ∧
      ∀ problem, program K t = .error problem →
        ∃ problem', program K (s ++ t) = .error problem' ∧
          problem.Shifted s.utf8ByteSize problem' := by
  obtain ⟨ts, hts, hread⟩ := program_eq_ok_iff.mp hp
  obtain ⟨behind, hscan, halike⟩ := scan_append hts hread hsize
  constructor
  · intro q hq
    obtain ⟨us, hus, hq⟩ := program_eq_ok_iff.mp hq
    rw [hus] at halike
    obtain ⟨us', rfl, hmoved⟩ := halike.exists_ok
    have hagree := Program.ofTokens_moved Span.Shifted.atStop hmoved
    rw [hq] at hagree
    obtain ⟨_, hq', rfl⟩ := hagree.exists_ok
    refine program_eq_ok_iff.mpr ⟨ts ++ us', hscan, ?_⟩
    rw [Program.ofTokens_append hread, hq']
    rfl
  · intro problem hproblem
    rcases program_eq_error_iff.mp hproblem with ⟨e, he, rfl⟩ | ⟨us, e, hus, he, rfl⟩
    · rw [he] at halike
      obtain ⟨e', rfl, hshifted⟩ := halike.exists_error
      exact ⟨.lex e', program_eq_error_iff.mpr (.inl ⟨e', hscan, rfl⟩), .lex hshifted⟩
    · rw [hus] at halike
      obtain ⟨us', rfl, hmoved⟩ := halike.exists_ok
      have hagree := Program.ofTokens_moved Span.Shifted.atStop hmoved
      rw [he] at hagree
      obtain ⟨e', he', hshifted⟩ := hagree.exists_error
      refine ⟨.parse e', program_eq_error_iff.mpr (.inr ⟨ts ++ us', e', hscan, ?_, rfl⟩),
        .parse hshifted⟩
      rw [Program.ofTokens_append hread, he']
      rfl

/-- Behind `ye a=1;` stand `de a;`, which is a program, and `de`, which ends too early. -/
theorem program_append_declaration :
    program .standard ("ye a=1;" ++ "de a;")
        = .ok ([.declare "a" (.literal 1)] ++ [.debug "a"]) ∧
      ∃ problem', program .standard ("ye a=1;" ++ "de") = .error problem' ∧
        Problem.Shifted 7 (.parse (.unexpected (.someToken .identifier) .endOfInput
          (.point 2 (by decide)))) problem' := by
  have hp : program .standard "ye a=1;" = .ok [.declare "a" (.literal 1)] := by decide +kernel
  constructor
  · exact (program_append (by decide) hp).1 _ (by decide +kernel)
  · exact (program_append (by decide) hp).2 _ (by decide +kernel)

end Script

end FlatScript
