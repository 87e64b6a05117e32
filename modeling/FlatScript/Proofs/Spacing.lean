import FlatScript.Proofs.Relocation
import FlatScript.Proofs.Spelling
import FlatScript.Proofs.Typing
import Mathlib.Data.List.Chain

/-!
# Blanks between lexemes

A `Spacing` is a source taken apart: the lexemes in order, each with the blanks behind it, and the
blanks in front of the first.  Two neighbours may do without a blank unless they would be scanned as
one lexeme then, which happens to two words, to a word and a number behind it, and to two numbers;
a number and a word behind it are told apart by the first character of the word.

Main statement, `run_spacing`: the lexemes of a source may be spaced in any such way, and the
program, the problem and the run stay what they are.
-/

namespace FlatScript

open Grammar

/-! ## Lexemes side by side -/

/-- Side by side, the two texts would be scanned as one lexeme. -/
def Merge (s t : String) : Prop :=
  (IsWord s ∧ (IsWord t ∨ IsDigitRun t)) ∨ (IsDigitRun s ∧ IsDigitRun t)

instance (s t : String) : Decidable (Merge s t) :=
  inferInstanceAs (Decidable ((IsWord s ∧ (IsWord t ∨ IsDigitRun t)) ∨
    (IsDigitRun s ∧ IsDigitRun t)))

/-- The first of two lexemes goes on with the beginning of the second only if they merge. -/
theorem merge_of_goesOnWith {cls cls' : LexemeClass} {s t : String} {d : Char} {ds : List Char}
    (hs : cls.Fits s) (ht : cls'.Fits t) (hd : t.toList = d :: ds) (hgo : cls.goesOnWith d = true) :
    Merge s t := by
  obtain ⟨c, cs, hcs, hc, -⟩ := id ht
  rw [hd, List.cons.injEq] at hcs
  obtain ⟨rfl, rfl⟩ := hcs
  cases cls with
  | word =>
      rcases isWordChar_iff.mp hgo with hstart | hdigit
      · cases @LexemeClass.beginsWith_unique d _ .word hc hstart
        exact .inl ⟨hs, .inl ht⟩
      · cases @LexemeClass.beginsWith_unique d _ .digits hc hdigit
        exact .inl ⟨hs, .inr (LexemeClass.fits_digits_iff.mp ht)⟩
  | digits =>
      cases @LexemeClass.beginsWith_unique d _ .digits hc hgo
      exact .inr ⟨LexemeClass.fits_digits_iff.mp hs, LexemeClass.fits_digits_iff.mp ht⟩
  | operatorMark => cases hgo
  | punctuationMark => cases hgo

/-! ## Spacings -/

/-- Nothing but blanks. -/
def AllBlank (s : String) : Prop := ∀ c ∈ s.toList, isBlank c = true

instance (s : String) : Decidable (AllBlank s) :=
  decidable_of_iff (s.toList.all isBlank = true) List.all_eq_true

/-- Texts with blanks in front, between and behind, and with at least one between two texts that
would merge without. -/
structure Spacing where
  lead : String
  /-- Each text, with the blanks behind it. -/
  pieces : List (String × String)
  blank_lead : AllBlank lead
  blank_gaps : ∀ p ∈ pieces, AllBlank p.2
  apart : pieces.IsChain fun p q => Merge p.1 q.1 → p.2 ≠ ""

namespace Spacing

/-- The texts that are spaced. -/
def texts (x : Spacing) : List String := x.pieces.map Prod.fst

/-- The source that is taken apart. -/
def source (x : Spacing) : String := x.lead ++ String.join (x.pieces.map fun p => p.1 ++ p.2)

end Spacing

section Pieces

variable {K : Reserved} {p : String × String} {ps : List (String × String)}

theorem toList_join_pieces : (String.join ((p :: ps).map fun p => p.1 ++ p.2)).toList
    = p.1.toList ++ (p.2.toList ++ (String.join (ps.map fun p => p.1 ++ p.2)).toList) := by
  rw [List.map_cons, String.join_cons, String.toList_append, String.toList_append,
    List.append_assoc]

/-- A lexeme ends at the blanks behind it, or at the next lexeme if there are none. -/
theorem head?_pieces {cls : LexemeClass} (hp : cls.Fits p.1) (hgap : AllBlank p.2)
    (hps : ∀ q ∈ ps, ∃ cls' : LexemeClass, cls'.Fits q.1)
    (hapart : (p :: ps).IsChain fun p q => Merge p.1 q.1 → p.2 ≠ "") :
    (p.2.toList ++ (String.join (ps.map fun p => p.1 ++ p.2)).toList).head?.any cls.goesOnWith
      = false := by
  cases hw : p.2.toList with
  | cons d ws =>
      have hd : isBlank d = true := hgap d (hw ▸ List.mem_cons_self)
      exact LexemeClass.goesOnWith_eq_false (LexemeClass.isWordChar_of_isBlank hd)
  | nil =>
      cases ps with
      | nil => rfl
      | cons q qs =>
          obtain ⟨cls', hq⟩ := hps q List.mem_cons_self
          obtain ⟨d, es, hd, -⟩ := id hq
          have hapart := (List.isChain_cons_cons.mp hapart).1
          have hnot : ¬ Merge p.1 q.1 := fun hmerge => hapart hmerge (String.toList_inj.mp hw)
          rw [toList_join_pieces, hd]
          exact Bool.eq_false_iff.mpr fun hgo => hnot (merge_of_goesOnWith hp hq hd hgo)

theorem spells_pieces : ∀ {us : List Shape}, ps.map Prod.fst = us.map Prod.snd →
    (∀ u ∈ us, Scannable K u) → (∀ p ∈ ps, AllBlank p.2) →
      (ps.IsChain fun p q => Merge p.1 q.1 → p.2 ≠ "") →
        Spells K (String.join (ps.map fun p => p.1 ++ p.2)).toList us := by
  induction ps with
  | nil =>
      intro us htexts _ _ _
      cases us with
      | nil => exact spells_nil
      | cons u us => cases htexts
  | cons p ps ih =>
      intro us htexts hus hgaps hapart
      cases us with
      | nil => cases htexts
      | cons u us =>
          obtain ⟨htext, htexts⟩ := List.cons.inj htexts
          obtain ⟨hu, hus⟩ := List.forall_mem_cons.mp hus
          obtain ⟨hgap, hgaps⟩ := List.forall_mem_cons.mp hgaps
          have hps : ∀ q ∈ ps, ∃ cls : LexemeClass, cls.Fits q.1 := by
            intro q hq
            have hq : q.1 ∈ us.map Prod.snd := htexts ▸ List.mem_map_of_mem hq
            obtain ⟨v, hv, hvq⟩ := List.mem_map.mp hq
            obtain ⟨cls, hfits, -⟩ := LexemeClass.exists_fits_of_scannable (hus v hv)
            exact ⟨cls, hvq ▸ hfits⟩
          obtain ⟨cls, hfits, hkind⟩ := LexemeClass.exists_fits_of_scannable hu
          rw [← htext] at hfits hkind
          have hrest : Spells K _ us := closed_blanks (List.all_eq_true.mpr hgap) _ _
            (ih htexts hus hgaps hapart.tail)
          have h := hrest.lexeme hfits (head?_pieces hfits hgap hps hapart)
          rw [toList_join_pieces, ← Prod.eta u, ← htext, hkind]
          exact h

end Pieces

/-- The source of a spacing is scanned as tokens of the texts that it spaces. -/
theorem Spacing.exists_scan (x : Spacing) {K : Reserved} {source : String} {ts : List Token}
    (hts : Token.scan K source = .ok ts) (hx : x.texts = ts.map Token.text)
    (hsize : x.source.utf8ByteSize ≤ maxOffset) :
    ∃ us, Token.scan K x.source = .ok us ∧ us.map Token.shape = ts.map Token.shape := by
  have htexts : x.pieces.map Prod.fst = (ts.map Token.shape).map Prod.snd := by
    rw [List.map_map]
    exact hx
  have hpieces := spells_pieces htexts (scannable_of_scan hts) x.blank_gaps x.apart
  have hsource := closed_blanks (List.all_eq_true.mpr x.blank_lead) _ _ hpieces
  rw [← String.toList_append] at hsource
  exact hsource.exists_scan hsize

/-! ## Programs and runs -/

/-- The same problem, wherever it is. -/
inductive Problem.SameButPlace : Problem → Problem → Prop
  | parse {e e' : ParseError} : (Problem.parse e).code = (Problem.parse e').code →
      e.expected = e'.expected → e.found = e'.found → SameButPlace (.parse e) (.parse e')
  | eval (e : EvalError) : SameButPlace (.eval e) (.eval e)

theorem ParseError.Moved.sameButPlace {R : Span → Span → Prop} {e e' : ParseError}
    (h : e.Moved R e') : Problem.SameButPlace (.parse e) (.parse e') := by
  cases h with
  | unexpected _ => exact .parse rfl rfl rfl
  | @literalOutOfRange t u htu =>
      refine .parse rfl rfl ?_
      show Found.ofToken t = .ofToken u
      rw [Found.ofToken, Found.ofToken, htu.kind_eq, htu.text_eq]

namespace Token

variable {ts us : List Token}

/-- Tokens of the same shapes are the same tokens in other places. -/
theorem moved_of_map_shape (h : ts.map shape = us.map shape) :
    List.Forall₂ (Moved fun _ _ => True) ts us := by
  rw [← List.forall₂_eq_eq_eq, List.forall₂_map_left_iff, List.forall₂_map_right_iff] at h
  exact h.imp fun _ _ htu => ⟨htu, trivial⟩

end Token

namespace Script

variable {K : Reserved} {source : String} {ts : List Token}

theorem program_spacing (hts : Token.scan K source = .ok ts) (x : Spacing)
    (hx : x.texts = ts.map Token.text) (hsize : x.source.utf8ByteSize ≤ maxOffset) :
    Alike Problem.SameButPlace Eq (program K source) (program K x.source) := by
  obtain ⟨us, hus, hshape⟩ := x.exists_scan hts hx hsize
  have hmoved := Program.ofTokens_moved (fun _ _ _ => trivial)
    (Token.moved_of_map_shape hshape.symm)
  cases hread : Program.ofTokens ts with
  | ok p =>
      rw [hread] at hmoved
      obtain ⟨_, hread', rfl⟩ := hmoved.exists_ok
      rw [program_eq_ok_iff.mpr ⟨ts, hts, hread⟩, program_eq_ok_iff.mpr ⟨us, hus, hread'⟩]
      rfl
  | error e =>
      rw [hread] at hmoved
      obtain ⟨e', hread', he⟩ := hmoved.exists_error
      rw [program_eq_error_iff.mpr (.inr ⟨ts, e, hts, hread, rfl⟩),
        program_eq_error_iff.mpr (.inr ⟨us, e', hus, hread', rfl⟩)]
      exact he.sameButPlace

/-- Sources of alike programs run alike. -/
theorem run_alike {source' : String}
    (h : Alike Problem.SameButPlace Eq (program K source) (program K source')) (s : Session) :
    Alike Problem.SameButPlace Eq (run K s source).1 (run K s source').1 ∧
      (run K s source).2 = (run K s source').2 := by
  cases hp : program K source with
  | error problem =>
      rw [hp] at h
      obtain ⟨problem', hp', hsame⟩ := h.exists_error
      rw [run_of_program_error hp, run_of_program_error hp']
      exact ⟨hsame, rfl⟩
  | ok p =>
      rw [hp] at h
      obtain ⟨_, hp', rfl⟩ := h.exists_ok
      have hrun : run K s source = run K s source' := by
        rw [run, run, hp, hp']
      rw [← hrun]
      refine ⟨?_, rfl⟩
      cases hr : run K s source with
      | mk r s' =>
          cases r with
          | ok os => rfl
          | error problem =>
              obtain ⟨e, -, rfl⟩ := (run_eq_error_iff hp).mp hr
              exact .eval e

/-- The lexemes of a source may be spaced in any way that does not merge them: they are scanned as
the same kinds and texts, the program is the same or is missed for the same reason, and it runs in
the same way, whatever the session was before. -/
theorem run_spacing (hts : Token.scan K source = .ok ts) (x : Spacing)
    (hx : x.texts = ts.map Token.text) (hsize : x.source.utf8ByteSize ≤ maxOffset) :
    (∃ us, Token.scan K x.source = .ok us ∧ us.map Token.shape = ts.map Token.shape) ∧
      Alike Problem.SameButPlace Eq (program K source) (program K x.source) ∧
      ∀ s, Alike Problem.SameButPlace Eq (run K s source).1 (run K s x.source).1 ∧
        (run K s source).2 = (run K s x.source).2 := by
  have hprogram := program_spacing hts x hx hsize
  exact ⟨x.exists_scan hts hx hsize, hprogram, run_alike hprogram⟩

/-- A number may touch the word behind it, so `is` needs no blank in front of it here. -/
theorem run_spacing_touching :
    ∃ x : Spacing, x.source = "\tif 1is 1\n\x7bde\x0ca;\x7d\r\n" ∧
      (∃ ts, Token.scan .standard "if 1 is 1 \x7bde a; \x7d" = .ok ts ∧
        x.texts = ts.map Token.text) ∧
      ∃ p, program .standard "if 1 is 1 \x7bde a; \x7d" = .ok p ∧
        program .standard x.source = .ok p ∧
        ∀ s, (run .standard s "if 1 is 1 \x7bde a; \x7d").2 = (run .standard s x.source).2 := by
  let x : Spacing := {
    lead := "\t"
    pieces := [("if", " "), ("1", ""), ("is", " "), ("1", "\n"), ("\x7b", ""), ("de", "\x0c"),
      ("a", ""), (";", ""), ("\x7d", "\r\n")]
    blank_lead := by decide
    blank_gaps := by decide
    apart := by decide }
  have htexts : (Token.scan .standard "if 1 is 1 \x7bde a; \x7d" >>=
      fun ts => .ok (ts.map Token.text))
        = .ok ["if", "1", "is", "1", "\x7b", "de", "a", ";", "\x7d"] := by
    decide +kernel
  have hp : program .standard "if 1 is 1 \x7bde a; \x7d"
      = .ok [.when (.binary .is (.literal 1) (.literal 1)) [.debug "a"]] := by
    decide +kernel
  obtain ⟨ts, hts, hx⟩ := bind_eq_ok_iff.mp htexts
  replace hx : x.texts = ts.map Token.text := (Except.ok.inj hx).symm
  obtain ⟨-, hprogram, hrun⟩ := run_spacing hts x hx (by decide)
  rw [hp] at hprogram
  obtain ⟨_, hp', rfl⟩ := hprogram.exists_ok
  exact ⟨x, by decide, ⟨ts, hts, hx⟩, _, hp, hp', fun s => (hrun s).2⟩

end Script

end FlatScript
