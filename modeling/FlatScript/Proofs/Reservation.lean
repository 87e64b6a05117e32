import FlatScript.Proofs.Lookahead
import FlatScript.Proofs.RoundTrip

/-!
# The choice of reserved words

Two sets of reserved words cut a source into the same lexemes, and a word has a different kind
under them only if it is a keyword under one and an identifier under the other.  Where the grammar
has a place for a keyword it has none for an identifier, so from the same pending items at most one
of the two tokens is taken.

Main statement, `program_unambiguous`: a source that can be read under both sets is cut into the
same tokens and reads as the same program, and the two sets agree on every word of it.
-/

namespace FlatScript

open Grammar
open Reserved (isReserved_iff isReserved_eq_false_iff)

/-! ## Keywords and identifiers in the same place -/

namespace Grammar.Pending

variable {t u : Token} {k k₁ k₂ : Pending}

theorem begin_of_identifier (hu : u.kind = .identifier) : begin u k ≠ .ok k₂ :=
  begin_ne_ok (by rw [hu]; decide) (by rw [hu]; decide)

/-- Where a keyword is taken, an identifier is not. -/
theorem not_step_identifier (ht : t.kind = .keyword) (hu : u.kind = .identifier) :
    ∀ {k k₁ k₂ : Pending}, step k t = .ok k₁ → step k u ≠ .ok k₂
  | [], _, _, _ => begin_of_identifier hu
  | .statement :: _, _, _, _ => begin_of_identifier hu
  | .body :: _, _, _, _ => by
      have hmark : u.isMark '\x7d' = false := by
        rw [Token.isMark, hu]
        rfl
      rw [step, hmark]
      exact begin_of_identifier hu
  | .token kind text :: _, _, _, h => by
      intro h'
      obtain ⟨hkind, -⟩ := need_eq_ok_iff.mp h
      obtain ⟨hkind', -⟩ := need_eq_ok_iff.mp h'
      have hk : t.kind = kind := (Prod.mk.inj (Token.isExactly_iff.mp hkind)).1
      have hk' : u.kind = kind := (Prod.mk.inj (Token.isExactly_iff.mp hkind')).1
      rw [ht] at hk
      rw [hu, ← hk] at hk'
      cases hk'
  | .name :: _, _, _, h => by
      obtain ⟨hkind, -⟩ := need_eq_ok_iff.mp h
      rw [ht] at hkind
      cases hkind
  | .operand :: _, _, _, h => by
      rw [step, ht] at h
      cases h
  | .more :: k, _, _, h => by
      have ht' : isArithmetic t = false := isArithmetic_eq_false (by rw [ht]; decide)
      have hu' : isArithmetic u = false := isArithmetic_eq_false (by rw [hu]; decide)
      rw [step, ht'] at h
      rw [step, hu']
      exact not_step_identifier ht hu h

end Grammar.Pending

/-! ## The kinds of one lexeme under two sets -/

namespace Token

variable {K L : Reserved} {s : String}

/-- The kind of a word does not depend on what stands behind it. -/
theorem kind_of_scannable {t : Token} (h : Scannable K t.shape) (hs : IsWord t.text) :
    t.kind = LexemeClass.word.kind K t.text := by
  obtain ⟨next, h⟩ := h
  obtain ⟨cls, c, ds, hcs, hc, -, -, hkind⟩ := lexeme_iff.mp h
  replace hkind : t.kind = cls.kind K t.text := hkind
  replace hcs : t.text.toList = c :: ds := hcs
  obtain ⟨c', ds', hcs', hc', -⟩ := hs
  rw [hcs, List.cons.injEq] at hcs'
  have hword : LexemeClass.beginsWith .word c = true := hcs'.1 ▸ hc'
  rw [hkind, LexemeClass.beginsWith_unique hc hword]

theorem kind_eq_keyword_iff : LexemeClass.word.kind K s = .keyword ↔ K.Reserves s := by
  rw [← isReserved_iff]
  refine ⟨fun h => ?_, kind_of_reserved⟩
  rw [LexemeClass.kind] at h
  split at h
  · next hr => exact hr
  · split at h
    · cases h
    · cases h

/-- A word reserved in one set only is a keyword under that set and an identifier under the
other. -/
theorem kind_of_disagree (hK : K.Reserves s) (hL : ¬ L.Reserves s) :
    LexemeClass.word.kind K s = .keyword ∧ LexemeClass.word.kind L s = .identifier := by
  refine ⟨kind_eq_keyword_iff.mpr hK, kind_of_ne (isReserved_eq_false_iff.mpr hL) ?_⟩
  rintro rfl
  exact isReserved_eq_false_iff.mp not_isReserved_is hK

/-- A token that both sets scan alike is reserved in both or in neither. -/
theorem reserves_iff_of_scannable {t : Token} (hK : Scannable K t.shape)
    (hL : Scannable L t.shape) (hword : IsWord t.text) :
    K.Reserves t.text ↔ L.Reserves t.text := by
  rw [← kind_eq_keyword_iff, ← kind_eq_keyword_iff, ← kind_of_scannable hK hword,
    ← kind_of_scannable hL hword]

variable {t u : Token}

/-- What two scans make of one lexeme is of one kind, or else a keyword and an identifier. -/
theorem Agrees.kinds (h : Agrees K L t u) (ht : Scannable K t.shape) (hu : Scannable L u.shape) :
    t.kind = u.kind ∨ (t.kind = .keyword ∧ u.kind = .identifier) ∨
      (t.kind = .identifier ∧ u.kind = .keyword) := by
  obtain ⟨htext, -, hkinds⟩ := h
  by_cases hsame : t.kind = u.kind
  · exact .inl hsame
  · obtain ⟨hword, hdisagree⟩ := hkinds hsame
    have hkind : t.kind = LexemeClass.word.kind K t.text := kind_of_scannable ht hword
    have hkind' : u.kind = LexemeClass.word.kind L t.text := by
      rw [htext] at hword ⊢
      exact kind_of_scannable hu hword
    rw [hkind, hkind']
    by_cases hK : K.Reserves t.text
    · have hL : ¬ L.Reserves t.text := fun hL => hdisagree (iff_of_true hK hL)
      exact .inr (.inl (kind_of_disagree hK hL))
    · have hL : L.Reserves t.text := by
        by_contra hL
        exact hdisagree (iff_of_false hK hL)
      exact .inr (.inr (kind_of_disagree hL hK).symm)

/-- If the grammar takes both, they are the same token. -/
theorem Agrees.eq_of_step (h : Agrees K L t u) (ht : Scannable K t.shape)
    (hu : Scannable L u.shape) {k k₁ k₂ : Pending} (hk₁ : k.step t = .ok k₁)
    (hk₂ : k.step u = .ok k₂) : t = u := by
  rcases h.kinds ht hu with hkind | ⟨hkt, hku⟩ | ⟨hkt, hku⟩
  · cases t
    cases u
    cases hkind
    cases h.1
    cases h.2.1
    rfl
  · exact absurd hk₂ (Pending.not_step_identifier hkt hku hk₁)
  · exact absurd hk₁ (Pending.not_step_identifier hku hkt hk₂)

theorem eq_of_advance {ts us : List Token} (h : List.Forall₂ (Agrees K L) ts us)
    (hts : ∀ s ∈ ts.map shape, Scannable K s) (hus : ∀ s ∈ us.map shape, Scannable L s) :
    ∀ {k k₁ k₂ : Pending}, k.advance ts = .ok k₁ → k.advance us = .ok k₂ → ts = us := by
  induction h with
  | nil =>
      intro k k₁ k₂ _ _
      rfl
  | @cons t u ts us htu _ ih =>
      intro k k₁ k₂ hk₁ hk₂
      obtain ⟨ht, hts'⟩ := List.forall_mem_cons.mp hts
      obtain ⟨hu, hus'⟩ := List.forall_mem_cons.mp hus
      obtain ⟨k', hstep, hrest⟩ := bind_eq_ok_iff.mp hk₁
      obtain ⟨k'', hstep', hrest'⟩ := bind_eq_ok_iff.mp hk₂
      cases htu.eq_of_step ht hu hstep hstep'
      rw [hstep] at hstep'
      cases hstep'
      rw [ih hts' hus' hrest hrest']

end Token

/-! ## Sources that can be read twice -/

namespace Script

/-- A source that reads as a program under two sets of reserved words has the same tokens and the
same program under both, and no word of it is reserved in one set only. -/
theorem program_unambiguous {K L : Reserved} {source : String} {p q : Program}
    (hp : program K source = .ok p) (hq : program L source = .ok q) :
    p = q ∧ ∃ ts, Token.Tokenizes K source ts ∧ Token.Tokenizes L source ts ∧
      ∀ t ∈ ts, IsWord t.text → (K.Reserves t.text ↔ L.Reserves t.text) := by
  obtain ⟨ts, hts, hp⟩ := program_eq_ok_iff.mp hp
  obtain ⟨us, hus, hq⟩ := program_eq_ok_iff.mp hq
  obtain ⟨us', hus', hagree⟩ := Token.exists_scan_agrees L hts
  cases hus.symm.trans hus'
  have hK := scannable_of_scan hts
  have hL := scannable_of_scan hus
  obtain ⟨k, hk, -⟩ := bind_eq_ok_iff.mp (Program.exists_ofTokens_iff.mp ⟨p, hp⟩)
  obtain ⟨k', hk', -⟩ := bind_eq_ok_iff.mp (Program.exists_ofTokens_iff.mp ⟨q, hq⟩)
  cases Token.eq_of_advance hagree hK hL hk hk'
  refine ⟨Except.ok.inj (hp.symm.trans hq), ts, Token.scan_eq_ok_iff_tokenizes.mp hts,
    Token.scan_eq_ok_iff_tokenizes.mp hus, ?_⟩
  intro t ht hword
  have hshape : t.shape ∈ ts.map Token.shape := List.mem_map_of_mem ht
  exact Token.reserves_iff_of_scannable (hK _ hshape) (hL _ hshape) hword

/-- `ye iffy = 1;` makes no difference between all words reserved and `ye` alone. -/
theorem program_unambiguous_declaration :
    ∃ p, program .standard "ye iffy = 1;" = .ok p ∧
      program (.ofList [.declare]) "ye iffy = 1;" = .ok p ∧
      ∃ ts, Token.Tokenizes .standard "ye iffy = 1;" ts ∧ ∀ t ∈ ts, IsWord t.text →
        (Reserved.standard.Reserves t.text ↔ (Reserved.ofList [.declare]).Reserves t.text) := by
  have hp : program .standard "ye iffy = 1;" = .ok [.declare "iffy" (.literal 1)] := by
    decide +kernel
  have hq : program (.ofList [.declare]) "ye iffy = 1;" = .ok [.declare "iffy" (.literal 1)] := by
    decide +kernel
  obtain ⟨-, ts, hts, -, hwords⟩ := program_unambiguous hp hq
  exact ⟨_, hp, hq, ts, hts, hwords⟩

end Script

end FlatScript
