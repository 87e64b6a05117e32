import FlatScript.Script
import FlatScript.Proofs.Grammar
import FlatScript.Proofs.Tokenization

/-!
# Programs that a source can spell

The type of programs is wider than the language: any text can stand as a name, any integer as a
literal, any expression below an operator.  `Program.Canonical` says which programs are left when
all of a program has to be spelled out in a source, with a given set of reserved words.

Here only one half of that is shown, `canonical_of_program`: whatever a source reads as is
canonical.  That every canonical program has a source is shown by writing one.
-/

namespace FlatScript

open Grammar

/-! ## Canonical programs -/

/-- A word that is scanned as an identifier. -/
def IsName (K : Reserved) (x : String) : Prop :=
  IsWord x ∧ x ≠ "is" ∧ K.isReserved x = false

instance (K : Reserved) (x : String) : Decidable (IsName K x) :=
  inferInstanceAs (Decidable (IsWord x ∧ x ≠ "is" ∧ K.isReserved x = false))

/-- A name, or a literal without a sign. -/
inductive CanonicalOperand (K : Reserved) : Expr → Prop
  | literal {n : Int64} : 0 ≤ n.toInt → CanonicalOperand K (.literal n)
  | name {x : String} : IsName K x → CanonicalOperand K (.identifier x)

/-- An operand, or one arithmetic operator between two. -/
inductive CanonicalValue (K : Reserved) : Expr → Prop
  | operand {e : Expr} : CanonicalOperand K e → CanonicalValue K e
  | binary {op : Operator} {l r : Expr} : op ∈ Operator.arithmetic → CanonicalOperand K l →
      CanonicalOperand K r → CanonicalValue K (.binary op l r)

/-- A statement whose keyword is reserved, over canonical parts. -/
inductive CanonicalStmt (K : Reserved) : Stmt → Prop
  | declare {x : String} {e : Expr} : K.isReserved Keyword.declare.word = true → IsName K x →
      CanonicalValue K e → CanonicalStmt K (.declare x e)
  | debug {x : String} : K.isReserved Keyword.debug.word = true → IsName K x →
      CanonicalStmt K (.debug x)
  | when {l r : Expr} {body : List Stmt} : K.isReserved Keyword.when.word = true →
      CanonicalValue K l → CanonicalValue K r → (∀ s ∈ body, CanonicalStmt K s) →
      CanonicalStmt K (.when (.binary .is l r) body)

/-- Every statement, at any depth, can be spelled. -/
def Program.Canonical (K : Reserved) (p : Program) : Prop :=
  ∀ s ∈ p, CanonicalStmt K s

/-! ## What is scanned is canonical -/

/-- Some scan makes a token of the shape. -/
def Scannable (K : Reserved) (u : Shape) : Prop :=
  ∃ next, Token.Lexeme K u.2 next u.1

section Scannable

variable {K : Reserved}

theorem scannable_of_scan {source : String} {ts : List Token}
    (h : Token.scan K source = .ok ts) : ∀ u ∈ ts.map Token.shape, Scannable K u := by
  intro u hu
  obtain ⟨t, ht, rfl⟩ := List.mem_map.mp hu
  exact ⟨_, ((Token.scan_eq_ok_iff_tokenizes.mp h).lexemes t ht).lexeme⟩

theorem isName_of_scannable {x : String} (h : Scannable K (.identifier, x)) : IsName K x := by
  obtain ⟨next, h⟩ := h
  cases h with
  | identifier hx _ hr his => exact ⟨hx, his, Reserved.isReserved_eq_false_iff.mpr hr⟩

theorem isReserved_of_scannable {k : Keyword} (h : Scannable K (word k)) :
    K.isReserved k.word = true := by
  obtain ⟨next, h⟩ := h
  cases h with
  | keyword _ _ hr => exact Reserved.isReserved_iff.mpr hr

/-- A scanned number has no sign. -/
theorem nonneg_of_scannable {s : String} {v : Int} (h : Scannable K (.number, s))
    (hv : Integer.Numeral s.toList v) : 0 ≤ v := by
  obtain ⟨next, h⟩ := h
  cases h with
  | number hs _ =>
      have hdigits := hs.2
      generalize s.toList = cs at hv hdigits
      cases hv with
      | plain _ _ => exact Int.natCast_nonneg _
      | plus _ _ => exact absurd (hdigits '+' List.mem_cons_self) (by decide)
      | minus _ _ => exact absurd (hdigits '-' List.mem_cons_self) (by decide)

theorem canonicalOperand_of {us : List Shape} {e : Expr} (h : Operand us e)
    (hus : ∀ u ∈ us, Scannable K u) : CanonicalOperand K e := by
  cases h with
  | number hn => exact .literal (nonneg_of_scannable (hus _ List.mem_cons_self) hn)
  | name x => exact .name (isName_of_scannable (hus _ List.mem_cons_self))

theorem canonicalValue_of {us : List Shape} {e : Expr} (h : Expression us e)
    (hus : ∀ u ∈ us, Scannable K u) : CanonicalValue K e := by
  cases h with
  | operand h => exact .operand (canonicalOperand_of h hus)
  | binary hl hop hr =>
      obtain ⟨hls, hrs⟩ := List.forall_mem_append.mp hus
      exact .binary hop (canonicalOperand_of hl hls)
        (canonicalOperand_of hr (List.forall_mem_cons.mp hrs).2)

mutual

theorem canonicalStmt_of : ∀ {us : List Shape} {s : Option Stmt}, Statement us s →
    (∀ u ∈ us, Scannable K u) → ∀ t ∈ s.toList, CanonicalStmt K t
  | _, _, .empty, _ => nofun
  | _, _, .declare he, hus => by
      obtain ⟨hkeyword, hus⟩ := List.forall_mem_cons.mp hus
      obtain ⟨hname, hus⟩ := List.forall_mem_cons.mp hus
      obtain ⟨-, hus⟩ := List.forall_mem_cons.mp hus
      obtain ⟨hvalue, -⟩ := List.forall_mem_append.mp hus
      refine List.forall_mem_singleton.mpr (.declare ?_ ?_ ?_)
      · exact isReserved_of_scannable hkeyword
      · exact isName_of_scannable hname
      · exact canonicalValue_of he hvalue
  | _, _, .debug x, hus => by
      obtain ⟨hkeyword, hus⟩ := List.forall_mem_cons.mp hus
      obtain ⟨hname, -⟩ := List.forall_mem_cons.mp hus
      refine List.forall_mem_singleton.mpr (.debug ?_ ?_)
      · exact isReserved_of_scannable hkeyword
      · exact isName_of_scannable hname
  | _, _, .when hl hr hss, hus => by
      obtain ⟨hkeyword, hus⟩ := List.forall_mem_cons.mp hus
      obtain ⟨hleft, hus⟩ := List.forall_mem_append.mp hus
      obtain ⟨-, hus⟩ := List.forall_mem_cons.mp hus
      obtain ⟨hright, hus⟩ := List.forall_mem_append.mp hus
      obtain ⟨-, hus⟩ := List.forall_mem_cons.mp hus
      obtain ⟨hbody, -⟩ := List.forall_mem_append.mp hus
      refine List.forall_mem_singleton.mpr (.when ?_ ?_ ?_ ?_)
      · exact isReserved_of_scannable hkeyword
      · exact canonicalValue_of hl hleft
      · exact canonicalValue_of hr hright
      · exact canonical_of hss hbody

theorem canonical_of : ∀ {us : List Shape} {ss : List Stmt}, Statements us ss →
    (∀ u ∈ us, Scannable K u) → ∀ s ∈ ss, CanonicalStmt K s
  | _, _, .nil, _ => nofun
  | _, _, .cons hs hss, hus => by
      obtain ⟨hfirst, hothers⟩ := List.forall_mem_append.mp hus
      refine List.forall_mem_append.mpr ⟨?_, ?_⟩
      · exact canonicalStmt_of hs hfirst
      · exact canonical_of hss hothers

end

end Scannable

/-! ## The stages of a script -/

namespace Script

variable {K : Reserved} {source : String} {p : Program}

theorem program_eq_ok_iff : program K source = .ok p ↔
    ∃ ts, Token.scan K source = .ok ts ∧ Program.ofTokens ts = .ok p := by
  rw [program, bind_eq_ok_iff]
  refine exists_congr fun ts => ?_
  rw [tokens, mapError_eq_ok_iff, mapError_eq_ok_iff]

theorem program_eq_error_iff {problem : Problem} : program K source = .error problem ↔
    (∃ e, Token.scan K source = .error e ∧ .lex e = problem) ∨
      ∃ ts e, Token.scan K source = .ok ts ∧ Program.ofTokens ts = .error e ∧
        .parse e = problem := by
  rw [program, bind_eq_error_iff, tokens, mapError_eq_error_iff]
  refine or_congr Iff.rfl (exists_congr fun ts => ?_)
  rw [mapError_eq_ok_iff, mapError_eq_error_iff, ← exists_and_left]

/-- What a source reads as is canonical. -/
theorem canonical_of_program (h : program K source = .ok p) : p.Canonical K := by
  obtain ⟨ts, hts, hp⟩ := program_eq_ok_iff.mp h
  exact canonical_of (Program.derives_of_ofTokens hp) (scannable_of_scan hts)

end Script

end FlatScript
