import FlatScript.Proofs.Bindings
import FlatScript.Proofs.Canonical
import FlatScript.Proofs.Stepping

/-!
# Programs of sources are typed

The type of programs admits expressions that mix integers with truth values, and those are what an
unknown operator is reported for.  `Stmt.Typed` leaves out the mixtures: values of declarations use
arithmetic operators only, and conditions compare two such expressions.  Whatever a source reads as
is typed, every step of a run keeps the bindings integers and what is left typed, and a typed
statement does not fail for an unknown operator.

Main statement, `run_well_typed`: this holds at every moment of the run of a source, the last one
included, whether the run succeeds or not.
-/

namespace FlatScript

/-! ## Integers and truth values -/

/-- An integer in the range of 64 bits. -/
def Value.IsInt (v : Value) : Prop :=
  ∃ n : Int64, v = .int n ∧ Int64.minValue.toInt ≤ n.toInt ∧ n.toInt ≤ Int64.maxValue.toInt

/-- A truth value. -/
def Value.IsBool (v : Value) : Prop := ∃ b, v = .bool b

theorem Value.isInt_int (n : Int64) : (Value.int n).IsInt :=
  ⟨n, rfl, n.minValue_le_toInt, n.toInt_le⟩

namespace Environment

/-- All names are bound to integers. -/
def Integral (env : Environment) : Prop := ∀ b ∈ env.bindings, b.2.IsInt

variable {env : Environment} {x : String} {v : Value}

theorem integral_empty : empty.Integral := binds_empty

theorem Integral.define (h : env.Integral) (hv : v.IsInt) : (env.define x v).Integral :=
  Binds.define h hv

theorem Integral.lookup (h : env.Integral) (hx : env.lookup x = some v) : v.IsInt :=
  Binds.lookup h hx

end Environment

/-! ## Typed programs -/

/-- An expression over arithmetic operators only. -/
inductive Expr.Numeric : Expr → Prop
  | literal (n : Int64) : Numeric (.literal n)
  | identifier (x : String) : Numeric (.identifier x)
  | binary {op : Operator} {l r : Expr} : op ∈ Operator.arithmetic → Numeric l → Numeric r →
      Numeric (.binary op l r)

/-- Declarations have numeric values, and conditions compare two numeric expressions. -/
inductive Stmt.Typed : Stmt → Prop
  | declare {x : String} {e : Expr} : e.Numeric → Typed (.declare x e)
  | debug (x : String) : Typed (.debug x)
  | when {l r : Expr} {body : Program} : l.Numeric → r.Numeric → (∀ s ∈ body, Typed s) →
      Typed (.when (.binary .is l r) body)

section Canonical

variable {K : Reserved}

theorem CanonicalOperand.numeric {e : Expr} (h : CanonicalOperand K e) : e.Numeric := by
  cases h with
  | literal _ => exact .literal _
  | name _ => exact .identifier _

theorem CanonicalValue.numeric {e : Expr} (h : CanonicalValue K e) : e.Numeric := by
  cases h with
  | operand h => exact h.numeric
  | binary hop hl hr => exact .binary hop hl.numeric hr.numeric

theorem CanonicalStmt.typed {s : Stmt} (h : CanonicalStmt K s) : s.Typed := by
  induction h with
  | declare _ _ he => exact .declare he.numeric
  | debug _ _ => exact .debug _
  | when _ hl hr _ ih => exact .when hl.numeric hr.numeric ih

end Canonical

/-! ## Evaluation -/

/-- A value with the property, or an error other than an unknown operator. -/
def Delivers (P : Value → Prop) : Except EvalError Value → Prop
  | .ok v => P v
  | .error e => ∀ symbol, e ≠ .unknownOperator symbol

namespace Operator

theorem inRange_delivers (op : Operator) (n : Int) : Delivers Value.IsInt (op.inRange n) := by
  rw [inRange]
  split
  · exact Value.isInt_int _
  · nofun

/-- On integers, arithmetic gives integers and comparison gives a truth value. -/
theorem apply_delivers {op : Operator} {v w : Value} (hv : v.IsInt) (hw : w.IsInt) :
    Delivers (if op.isArithmetic then Value.IsInt else Value.IsBool) (op.apply v w) := by
  obtain ⟨a, rfl, -⟩ := hv
  obtain ⟨b, rfl, -⟩ := hw
  cases op with
  | add => exact inRange_delivers _ _
  | sub => exact inRange_delivers _ _
  | mul => exact inRange_delivers _ _
  | div =>
      show Delivers Value.IsInt (if b = 0 then .error .divisionByZero else _)
      split
      · nofun
      · exact inRange_delivers _ _
  | is => exact ⟨a == b, rfl⟩

end Operator

namespace Expr

variable {env : Environment}

theorem binary_delivers {op : Operator} {l r : Expr} (hl : Delivers Value.IsInt (l.eval env))
    (hr : Delivers Value.IsInt (r.eval env)) :
    Delivers (if op.isArithmetic then Value.IsInt else Value.IsBool)
      (eval env (.binary op l r)) := by
  rw [eval]
  cases hv : l.eval env with
  | error e =>
      rw [hv] at hl
      exact hl
  | ok v =>
      cases hw : r.eval env with
      | error e =>
          rw [hw] at hr
          exact hr
      | ok w =>
          rw [hv] at hl
          rw [hw] at hr
          exact Operator.apply_delivers hl hr

theorem Numeric.delivers (henv : env.Integral) {e : Expr} (h : e.Numeric) :
    Delivers Value.IsInt (e.eval env) := by
  induction h with
  | literal n => exact Value.isInt_int n
  | identifier x =>
      rw [eval]
      cases hx : env.lookup x with
      | none => nofun
      | some v => exact henv.lookup hx
  | @binary op l r hop _ _ ihl ihr =>
      have h := @binary_delivers env op l r ihl ihr
      rwa [if_pos (Operator.mem_arithmetic.mp hop)] at h

theorem comparison_delivers (henv : env.Integral) {l r : Expr} (hl : l.Numeric)
    (hr : r.Numeric) : Delivers Value.IsBool (eval env (.binary .is l r)) :=
  @binary_delivers env .is l r (hl.delivers henv) (hr.delivers henv)

end Expr

/-! ## Steps and runs -/

namespace Moment

/-- All bindings are integers, and all that is left is typed. -/
structure Typed (m : Moment) : Prop where
  todo : ∀ stmt ∈ m.todo, stmt.Typed
  integral : m.session.env.Integral

/-- What can be seen of it at a moment: all bindings are integers, the next declaration gives an
integer and the next condition gives a truth value, if they give a value at all. -/
structure Sound (m : Moment) : Prop where
  integral : m.session.env.Integral
  declaration : ∀ x e rest v, m.todo = .declare x e :: rest → e.eval m.session.env = .ok v →
    v.IsInt
  condition : ∀ c body rest v, m.todo = .when c body :: rest → c.eval m.session.env = .ok v →
    v.IsBool

variable {m n : Moment} {ds : List Deed}

theorem Typed.sound (h : m.Typed) : m.Sound := by
  refine ⟨h.integral, ?_, ?_⟩
  · intro x e rest v htodo hv
    have hs := h.todo _ (htodo ▸ List.mem_cons_self)
    cases hs with
    | declare he =>
        have hdelivers := he.delivers h.integral
        rwa [hv] at hdelivers
  · intro c body rest v htodo hv
    have hs := h.todo _ (htodo ▸ List.mem_cons_self)
    cases hs with
    | when hl hr _ =>
        have hdelivers := Expr.comparison_delivers h.integral hl hr
        rwa [hv] at hdelivers

/-- Every declaration among the deeds declared an integer. -/
def DeclareInts (ds : List Deed) : Prop := ∀ x e v, (.declare x e, v) ∈ ds → v.IsInt

theorem Step.typed (h : Step m ds n) (hm : m.Typed) : n.Typed ∧ DeclareInts ds := by
  cases h with
  | @declare s x e v rest hv =>
      have hint : v.IsInt := hm.sound.declaration x e rest v rfl hv
      obtain ⟨-, hrest⟩ := List.forall_mem_cons.mp hm.todo
      refine ⟨⟨hrest, hm.integral.define hint⟩, ?_⟩
      intro x' e' v' hd
      cases List.mem_singleton.mp hd
      exact hint
  | debug =>
      obtain ⟨-, hrest⟩ := List.forall_mem_cons.mp hm.todo
      refine ⟨⟨hrest, hm.integral⟩, ?_⟩
      intro x' e' v' hd
      cases List.mem_singleton.mp hd
  | enter _ _ =>
      obtain ⟨hwhen, hrest⟩ := List.forall_mem_cons.mp hm.todo
      cases hwhen with
      | when _ _ hbody =>
          exact ⟨⟨List.forall_mem_append.mpr ⟨hbody, hrest⟩, hm.integral⟩, nofun⟩
  | skip _ _ =>
      obtain ⟨-, hrest⟩ := List.forall_mem_cons.mp hm.todo
      exact ⟨⟨hrest, hm.integral⟩, nofun⟩

theorem Leads.typed (h : Leads m ds n) (hm : m.Typed) : n.Typed ∧ DeclareInts ds := by
  induction h with
  | refl m => exact ⟨hm, nofun⟩
  | step hs _ ih =>
      obtain ⟨hnext, hints⟩ := hs.typed hm
      obtain ⟨hlast, hints'⟩ := ih hnext
      refine ⟨hlast, ?_⟩
      intro x e v hd
      exact (List.mem_append.mp hd).elim (hints x e v) (hints' x e v)

theorem Fails.ne_unknownOperator {error : EvalError} (h : m.Fails error) (hm : m.Typed) :
    ∀ symbol, error ≠ .unknownOperator symbol := by
  cases h with
  | declare he =>
      have hs := hm.todo _ List.mem_cons_self
      cases hs with
      | declare hnum =>
          have hdelivers := hnum.delivers hm.integral
          rwa [he] at hdelivers
  | condition hc =>
      have hs := hm.todo _ List.mem_cons_self
      cases hs with
      | when hl hr _ =>
          have hdelivers := Expr.comparison_delivers hm.integral hl hr
          rwa [hc] at hdelivers

end Moment

namespace Program

variable {p : Program} {s s' : Session}

theorem exec_ok_of_typed {os : List Outcome} (hp : Moment.Typed ⟨p, s⟩)
    (h : exec s p = (.ok os, s')) :
    s'.env.Integral ∧ Moment.DeclareInts ((p.trace os).zip (Outcome.leavesAll os)) ∧
      ∃ ds, Moment.Leads ⟨p, s⟩ ds ⟨[], s'⟩ := by
  obtain ⟨ds, hds, htrace, hleaves⟩ := leads_of_exec h
  obtain ⟨hend, hints⟩ := hds.typed hp
  refine ⟨hend.integral, ?_, ds, hds⟩
  rw [← List.zip_of_prod htrace hleaves]
  exact hints

theorem exec_error_of_typed {e : EvalError} (hp : Moment.Typed ⟨p, s⟩)
    (h : exec s p = (.error e, s')) :
    s'.env.Integral ∧ (∀ symbol, e ≠ .unknownOperator symbol) ∧
      ∃ ds m, Moment.Leads ⟨p, s⟩ ds m ∧ m.session = s' ∧ m.Fails e := by
  obtain ⟨ds, m, hds, rfl, hfails⟩ := fails_of_exec h
  have hm := (hds.typed hp).1
  exact ⟨hm.integral, hfails.ne_unknownOperator hm, ds, m, hds, rfl, hfails⟩

end Program

/-! ## Runs of sources -/

namespace Script

variable {K : Reserved} {s s' : Session} {source : String} {p : Program} {problem : Problem}

theorem run_of_program_error (h : program K source = .error problem) :
    run K s source = (.error problem, s) := by
  rw [run, h]

theorem run_eq_ok_iff (hp : program K source = .ok p) {os : List Outcome} :
    run K s source = (.ok os, s') ↔ Program.exec s p = (.ok os, s') := by
  rw [run, hp]
  dsimp only
  split
  · next h => simp [h]
  · next h => simp [h]

theorem run_eq_error_iff (hp : program K source = .ok p) :
    run K s source = (.error problem, s') ↔
      ∃ e, Program.exec s p = (.error e, s') ∧ .eval e = problem := by
  rw [run, hp]
  dsimp only
  split
  · next h => simp [h]
  · next h => simp [h, and_comm]

theorem typed_of_program (h : program K source = .ok p) (printer : Printer) :
    Moment.Typed ⟨p, .start printer⟩ :=
  ⟨fun s hs => (canonical_of_program h s hs).typed, Environment.integral_empty⟩

/-- A source that is not read has no unknown operator. -/
theorem code_ne_of_program_error (h : program K source = .error problem) :
    problem.code ≠ .unknownOperator := by
  rcases program_eq_error_iff.mp h with ⟨e, -, rfl⟩ | ⟨ts, e, -, -, rfl⟩
  · cases e <;> nofun
  · cases e <;> nofun

theorem code_eval_ne {e : EvalError} (h : ∀ symbol, e ≠ .unknownOperator symbol) :
    (Problem.eval e).code ≠ .unknownOperator := by
  cases e with
  | unknownOperator symbol => exact absurd rfl (h symbol)
  | unboundIdentifier _ => nofun
  | divisionByZero => nofun
  | integerOverflow _ => nofun

/-- No run of a source ends with an unknown operator, and wherever it ends all bindings are
integers.  At every moment on the way the bindings are integers, declarations give integers and
conditions give truth values; and there are moments on the way up to the end of the run, or up to
the expression that fails. -/
theorem run_well_typed (K : Reserved) (printer : Printer) (source : String) :
    (∀ r s, run K (.start printer) source = (r, s) →
      s.env.Integral ∧ ∀ problem, r = .error problem → problem.code ≠ .unknownOperator) ∧
    ∀ p, program K source = .ok p →
      (∀ ds m, Moment.Leads ⟨p, .start printer⟩ ds m → m.Sound ∧ Moment.DeclareInts ds) ∧
      (∀ os s, run K (.start printer) source = (.ok os, s) →
        Moment.DeclareInts ((p.trace os).zip (Outcome.leavesAll os)) ∧
          ∃ ds, Moment.Leads ⟨p, .start printer⟩ ds ⟨[], s⟩) ∧
      (∀ problem s, run K (.start printer) source = (.error problem, s) →
        ∃ ds m e, Moment.Leads ⟨p, .start printer⟩ ds m ∧ m.session = s ∧ m.Fails e ∧
          .eval e = problem) := by
  constructor
  · intro r s h
    cases hp : program K source with
    | error problem =>
        rw [run_of_program_error hp] at h
        cases h
        refine ⟨Environment.integral_empty, ?_⟩
        rintro _ ⟨⟩
        exact code_ne_of_program_error hp
    | ok p =>
        have htyped := typed_of_program hp printer
        cases r with
        | ok os => exact ⟨(Program.exec_ok_of_typed htyped ((run_eq_ok_iff hp).mp h)).1, nofun⟩
        | error problem =>
            obtain ⟨e, he, rfl⟩ := (run_eq_error_iff hp).mp h
            obtain ⟨hintegral, hne, -⟩ := Program.exec_error_of_typed htyped he
            refine ⟨hintegral, ?_⟩
            rintro _ ⟨⟩
            exact code_eval_ne hne
  · intro p hp
    have htyped := typed_of_program hp printer
    refine ⟨?_, ?_, ?_⟩
    · intro ds m hds
      obtain ⟨hm, hints⟩ := hds.typed htyped
      exact ⟨hm.sound, hints⟩
    · intro os s h
      exact (Program.exec_ok_of_typed htyped ((run_eq_ok_iff hp).mp h)).2
    · intro problem s h
      obtain ⟨e, he, rfl⟩ := (run_eq_error_iff hp).mp h
      obtain ⟨-, -, ds, m, hds, hm, hfails⟩ := Program.exec_error_of_typed htyped he
      exact ⟨ds, m, e, hds, hm, hfails, rfl⟩

/-- `ye a = 2; if a is 2 { ye b = a / 0; }` fails inside of its body, with `a` bound to an
integer. -/
theorem run_well_typed_division :
    ∃ s, run .standard (.start .fresh) "ye a = 2; if a is 2 \x7b ye b = a / 0; \x7d"
        = (.error (.eval .divisionByZero), s) ∧
      s.env.bindings = [("a", .int 2)] ∧ s.env.Integral ∧
      ∃ ds m, Moment.Leads ⟨[.declare "a" (.literal 2),
          .when (.binary .is (.identifier "a") (.literal 2))
            [.declare "b" (.binary .div (.identifier "a") (.literal 0))]], .start .fresh⟩ ds m ∧
        m.Fails .divisionByZero ∧ m.Sound := by
  have hprogram : program .standard "ye a = 2; if a is 2 \x7b ye b = a / 0; \x7d"
      = .ok [.declare "a" (.literal 2), .when (.binary .is (.identifier "a") (.literal 2))
          [.declare "b" (.binary .div (.identifier "a") (.literal 0))]] := by
    decide +kernel
  have hrun : run .standard (.start .fresh) "ye a = 2; if a is 2 \x7b ye b = a / 0; \x7d"
      = (.error (.eval .divisionByZero), (Session.start .fresh).define "a" (.int 2)) :=
    (run_eq_error_iff hprogram).mpr ⟨_, rfl, rfl⟩
  obtain ⟨hends, hmoments⟩ :=
    run_well_typed .standard .fresh "ye a = 2; if a is 2 \x7b ye b = a / 0; \x7d"
  obtain ⟨hsound, -, hfailing⟩ := hmoments _ hprogram
  obtain ⟨ds, m, e, hds, -, hfails, he⟩ := hfailing _ _ hrun
  cases he
  exact ⟨_, hrun, rfl, (hends _ _ hrun).1, ds, m, hds, hfails, (hsound ds m hds).1⟩

end Script

end FlatScript
