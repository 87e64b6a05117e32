import FlatScript.Proofs.Assignment

/-!
# Two runs side by side

All that a run does with its environment is to look names up and to define them.  So if two
environments answer alike for the names of a program, perhaps under other names, and go on to do so
when both define a name, then the runs from them cannot be told apart.  `Simulation` says this of a
relation between environments; what follows is the same for every such relation.

* `Simulation.eval`: expressions have the same value, or fail with the same error;
* `Simulation.exec`: programs have the same outcomes, or fail with the same error;
* `Simulation.step`, `Simulation.leads`: the same deeds are done, one after the other.

Main statement, `Simulation.run`: the two runs end at moments that correspond, after deeds that
correspond.
-/

namespace FlatScript

/-! ## Other names in errors, deeds and moments -/

/-- An error with other names. -/
def EvalError.rename (r : String → String) : EvalError → EvalError
  | .unboundIdentifier x => .unboundIdentifier (r x)
  | .unknownOperator symbol => .unknownOperator symbol
  | .divisionByZero => .divisionByZero
  | .integerOverflow op => .integerOverflow op

/-- Only the error of a name that is not bound mentions a name. -/
theorem EvalError.rename_eq_self {r : String → String} {error : EvalError}
    (h : ∀ x, error ≠ .unboundIdentifier x) : error.rename r = error := by
  cases error with
  | unboundIdentifier x => exact absurd rfl (h x)
  | unknownOperator _ => rfl
  | divisionByZero => rfl
  | integerOverflow _ => rfl

theorem Operator.apply_rename (r : String → String) (op : Operator) (v w : Value) :
    (op.apply v w).mapError (EvalError.rename r) = op.apply v w := by
  cases h : op.apply v w with
  | ok _ => rfl
  | error error =>
      have hself : error.rename r = error :=
        EvalError.rename_eq_self (Operator.apply_of_error h).ne_unbound
      exact congrArg Except.error hself

/-- A deed with other names. -/
def Deed.rename (r : String → String) (d : Deed) : Deed := (d.1.rename r, d.2)

/-! ## Simulations -/

/-- `R e f`: for the names of a list, `f` answers for `r x` as `e` does for `x`, and this is kept up
when `e` defines `x` and `f` defines `r x` in the same way. -/
structure Simulation (r : String → String) (names : List String)
    (R : Environment → Environment → Prop) : Prop where
  lookup : ∀ {e f : Environment} {x : String}, R e f → x ∈ names → f.lookup (r x) = e.lookup x
  define : ∀ {e f : Environment} {x : String} (v : Value), R e f → x ∈ names →
    R (e.define x v) (f.define (r x) v)

namespace Simulation

variable {r : String → String} {names : List String} {R : Environment → Environment → Prop}

theorem eval (h : Simulation r names R) {e f : Environment} (hR : R e f) {t : Expr}
    (ht : t.names ⊆ names) :
    (t.rename r).eval f = (t.eval e).mapError (EvalError.rename r) := by
  induction t with
  | literal n => rfl
  | identifier x =>
      have hx : x ∈ names := ht List.mem_cons_self
      rw [Expr.rename, Expr.eval, Expr.eval, h.lookup hR hx]
      cases e.lookup x <;> rfl
  | binary op left right ihl ihr =>
      obtain ⟨hleft, hright⟩ := List.append_subset.mp ht
      rw [Expr.rename, Expr.eval, Expr.eval, ihl hleft, ihr hright]
      cases left.eval e with
      | error _ => rfl
      | ok v =>
          cases right.eval e with
          | error _ => rfl
          | ok w => exact (Operator.apply_rename r op v w).symm

theorem report (h : Simulation r names R) {s t : Session} {x : String} (hR : R s.env t.env)
    (hx : x ∈ names) : t.report (r x) = s.report x := by
  rw [Session.report, Session.report, h.lookup hR hx]

/-! ## Results -/

mutual

theorem execStmt (h : Simulation r names R) : ∀ {stmt : Stmt} {s t : Session},
    R s.env t.env → stmt.names ⊆ names →
      ∃ t', Stmt.exec t (stmt.rename r)
          = ((Stmt.exec s stmt).1.mapError (EvalError.rename r), t') ∧
        R (Stmt.exec s stmt).2.env t'.env
  | .declare x e, s, t, hR, hn => by
      obtain ⟨hx, he⟩ := List.cons_subset.mp hn
      rw [Stmt.rename, Stmt.exec, Stmt.exec, h.eval hR he]
      cases e.eval s.env with
      | ok v => exact ⟨t.define (r x) v, rfl, h.define v hR hx⟩
      | error _ => exact ⟨t, rfl, hR⟩
  | .debug x, s, t, hR, hn => by
      rw [Stmt.rename, Stmt.exec, Stmt.exec, h.report hR (hn List.mem_cons_self)]
      exact ⟨_, rfl, hR⟩
  | .when c body, s, t, hR, hn => by
      obtain ⟨hc, hbody⟩ := List.append_subset.mp hn
      obtain ⟨t', hexec, hR'⟩ := h.exec hR hbody
      rw [Stmt.rename, Stmt.exec, Stmt.exec, h.eval hR hc]
      cases c.eval s.env with
      | error _ => exact ⟨t, rfl, hR⟩
      | ok v =>
          dsimp only [Except.mapError]
          split
          · rw [hexec]
            generalize Program.exec s body = result at hR' ⊢
            rcases result with ⟨_ | _, s'⟩ <;> exact ⟨t', rfl, hR'⟩
          · exact ⟨t, rfl, hR⟩

/-- The outcomes are the same, or the error is, and the environments still correspond. -/
theorem exec (h : Simulation r names R) : ∀ {p : Program} {s t : Session},
    R s.env t.env → p.names ⊆ names →
      ∃ t', Program.exec t (p.rename r)
          = ((Program.exec s p).1.mapError (EvalError.rename r), t') ∧
        R (Program.exec s p).2.env t'.env
  | [], s, t, hR, _ => ⟨t, rfl, hR⟩
  | stmt :: p, s, t, hR, hn => by
      obtain ⟨hstmt, hp⟩ := List.append_subset.mp hn
      obtain ⟨t', hexec, hR'⟩ := h.execStmt hR hstmt
      rw [Program.rename, Program.exec, Program.exec, hexec]
      generalize Stmt.exec s stmt = result at hR' ⊢
      rcases result with ⟨_ | o, s'⟩
      · exact ⟨t', rfl, hR'⟩
      · obtain ⟨t'', hrest, hR''⟩ := h.exec hR' hp
        dsimp only [Except.mapError] at hrest ⊢
        rw [hrest]
        generalize Program.exec s' p = result at hR'' ⊢
        rcases result with ⟨_ | _, s''⟩ <;> exact ⟨t'', rfl, hR''⟩

end

/-! ## Deeds -/

variable {m n : Moment} {ds : List Deed} {t : Session}

/-- What one session does next, the other one does under its names. -/
theorem step (h : Simulation r names R) (hs : m.Step ds n) (hR : R m.session.env t.env)
    (hm : m.todo.names ⊆ names) :
    ∃ t', Moment.Step ⟨m.todo.rename r, t⟩ (ds.map (Deed.rename r)) ⟨n.todo.rename r, t'⟩ ∧
      R n.session.env t'.env ∧ n.todo.names ⊆ names := by
  cases hs with
  | declare hv =>
      obtain ⟨hstmt, hrest⟩ := List.append_subset.mp hm
      obtain ⟨hx, he⟩ := List.cons_subset.mp hstmt
      have hv' := h.eval hR he
      rw [hv] at hv'
      exact ⟨_, .declare hv', h.define _ hR hx, hrest⟩
  | @debug s x rest =>
      obtain ⟨hstmt, hrest⟩ := List.append_subset.mp hm
      have hstep := @Moment.Step.debug t (r x) (rest.rename r)
      rw [h.report hR (hstmt List.mem_cons_self)] at hstep
      exact ⟨_, hstep, hR, hrest⟩
  | @enter s c v body rest hv ht =>
      obtain ⟨hstmt, hrest⟩ := List.append_subset.mp hm
      obtain ⟨hc, hbody⟩ := List.append_subset.mp hstmt
      have hv' := h.eval hR hc
      rw [hv] at hv'
      refine ⟨t, ?_, hR, ?_⟩
      · rw [Program.rename_append]
        exact .enter hv' ht
      · rw [Program.names_append]
        exact List.append_subset.mpr ⟨hbody, hrest⟩
  | skip hv hf =>
      obtain ⟨hstmt, hrest⟩ := List.append_subset.mp hm
      obtain ⟨hc, -⟩ := List.append_subset.mp hstmt
      have hv' := h.eval hR hc
      rw [hv] at hv'
      exact ⟨t, .skip hv' hf, hR, hrest⟩

theorem leads (h : Simulation r names R) (hs : m.Leads ds n) (hR : R m.session.env t.env)
    (hm : m.todo.names ⊆ names) :
    ∃ t', Moment.Leads ⟨m.todo.rename r, t⟩ (ds.map (Deed.rename r)) ⟨n.todo.rename r, t'⟩ ∧
      R n.session.env t'.env ∧ n.todo.names ⊆ names := by
  induction hs generalizing t with
  | refl m => exact ⟨t, .refl _, hR, hm⟩
  | step hs _ ih =>
      obtain ⟨t', hs', hR', hm'⟩ := h.step hs hR hm
      obtain ⟨t'', hleads, hn⟩ := ih hR' hm'
      rw [List.map_append]
      exact ⟨t'', .step hs' hleads, hn⟩

theorem fails (h : Simulation r names R) {error : EvalError} (hf : m.Fails error)
    (hR : R m.session.env t.env) (hm : m.todo.names ⊆ names) :
    Moment.Fails ⟨m.todo.rename r, t⟩ (error.rename r) := by
  cases hf with
  | declare he =>
      obtain ⟨hstmt, -⟩ := List.append_subset.mp hm
      obtain ⟨-, hnames⟩ := List.cons_subset.mp hstmt
      have he' := h.eval hR hnames
      rw [he] at he'
      exact .declare he'
  | condition hc =>
      obtain ⟨hstmt, -⟩ := List.append_subset.mp hm
      obtain ⟨hnames, -⟩ := List.append_subset.mp hstmt
      have hc' := h.eval hR hnames
      rw [hc] at hc'
      exact .condition hc'

theorem ends (h : Simulation r names R) {α : Type} {result : Except EvalError α}
    (he : m.Ends result) (hR : R m.session.env t.env) (hm : m.todo.names ⊆ names) :
    Moment.Ends ⟨m.todo.rename r, t⟩ (result.mapError (EvalError.rename r)) := by
  cases result with
  | ok _ =>
      have htodo : m.todo = [] := he
      rw [htodo]
      exact rfl
  | error _ => exact h.fails he hR hm

/-- A run from `s` and a run from `t` under other names have the same result, and their
environments still correspond.  The one ends where deeds lead to, and the same deeds under other
names lead to where the other one ends. -/
theorem run (h : Simulation r names R) {p : Program} {s s' : Session}
    {result : Except EvalError (List Outcome)} (hexec : Program.exec s p = (result, s'))
    (hR : R s.env t.env) (hp : p.names ⊆ names) :
    ∃ t' ds m, Program.exec t (p.rename r) = (result.mapError (EvalError.rename r), t') ∧
      R s'.env t'.env ∧ Moment.Leads ⟨p, s⟩ ds m ∧ m.session = s' ∧
      Moment.Leads ⟨p.rename r, t⟩ (ds.map (Deed.rename r)) ⟨m.todo.rename r, t'⟩ := by
  obtain ⟨t', hexec', hR'⟩ := h.exec hR hp
  rw [hexec] at hexec' hR'
  obtain ⟨ds, m, hds, rfl, hm⟩ := Program.ends_of_exec hexec
  obtain ⟨u, hu, hRu, htodo⟩ := h.leads hds hR hp
  obtain ⟨es, n, hes, rfl, hn⟩ := Program.ends_of_exec hexec'
  -- the way of `m` under other names leads to an end, and there is only one
  obtain ⟨rfl, rfl⟩ := hu.eq_of_ends hes (h.ends hm hRu htodo) hn
  exact ⟨u, ds, m, hexec', hR', hds, rfl, hu⟩

end Simulation

end FlatScript
