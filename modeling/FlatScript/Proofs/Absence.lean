import FlatScript.Proofs.Bindings
import FlatScript.Proofs.Faults
import FlatScript.Proofs.Stepping

/-!
# Where the absent value may show

A debug statement reports the absent value for a name that is not bound, and that is the only place
where it may show.  It is no value of an expression: operators do not give it, and a name that is
not bound is an error there.  So no declaration can bind a name to it, and with every name bound to
something else the reports stay unambiguous (`report_eq_absent_iff`).  Each step keeps this up
(`Step.present`), and so does everything that a session can be asked for, whether it succeeds or
fails half-way (`present_serve`).

Main statement, `serve_definite`.
-/

namespace FlatScript

/-- No name is bound to the absent value. -/
def Environment.Present (env : Environment) : Prop := env.Binds (· ≠ .absent)

/-- An operator has an integer or a truth value as its result. -/
theorem Operator.ne_absent_of_apply {op : Operator} {v w x : Value} (h : op.apply v w = .ok x) :
    x ≠ .absent := by
  rintro rfl
  obtain ⟨hyields, -⟩ := Operator.apply_of_ok h
  generalize v.quantity = p, w.quantity = q at hyields
  cases hyields

theorem Expr.ne_absent_of_eval {e : Expr} {env : Environment} {v : Value} (henv : env.Present)
    (h : e.eval env = .ok v) : v ≠ .absent := by
  cases e with
  | literal n =>
      cases h
      nofun
  | identifier x =>
      rw [eval] at h
      split at h
      · next hx =>
          cases h
          exact henv.lookup hx
      · cases h
  | binary op left right =>
      obtain ⟨l, -, h⟩ := bind_eq_ok_iff.mp h
      obtain ⟨r, -, h⟩ := bind_eq_ok_iff.mp h
      exact Operator.ne_absent_of_apply h

/-! ## Outcomes -/

section Outcomes

variable {s : Session}

theorem Session.report_eq_absent_iff (hs : s.env.Present) {x : String} :
    s.report x = .absent ↔ s.env.lookup x = none := by
  rw [report]
  cases hx : s.env.lookup x with
  | none => exact ⟨fun _ => rfl, fun _ => rfl⟩
  | some v => exact ⟨fun hv => absurd hv (hs.lookup hx), nofun⟩

theorem Stmt.exec_eq_absent_iff (hs : s.env.Present) {stmt : Stmt} :
    (Stmt.exec s stmt).1 = .ok (.value .absent) ↔
      ∃ x, stmt = .debug x ∧ s.env.lookup x = none := by
  constructor
  · intro h
    have h : Stmt.exec s stmt = (.ok (.value .absent), (Stmt.exec s stmt).2) := Prod.ext h rfl
    cases stmt with
    | declare x e =>
        obtain ⟨v, hv, ho, -⟩ := Stmt.exec_declare_eq_ok_iff.mp h
        cases ho
        exact absurd rfl (Expr.ne_absent_of_eval hs hv)
    | debug x =>
        have hreport : s.report x = .absent := by simpa [Stmt.exec] using h
        exact ⟨x, rfl, (Session.report_eq_absent_iff hs).mp hreport⟩
    | when c body =>
        -- a body that ran has a branch for its outcome, whatever its statements report
        obtain ⟨v, -, ⟨-, os, -, ho⟩ | ⟨-, ho, -⟩⟩ := Stmt.exec_when_eq_ok_iff.mp h
        · cases ho
        · cases ho
  · rintro ⟨x, rfl, hx⟩
    rw [Stmt.exec, (Session.report_eq_absent_iff hs).mpr hx]

/-- Where the absent value shows in a session, and where it does not: no name is bound to it and no
expression is worth it, and a statement has it for its outcome if and only if it is a debug
statement of a name that is not bound. -/
structure Session.Definite (s : Session) : Prop where
  bindings : ∀ b ∈ s.env.bindings, b.2 ≠ .absent
  eval : ∀ e : Expr, e.eval s.env ≠ .ok .absent
  exec : ∀ stmt : Stmt, (Stmt.exec s stmt).1 = .ok (.value .absent) ↔
    ∃ x, stmt = .debug x ∧ s.env.lookup x = none

theorem Session.definite_of_present (hs : s.env.Present) : s.Definite where
  bindings := hs
  eval _ h := Expr.ne_absent_of_eval hs h rfl
  exec _ := Stmt.exec_eq_absent_iff hs

end Outcomes

/-! ## Steps and runs -/

namespace Moment

variable {m n : Moment} {ds : List Deed}

theorem Step.present (h : Step m ds n) (hm : m.session.env.Present) : n.session.env.Present := by
  cases h with
  | declare hv => exact hm.define (Expr.ne_absent_of_eval hm hv)
  | debug => exact hm
  | enter _ _ => exact hm
  | skip _ _ => exact hm

theorem Leads.present (h : Leads m ds n) (hm : m.session.env.Present) :
    n.session.env.Present := by
  induction h with
  | refl _ => exact hm
  | step hs _ ih => exact ih (hs.present hm)

/-- Among the deeds done on the way, those with the absent value are the debug statements of names
that are not bound at the moment before. -/
theorem Leads.absent_iff (h : Leads m ds n) (hm : m.session.env.Present)
    {before behind : List Deed} {stmt : Stmt} {v : Value}
    (hds : ds = before ++ (stmt, v) :: behind) :
    ∃ l rest, Leads m before l ∧ l.todo = stmt :: rest ∧
      (v = .absent ↔ ∃ x, stmt = .debug x ∧ l.session.env.lookup x = none) := by
  obtain ⟨l, l', hl, hstep, -⟩ := h.split hds
  obtain ⟨⟨rest, htodo⟩, hexec⟩ := hstep.exec_eq
  refine ⟨l, rest, hl, htodo, ?_⟩
  rw [← Stmt.exec_eq_absent_iff (hl.present hm), hexec]
  simp

end Moment

/-! ## Requests -/

/-- What a session can be asked for: the value of an expression, a statement, or a program. -/
inductive Request where
  | expr (e : Expr)
  | stmt (stmt : Stmt)
  | program (p : Program)

namespace Session

/-- The session after a request, whether it succeeded or failed. -/
def after (s : Session) : Request → Session
  | .expr _ => s
  | .stmt stmt => (Stmt.exec s stmt).2
  | .program p => (Program.exec s p).2

/-- The session after requests, one after the other. -/
def serve (s : Session) (requests : List Request) : Session := requests.foldl after s

variable {s : Session}

theorem present_start (printer : Printer) : (start printer).env.Present := Environment.binds_empty

theorem present_exec (hs : s.env.Present) (p : Program) : (Program.exec s p).2.env.Present := by
  obtain ⟨ds, m, hds, hm, -⟩ := @Program.ends_of_exec p s _ _ rfl
  rw [← hm]
  exact hds.present hs

theorem present_after (hs : s.env.Present) (request : Request) : (s.after request).env.Present := by
  cases request with
  | expr _ => exact hs
  | stmt stmt =>
      -- a statement by itself is a program of one statement
      have h : (Program.exec s [stmt]).2 = (Stmt.exec s stmt).2 := by
        rw [Program.exec]
        rcases Stmt.exec s stmt with ⟨_ | _, _⟩ <;> rfl
      rw [after, ← h]
      exact present_exec hs [stmt]
  | program p => exact present_exec hs p

/-- No request binds a name to the absent value. -/
theorem present_serve (hs : s.env.Present) (requests : List Request) :
    (s.serve requests).env.Present := by
  induction requests generalizing s with
  | nil => exact hs
  | cons request requests ih => exact ih (present_after hs request)

/-- Whatever a session was asked for since its start, be it refused half-way, the session is
`Definite` at every moment of the next program.  That program leads to its end, or to where it
fails, by deeds; if it succeeds, these have the values of its outcomes.  A deed has the absent value
if and only if it is a debug statement of a name that is not bound at the moment before it. -/
theorem serve_definite {printer : Printer} {requests : List Request}
    (hs : s = (start printer).serve requests) (p : Program) :
    (∀ ds m, Moment.Leads ⟨p, s⟩ ds m → m.session.Definite) ∧
      ∃ result s' ds m, Program.exec s p = (result, s') ∧
        Moment.Leads ⟨p, s⟩ ds m ∧ m.session = s' ∧ m.Ends result ∧
        (∀ os, result = .ok os →
          ds.map Prod.fst = p.trace os ∧ ds.map Prod.snd = Outcome.leavesAll os) ∧
        ∀ before stmt v behind, ds = before ++ (stmt, v) :: behind →
          ∃ l rest, Moment.Leads ⟨p, s⟩ before l ∧ l.todo = stmt :: rest ∧
            (v = .absent ↔ ∃ x, stmt = .debug x ∧ l.session.env.lookup x = none) := by
  have hpresent : s.env.Present := hs ▸ present_serve (present_start printer) requests
  refine ⟨fun ds m hds => definite_of_present (hds.present hpresent), ?_⟩
  rcases hexec : Program.exec s p with ⟨error | os, s'⟩
  · obtain ⟨ds, m, hds, hm, hfails⟩ := Program.fails_of_exec hexec
    exact ⟨_, s', ds, m, rfl, hds, hm, hfails, nofun, fun _ _ _ _ => hds.absent_iff hpresent⟩
  · obtain ⟨ds, hds, hvalues⟩ := Program.leads_of_exec hexec
    refine ⟨_, s', ds, _, rfl, hds, rfl, rfl, ?_, fun _ _ _ _ => hds.absent_iff hpresent⟩
    rintro _ ⟨⟩
    exact hvalues

/-- After a debug statement, an expression and a program of which the last two fail, `a` is bound
and `b` is not. -/
theorem serve_definite_unbound :
    ∃ s s', s = (start .fresh).serve [.stmt (.debug "a"), .expr (.identifier "a"),
        .program [.declare "a" (.literal 1), .declare "b" (.identifier "missing")]] ∧
      s.env.bindings = [("a", .int 1)] ∧
      Program.exec s [.debug "a", .when (.identifier "a") [.debug "b", .declare "b" (.literal 2)]]
        = (.ok [.value (.int 1), .branch [.value .absent, .value (.int 2)]], s') ∧
      s'.Definite := by
  let s := (start .fresh).serve [.stmt (.debug "a"), .expr (.identifier "a"),
    .program [.declare "a" (.literal 1), .declare "b" (.identifier "missing")]]
  obtain ⟨hdefinite, result, s', ds, m, hexec, hds, rfl, -⟩ := @serve_definite s .fresh _ rfl
    [.debug "a", .when (.identifier "a") [.debug "b", .declare "b" (.literal 2)]]
  have hexec' : Program.exec s
    [.debug "a", .when (.identifier "a") [.debug "b", .declare "b" (.literal 2)]]
      = (.ok [.value (.int 1), .branch [.value .absent, .value (.int 2)]], _) := rfl
  have hend := Prod.mk.inj (hexec'.symm.trans hexec)
  refine ⟨s, m.session, rfl, rfl, ?_, hdefinite ds m hds⟩
  rw [hexec', hend.2]

end Session

end FlatScript
