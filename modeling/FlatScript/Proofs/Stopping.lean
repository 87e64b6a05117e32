import FlatScript.Proofs.Accounting

/-!
# Where a failing run stops

A run fails at a declaration or a condition whose expression has no value, possibly deep inside of
bodies that ran.  A `Place` is an occurrence of a statement: it keeps what stands before and behind
the statement in its own body and in every list around it.  `Reached` says that a run comes to a
place, and `Stops` that it goes no further.

* `exec_of_stops`, `exists_stops`: runs fail exactly as there are places where they stop;
* `Stops.eq_of_whole_eq`: a run stops at one place only;
* `Reached.leads`: the way to a place does the deeds of the program cut off there.

Main statement, `exec_error_stops`.
-/

namespace FlatScript

/-! ## Places -/

/-- An occurrence of a statement in a program: in its list, or in the body of a conditional. -/
inductive Place where
  | here (before : Program) (stmt : Stmt) (behind : Program)
  | inside (before : Program) (condition : Expr) (inner : Place) (behind : Program)

namespace Place

/-- The program that the place is in. -/
def whole : Place → Program
  | here before stmt behind => before ++ stmt :: behind
  | inside before condition inner behind => before ++ .when condition inner.whole :: behind

/-- The statement at the place. -/
def stmt : Place → Stmt
  | here _ stmt _ => stmt
  | inside _ _ inner _ => inner.stmt

/-- What stands behind the statement, in its own body and then in every list around it. -/
def behind : Place → Program
  | here _ _ behind => behind
  | inside _ _ inner behind => inner.behind ++ behind

/-- The program up to the place: the statement is missing, and with it all that stands behind it in
its own body and in every list around it. -/
def cut : Place → Program
  | here before _ _ => before
  | inside before condition inner _ => before ++ [.when condition inner.cut]

/-- The moment before the statement. -/
def moment (f : Place) (s : Session) : Moment := ⟨f.stmt :: f.behind, s⟩

end Place

/-- The expression that a statement needs the value of before it does anything. -/
def Stmt.subject? : Stmt → Option Expr
  | .declare _ e => some e
  | .debug _ => none
  | .when c _ => some c

namespace Place

/-- `f.Reached s t`: the run from `s` comes to the place `f` with the session `t`.  What stands
before it has run, and the conditions around it hold. -/
inductive Reached : Place → Session → Session → Prop
  | here {before behind : Program} {stmt : Stmt} {s t : Session} {os : List Outcome} :
      Program.exec s before = (.ok os, t) → Reached (here before stmt behind) s t
  | inside {before behind : Program} {c : Expr} {v : Value} {inner : Place} {s t u : Session}
      {os : List Outcome} : Program.exec s before = (.ok os, t) → c.eval t.env = .ok v →
      v.isTruthy = true → Reached inner t u → Reached (inside before c inner behind) s u

/-- The run from `s` comes to the place with the session `t`, and the statement there fails since
its expression has no value. -/
structure Stops (f : Place) (s t : Session) (error : EvalError) : Prop where
  reached : f.Reached s t
  fails : ∃ e ∈ f.stmt.subject?, e.eval t.env = .error error

variable {f g : Place} {s t t' : Session} {error error' : EvalError}

/-! ## Runs that stop -/

theorem exec_of_subject {stmt : Stmt} {e : Expr} (he : e ∈ stmt.subject?)
    (h : e.eval s.env = .error error) : Stmt.exec s stmt = (.error error, s) := by
  cases stmt with
  | declare x e' =>
      cases he
      exact Stmt.exec_declare_eq_error_iff.mpr ⟨h, rfl⟩
  | debug x => cases he
  | when c body =>
      cases he
      exact Stmt.exec_when_eq_error_iff.mpr (.inl ⟨h, rfl⟩)

/-- A program fails with the first of its statements that does. -/
theorem exec_append_of_stmt {before behind : Program} {stmt : Stmt} {os : List Outcome}
    {u : Session} (hbefore : Program.exec s before = (.ok os, t))
    (hstmt : Stmt.exec t stmt = (.error error, u)) :
    Program.exec s (before ++ stmt :: behind) = (.error error, u) := by
  have hrest : Program.exec t (stmt :: behind) = (.error error, u) :=
    Program.exec_cons_eq_error_iff.mpr (.inl hstmt)
  rw [Program.exec_append_of_ok hbefore, hrest]
  rfl

theorem exec_of_stops (h : f.Stops s t error) : Program.exec s f.whole = (.error error, t) := by
  obtain ⟨hreached, hfails⟩ := h
  induction hreached with
  | here hbefore =>
      obtain ⟨e, he, herror⟩ := hfails
      exact exec_append_of_stmt hbefore (exec_of_subject he herror)
  | inside hbefore hv ht _ ih =>
      exact exec_append_of_stmt hbefore
        (Stmt.exec_when_eq_error_iff.mpr (.inr ⟨_, hv, ht, ih hfails⟩))

mutual

theorem exists_stops_of_stmt : ∀ {stmt : Stmt} {before : Program} {os : List Outcome}
    {s t t' : Session}, Program.exec s before = (.ok os, t) →
      Stmt.exec t stmt = (.error error, t') → ∀ behind : Program,
        ∃ f : Place, f.whole = before ++ stmt :: behind ∧ f.Stops s t' error
  | .declare x e, before, os, s, t, t', hbefore, h, behind => by
      obtain ⟨he, rfl⟩ := Stmt.exec_declare_eq_error_iff.mp h
      exact ⟨here before _ behind, rfl, .here hbefore, e, rfl, he⟩
  | .debug x, before, os, s, t, t', hbefore, h, behind => by
      cases h
  | .when c body, before, os, s, t, t', hbefore, h, behind => by
      rcases Stmt.exec_when_eq_error_iff.mp h with ⟨hc, rfl⟩ | ⟨v, hv, ht, hbody⟩
      · exact ⟨here before _ behind, rfl, .here hbefore, c, rfl, hc⟩
      · have hnone : Program.exec t [] = (.ok [], t) := rfl
        obtain ⟨f, hwhole, hreached, hfails⟩ := exists_stops_of_program hnone hbody
        rw [List.nil_append] at hwhole
        exact ⟨inside before c f behind, hwhole ▸ rfl, .inside hbefore hv ht hreached, hfails⟩

theorem exists_stops_of_program : ∀ {p before : Program} {os : List Outcome}
    {s t t' : Session}, Program.exec s before = (.ok os, t) →
      Program.exec t p = (.error error, t') →
        ∃ f : Place, f.whole = before ++ p ∧ f.Stops s t' error
  | [], before, os, s, t, t', hbefore, h => by
      cases h
  | stmt :: p, before, os, s, t, t', hbefore, h => by
      rcases Program.exec_cons_eq_error_iff.mp h with hstmt | ⟨o, u, hstmt, hrest⟩
      · exact exists_stops_of_stmt hbefore hstmt p
      · have hnext : Program.exec s (before ++ [stmt]) = (.ok (os ++ [o]), u) := by
          rw [Program.exec_append_of_ok hbefore,
            Program.exec_cons_eq_ok_iff.mpr ⟨o, u, [], hstmt, rfl, rfl⟩]
          rfl
        rw [List.append_cons]
        exact exists_stops_of_program hnext hrest

end

/-- A run that fails stops somewhere. -/
theorem exists_stops {p : Program} (h : Program.exec s p = (.error error, t)) :
    ∃ f : Place, f.whole = p ∧ f.Stops s t error := by
  have hnone : Program.exec s [] = (.ok [], s) := rfl
  exact exists_stops_of_program hnone h

/-! ## There is one place to stop at -/

/-- A program is cut in one way only into what succeeds, a statement that fails, and the rest. -/
theorem split_unique {before before' behind behind' : Program} {stmt stmt' : Stmt}
    {os os' : List Outcome} {u u' : Session}
    (h : before ++ stmt :: behind = before' ++ stmt' :: behind')
    (hbefore : Program.exec s before = (.ok os, t))
    (hbefore' : Program.exec s before' = (.ok os', t'))
    (hstmt : Stmt.exec t stmt = (.error error, u))
    (hstmt' : Stmt.exec t' stmt' = (.error error', u')) :
    before = before' ∧ stmt = stmt' ∧ behind = behind' := by
  rcases List.append_eq_append_iff.mp h with ⟨between, hsplit, hrest⟩ | ⟨between, hsplit, hrest⟩
  · cases between with
    | nil =>
        rw [List.append_nil] at hsplit
        cases hrest
        exact ⟨hsplit.symm, rfl, rfl⟩
    | cons x between =>
        cases hrest
        rw [hsplit, exec_append_of_stmt hbefore hstmt] at hbefore'
        cases hbefore'
  · cases between with
    | nil =>
        rw [List.append_nil] at hsplit
        cases hrest
        exact ⟨hsplit, rfl, rfl⟩
    | cons x between =>
        cases hrest
        rw [hsplit, exec_append_of_stmt hbefore' hstmt'] at hbefore
        cases hbefore

theorem exec_when_of_stops {c : Expr} {v : Value} (hv : c.eval s.env = .ok v)
    (ht : v.isTruthy = true) (h : f.Stops s t error) :
    Stmt.exec s (.when c f.whole) = (.error error, t) :=
  Stmt.exec_when_eq_error_iff.mpr (.inr ⟨v, hv, ht, exec_of_stops h⟩)

/-- A run stops at one place only. -/
theorem Stops.eq_of_whole_eq (hf : f.Stops s t error) (hg : g.Stops s t' error')
    (h : f.whole = g.whole) : f = g := by
  obtain ⟨hreached, hfails⟩ := hf
  obtain ⟨hreached', hfails'⟩ := hg
  induction hreached generalizing g with
  | here hbefore =>
      obtain ⟨e, he, herror⟩ := hfails
      have hstmt := exec_of_subject he herror
      cases hreached' with
      | here hbefore' =>
          obtain ⟨e', he', herror'⟩ := hfails'
          obtain ⟨rfl, rfl, rfl⟩ :=
            split_unique h hbefore hbefore' hstmt (exec_of_subject he' herror')
          rfl
      | inside hbefore' hv ht hinner =>
          obtain ⟨rfl, rfl, rfl⟩ :=
            split_unique h hbefore hbefore' hstmt (exec_when_of_stops hv ht ⟨hinner, hfails'⟩)
          -- the condition would fail and hold
          cases hbefore.symm.trans hbefore'
          cases he
          cases herror.symm.trans hv
  | inside hbefore hv ht hinner ih =>
      have hstmt := exec_when_of_stops hv ht ⟨hinner, hfails⟩
      cases hreached' with
      | here hbefore' =>
          obtain ⟨e', he', herror'⟩ := hfails'
          obtain ⟨rfl, rfl, rfl⟩ :=
            split_unique h hbefore hbefore' hstmt (exec_of_subject he' herror')
          cases hbefore.symm.trans hbefore'
          cases he'
          cases herror'.symm.trans hv
      | inside hbefore' hv' ht' hinner' =>
          obtain ⟨rfl, hwhen, rfl⟩ := split_unique h hbefore hbefore' hstmt
            (exec_when_of_stops hv' ht' ⟨hinner', hfails'⟩)
          obtain ⟨rfl, hwhole⟩ := Stmt.when.inj hwhen
          cases hbefore.symm.trans hbefore'
          rw [ih hwhole hfails hinner' hfails']

/-! ## The way to a place -/

end Place

theorem Program.Mirrors.deeds_append : ∀ {p : Program} {os : List Outcome}, p.Mirrors os →
    ∀ (q : Program) (os' : List Outcome),
      (p ++ q).deeds (os ++ os') = p.deeds os ++ q.deeds os'
  | _, _, .nil, _, _ => rfl
  | _, _, .cons _ h, q, os' => by
      rw [List.cons_append, List.cons_append, deeds, deeds, h.deeds_append q os',
        List.append_assoc]

namespace Place

variable {f g : Place} {s t t' : Session} {error error' : EvalError}

/-- The program cut off at a place that a run comes to succeeds, and its deeds lead to the place. -/
theorem Reached.leads (h : f.Reached s t) :
    ∃ os, Program.exec s f.cut = (.ok os, t) ∧
      ∀ rest, Moment.Leads ⟨f.whole ++ rest, s⟩ (f.cut.deeds os)
        ⟨f.stmt :: (f.behind ++ rest), t⟩ := by
  induction h with
  | @here before behind stmt s t os hbefore =>
      refine ⟨os, hbefore, fun rest => ?_⟩
      rw [whole, List.append_assoc]
      exact Program.leads_deeds hbefore (stmt :: (behind ++ rest))
  | @inside before behind c v inner s t u os hbefore hv ht _ ih =>
      obtain ⟨os', hcut, hleads⟩ := ih
      have hwhen : Program.exec t [.when c inner.cut] = (.ok [.branch os'], u) :=
        Program.exec_cons_eq_ok_iff.mpr ⟨_, _, [],
          Stmt.exec_when_eq_ok_iff.mpr ⟨v, hv, .inl ⟨ht, os', hcut, rfl⟩⟩, rfl, rfl⟩
      refine ⟨os ++ [.branch os'], ?_, fun rest => ?_⟩
      · rw [cut, Program.exec_append_of_ok hbefore, hwhen]
        rfl
      · have hdeeds : Program.deeds [.when c inner.cut] [.branch os'] = inner.cut.deeds os' :=
          List.append_nil _
        have hbody := hleads (behind ++ rest)
        rw [← List.append_assoc inner.behind] at hbody
        rw [cut, (Program.mirrors_of_exec hbefore).deeds_append, hdeeds, whole, List.append_assoc]
        exact (Program.leads_deeds hbefore _).trans (.step (.enter hv ht) hbody)

theorem Stops.not_step (h : f.Stops s t error) {ds : List Deed} {m : Moment} :
    ¬ Moment.Step (f.moment t) ds m := by
  obtain ⟨-, e, he, herror⟩ := h
  have hfails : (f.moment t).Fails error := by
    rw [moment]
    cases hstmt : f.stmt with
    | declare x e' =>
        rw [hstmt] at he
        cases he
        exact .declare herror
    | debug x =>
        rw [hstmt] at he
        cases he
    | when c body =>
        rw [hstmt] at he
        cases he
        exact .condition herror
  exact hfails.not_step

/-- Every place that a run comes to leads on to the place where the run stops. -/
theorem Reached.onward (hg : g.Reached s t') (hf : f.Stops s t error) (h : g.whole = f.whole) :
    ∃ ds, Moment.Leads (g.moment t') ds (f.moment t) := by
  obtain ⟨os, -, hto⟩ := hg.leads
  obtain ⟨os', -, hstop⟩ := hf.reached.leads
  have hto := hto []
  have hstop := hstop []
  rw [List.append_nil, List.append_nil] at hto hstop
  rw [h] at hto
  obtain ⟨ds, hds, -⟩ := hto.onward hstop fun _ _ => hf.not_step
  exact ⟨ds, hds⟩

end Place

namespace Program

/-- A run that fails stops at one place, a declaration or a condition whose expression has the error
in the session of that moment.  Every place that the run comes to leads on to this one.  The session
stays what it was there: it is left behind by the program cut off at the place, which is without the
statement that failed and all that stands behind it, and also by the declarations and debug
statements done on the way, run as a flat program of their own. -/
theorem exec_error_stops {p : Program} {s s' : Session} {error : EvalError}
    (h : exec s p = (.error error, s')) :
    ∃ (f : Place) (os : List Outcome), f.whole = p ∧ f.Stops s s' error ∧
      (∀ (g : Place) (t : Session) (error' : EvalError), g.whole = p → g.Stops s t error' →
        g = f) ∧
      (∀ (g : Place) (t : Session), g.whole = p → g.Reached s t →
        ∃ ds, Moment.Leads (g.moment t) ds (f.moment s')) ∧
      exec s f.cut = (.ok os, s') ∧
      Moment.Leads ⟨p, s⟩ (f.cut.deeds os) (f.moment s') ∧
      (∀ stmt ∈ (f.cut.deeds os).map Prod.fst, ∀ c body, stmt ≠ .when c body) ∧
      exec s ((f.cut.deeds os).map Prod.fst)
        = (.ok ((f.cut.deeds os).map fun d => .value d.2), s') := by
  obtain ⟨f, rfl, hstops⟩ := Place.exists_stops h
  obtain ⟨os, hcut, hleads⟩ := hstops.reached.leads
  have hleads := hleads []
  rw [List.append_nil, List.append_nil] at hleads
  refine ⟨f, os, rfl, hstops, ?_, ?_, hcut, hleads, ?_, hleads.replay⟩
  · intro g t error' hwhole hg
    exact hg.eq_of_whole_eq hstops hwhole
  · intro g t hwhole hg
    exact hg.onward hstops hwhole
  · intro stmt hstmt
    rw [(mirrors_of_exec hcut).map_deeds.1] at hstmt
    exact ne_when_of_mem_flat ((trace_sublist_flat f.cut os).subset hstmt)

/-- `ye a = 1; if a { de a; ye b = a / 0; de a; } ye c = 2;` stops inside of the body, and leaves
behind what `ye a = 1; if a { de a; }` does. -/
theorem exec_error_stops_nested :
    ∃ (f : Place) (s' : Session), f.whole = [.declare "a" (.literal 1),
        .when (.identifier "a") [.debug "a",
          .declare "b" (.binary .div (.identifier "a") (.literal 0)), .debug "a"],
        .declare "c" (.literal 2)] ∧
      f.stmt = .declare "b" (.binary .div (.identifier "a") (.literal 0)) ∧
      f.cut = [.declare "a" (.literal 1), .when (.identifier "a") [.debug "a"]] ∧
      exec (.start .fresh) f.whole = (.error .divisionByZero, s') ∧
      s'.printer = .capturing "a = 1\n" ∧ s'.env.bindings = [("a", .int 1)] ∧
      exec (.start .fresh) f.cut = (.ok [.value (.int 1), .branch [.value (.int 1)]], s') ∧
      ∀ (g : Place) (t : Session) (error : EvalError), g.whole = f.whole →
        g.Stops (.start .fresh) t error → g = f := by
  let f : Place := .inside [.declare "a" (.literal 1)] (.identifier "a")
    (.here [.debug "a"] (.declare "b" (.binary .div (.identifier "a") (.literal 0)))
      [.debug "a"]) [.declare "c" (.literal 2)]
  have h : exec (.start .fresh) f.whole = (.error .divisionByZero, _) := rfl
  have hstops : f.Stops (.start .fresh) _ .divisionByZero :=
    ⟨.inside rfl rfl rfl (.here rfl), _, rfl, rfl⟩
  obtain ⟨f', -, -, -, hunique, -⟩ := exec_error_stops h
  obtain rfl : f = f' := hunique f _ _ rfl hstops
  exact ⟨f, _, rfl, rfl, rfl, h, rfl, rfl, rfl, hunique⟩

end Program

end FlatScript
