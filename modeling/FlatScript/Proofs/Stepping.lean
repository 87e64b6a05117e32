import FlatScript.Run.Session

/-!
# A run, one statement at a time

The run of a program is recursive: bodies run inside the run of their conditional, and between two
statements its state sits in the calls that are still open.  Here that state is data.  A `Moment`
is what is left to do together with the session so far; `Moment.Step` does one statement, and
`Moment.Leads` does any number of them and collects the deeds, which are the declarations and debug
statements done on the way with the values they had.

* `leads_of_exec`, `fails_of_exec`: every run goes through moments like these, up to its end or to
  the expression that fails;
* `Leads.replay`: the deeds done so far, run as a program of their own, lead to the same session.

Main statement, `exec_trace`: a run that succeeds is the run of its trace, a program without
conditionals.
-/

namespace FlatScript

/-! ## Traces and leaves -/

namespace Outcome

mutual

/-- The values declared or reported in an outcome, in order. -/
def leaves : Outcome → List Value
  | .value v => [v]
  | .branch outcomes => leavesAll outcomes
  | .skipped => []

/-- The values declared or reported in outcomes, in order. -/
def leavesAll : List Outcome → List Value
  | [] => []
  | outcome :: rest => leaves outcome ++ leavesAll rest

end

end Outcome

mutual

/-- The declarations and debug statements that ran in a statement with this outcome: those of a
body if it ran, and none of it if it was skipped. -/
def Stmt.trace : Stmt → Outcome → Program
  | .declare name value, _ => [.declare name value]
  | .debug name, _ => [.debug name]
  | .when _ body, .branch outcomes => Program.trace body outcomes
  | .when _ _, _ => []

/-- The declarations and debug statements that ran in a program with these outcomes. -/
def Program.trace : Program → List Outcome → Program
  | stmt :: rest, outcome :: outcomes => Stmt.trace stmt outcome ++ Program.trace rest outcomes
  | _, _ => []

end

mutual

/-- The declarations and debug statements in a statement, whether they run or not. -/
def Stmt.flat : Stmt → Program
  | .declare name value => [.declare name value]
  | .debug name => [.debug name]
  | .when _ body => Program.flat body

/-- The declarations and debug statements at all levels of a program, in order. -/
def Program.flat : Program → Program
  | [] => []
  | stmt :: rest => Stmt.flat stmt ++ Program.flat rest

end

/-! ## Moments -/

/-- A declaration or a debug statement, and the value that it declared or reported. -/
abbrev Deed := Stmt × Value

/-- What is left to do in a run, and the session so far. -/
structure Moment where
  todo : Program
  session : Session

namespace Moment

/-- One statement is done: a declaration or a debug statement as a deed, a conditional by putting
its body in front of what is left or by dropping it. -/
inductive Step : Moment → List Deed → Moment → Prop
  | declare {s : Session} {x : String} {e : Expr} {v : Value} {rest : Program} :
      e.eval s.env = .ok v →
      Step ⟨.declare x e :: rest, s⟩ [(.declare x e, v)] ⟨rest, s.define x v⟩
  | debug {s : Session} {x : String} {rest : Program} :
      Step ⟨.debug x :: rest, s⟩ [(.debug x, s.report x)]
        ⟨rest, s.print (debugLine x (s.report x))⟩
  | enter {s : Session} {c : Expr} {v : Value} {body rest : Program} :
      c.eval s.env = .ok v → v.isTruthy = true →
      Step ⟨.when c body :: rest, s⟩ [] ⟨body ++ rest, s⟩
  | skip {s : Session} {c : Expr} {v : Value} {body rest : Program} :
      c.eval s.env = .ok v → v.isTruthy = false →
      Step ⟨.when c body :: rest, s⟩ [] ⟨rest, s⟩

/-- `m.Leads ds n`: statement after statement, the deeds lead from `m` to `n`. -/
inductive Leads : Moment → List Deed → Moment → Prop
  | refl (m : Moment) : Leads m [] m
  | step {l m n : Moment} {ds es : List Deed} : Step l ds m → Leads m es n → Leads l (ds ++ es) n

/-- The next statement cannot be done, since its expression has no value. -/
inductive Fails : Moment → EvalError → Prop
  | declare {s : Session} {x : String} {e : Expr} {rest : Program} {error : EvalError} :
      e.eval s.env = .error error → Fails ⟨.declare x e :: rest, s⟩ error
  | condition {s : Session} {c : Expr} {body rest : Program} {error : EvalError} :
      c.eval s.env = .error error → Fails ⟨.when c body :: rest, s⟩ error

variable {l m n : Moment} {ds es : List Deed}

theorem Step.leads (h : Step m ds n) : Leads m ds n := by
  have h' := Leads.step h (.refl n)
  rwa [List.append_nil] at h'

theorem Leads.trans (h : Leads l ds m) (k : Leads m es n) : Leads l (ds ++ es) n := by
  induction h with
  | refl m => exact k
  | step hs _ ih =>
      rw [List.append_assoc]
      exact .step hs (ih k)

/-- There is one next step at most. -/
theorem Step.deterministic (h : Step l ds m) (k : Step l es n) : ds = es ∧ m = n := by
  cases h with
  | declare hv =>
      cases k with
      | declare hw =>
          cases hv.symm.trans hw
          exact ⟨rfl, rfl⟩
  | debug =>
      cases k with
      | debug => exact ⟨rfl, rfl⟩
  | enter hv ht =>
      cases k with
      | enter hw _ => exact ⟨rfl, rfl⟩
      | skip hw hf =>
          cases hv.symm.trans hw
          cases ht.symm.trans hf
  | skip hv hf =>
      cases k with
      | enter hw ht =>
          cases hv.symm.trans hw
          cases ht.symm.trans hf
      | skip hw _ => exact ⟨rfl, rfl⟩

theorem Fails.not_step {error : EvalError} (h : Fails m error) : ¬ Step m ds n := by
  intro hs
  cases h with
  | declare he =>
      cases hs with
      | declare hv => cases he.symm.trans hv
  | condition hc =>
      cases hs with
      | enter hv _ => cases hc.symm.trans hv
      | skip hv _ => cases hc.symm.trans hv

theorem Fails.unique {error error' : EvalError} (h : Fails m error) (h' : Fails m error') :
    error = error' := by
  cases h with
  | declare he =>
      cases h' with
      | declare he' => exact Except.error.inj (he.symm.trans he')
  | condition hc =>
      cases h' with
      | condition hc' => exact Except.error.inj (hc.symm.trans hc')

/-- A moment on the way leads on to the moment at which the way ends. -/
theorem Leads.onward (h : Leads l ds m) (k : Leads l es n) (hn : ∀ fs o, ¬ Step n fs o) :
    ∃ fs, Leads m fs n ∧ es = ds ++ fs := by
  induction h generalizing es with
  | refl m => exact ⟨es, k, rfl⟩
  | step hs _ ih =>
      cases k with
      | refl _ => exact absurd hs (hn _ _)
      | step ks k =>
          obtain ⟨rfl, rfl⟩ := hs.deterministic ks
          obtain ⟨fs, hfs, rfl⟩ := ih k
          exact ⟨fs, hfs, (List.append_assoc _ _ _).symm⟩

end Moment

/-! ## What a run does, by its result -/

section Results

variable {s s' : Session} {error : EvalError}

theorem Stmt.exec_declare_eq_ok_iff {x : String} {e : Expr} {o : Outcome} :
    Stmt.exec s (.declare x e) = (.ok o, s') ↔
      ∃ v, e.eval s.env = .ok v ∧ o = .value v ∧ s' = s.define x v := by
  rw [Stmt.exec]
  constructor
  · intro h
    split at h
    · next v hv =>
        cases h
        exact ⟨v, hv, rfl, rfl⟩
    · cases h
  · rintro ⟨v, hv, rfl, rfl⟩
    rw [hv]

theorem Stmt.exec_declare_eq_error_iff {x : String} {e : Expr} :
    Stmt.exec s (.declare x e) = (.error error, s') ↔
      e.eval s.env = .error error ∧ s' = s := by
  rw [Stmt.exec]
  constructor
  · intro h
    split at h
    · cases h
    · next error he =>
        cases h
        exact ⟨he, rfl⟩
  · rintro ⟨he, rfl⟩
    rw [he]

theorem Stmt.exec_when_eq_ok_iff {c : Expr} {body : Program} {o : Outcome} :
    Stmt.exec s (.when c body) = (.ok o, s') ↔
      ∃ v, c.eval s.env = .ok v ∧
        ((v.isTruthy = true ∧ ∃ os, Program.exec s body = (.ok os, s') ∧ o = .branch os) ∨
          (v.isTruthy = false ∧ o = .skipped ∧ s' = s)) := by
  rw [Stmt.exec]
  constructor
  · intro h
    split at h
    · cases h
    · next v hv =>
        split at h
        · next ht =>
            split at h
            · next os t hos =>
                cases h
                exact ⟨v, hv, .inl ⟨ht, os, hos, rfl⟩⟩
            · cases h
        · next hf =>
            cases h
            exact ⟨v, hv, .inr ⟨Bool.eq_false_iff.mpr hf, rfl, rfl⟩⟩
  · rintro ⟨v, hv, ⟨ht, os, hos, rfl⟩ | ⟨hf, rfl, rfl⟩⟩
    · rw [hv]
      dsimp only
      rw [if_pos ht, hos]
    · rw [hv]
      exact if_neg (Bool.eq_false_iff.mp hf)

theorem Stmt.exec_when_eq_error_iff {c : Expr} {body : Program} :
    Stmt.exec s (.when c body) = (.error error, s') ↔
      (c.eval s.env = .error error ∧ s' = s) ∨
        ∃ v, c.eval s.env = .ok v ∧ v.isTruthy = true ∧
          Program.exec s body = (.error error, s') := by
  rw [Stmt.exec]
  constructor
  · intro h
    split at h
    · next hc =>
        cases h
        exact .inl ⟨hc, rfl⟩
    · next v hv =>
        split at h
        · next ht =>
            split at h
            · cases h
            · next hbody =>
                cases h
                exact .inr ⟨v, hv, ht, hbody⟩
        · cases h
  · rintro (⟨hc, rfl⟩ | ⟨v, hv, ht, hbody⟩)
    · rw [hc]
    · rw [hv]
      dsimp only
      rw [if_pos ht, hbody]

theorem Program.exec_cons_eq_ok_iff {stmt : Stmt} {rest : Program} {os : List Outcome} :
    Program.exec s (stmt :: rest) = (.ok os, s') ↔
      ∃ o t os', Stmt.exec s stmt = (.ok o, t) ∧ Program.exec t rest = (.ok os', s') ∧
        os = o :: os' := by
  rw [Program.exec]
  constructor
  · intro h
    split at h
    · cases h
    · next o t hstmt =>
        split at h
        · next os' t' hrest =>
            cases h
            exact ⟨o, t, os', hstmt, hrest, rfl⟩
        · cases h
  · rintro ⟨o, t, os', hstmt, hrest, rfl⟩
    rw [hstmt]
    dsimp only
    rw [hrest]

theorem Program.exec_cons_eq_error_iff {stmt : Stmt} {rest : Program} :
    Program.exec s (stmt :: rest) = (.error error, s') ↔
      Stmt.exec s stmt = (.error error, s') ∨
        ∃ o t, Stmt.exec s stmt = (.ok o, t) ∧ Program.exec t rest = (.error error, s') := by
  rw [Program.exec]
  constructor
  · intro h
    split at h
    · next hstmt =>
        cases h
        exact .inl hstmt
    · next o t hstmt =>
        split at h
        · cases h
        · next hrest =>
            cases h
            exact .inr ⟨o, t, hstmt, hrest⟩
  · rintro (hstmt | ⟨o, t, hstmt, hrest⟩)
    · rw [hstmt]
    · rw [hstmt]
      dsimp only
      rw [hrest]

/-- A program runs on behind one that succeeded. -/
theorem Program.exec_append_of_ok {p : Program} {os : List Outcome}
    (h : Program.exec s p = (.ok os, s')) (q : Program) :
    Program.exec s (p ++ q)
      = ((Program.exec s' q).1.map (os ++ ·), (Program.exec s' q).2) := by
  induction p generalizing s os with
  | nil =>
      cases h
      rw [List.nil_append]
      rcases Program.exec s' q with ⟨_ | _, _⟩ <;> rfl
  | cons stmt p ih =>
      obtain ⟨o, t, os', hstmt, hrest, rfl⟩ := Program.exec_cons_eq_ok_iff.mp h
      rw [List.cons_append, Program.exec, hstmt]
      dsimp only
      rw [ih hrest]
      rcases Program.exec s' q with ⟨_ | _, _⟩ <;> rfl

/-- Nothing runs behind a program that failed. -/
theorem Program.exec_append_of_error {p : Program} (h : Program.exec s p = (.error error, s'))
    (q : Program) : Program.exec s (p ++ q) = (.error error, s') := by
  induction p generalizing s with
  | nil => cases h
  | cons stmt p ih =>
      rw [List.cons_append]
      refine Program.exec_cons_eq_error_iff.mpr ?_
      rcases Program.exec_cons_eq_error_iff.mp h with hstmt | ⟨o, t, hstmt, hrest⟩
      · exact .inl hstmt
      · exact .inr ⟨o, t, hstmt, ih hrest⟩

/-- Two programs, one behind the other, succeed if each of them does in turn. -/
theorem Program.exec_append_eq_ok_iff {p q : Program} {os : List Outcome} :
    Program.exec s (p ++ q) = (.ok os, s') ↔
      ∃ os₁ t os₂, Program.exec s p = (.ok os₁, t) ∧ Program.exec t q = (.ok os₂, s') ∧
        os = os₁ ++ os₂ := by
  constructor
  · intro h
    rcases hp : Program.exec s p with ⟨_ | os₁, t⟩
    · cases (Program.exec_append_of_error hp q).symm.trans h
    · rw [Program.exec_append_of_ok hp] at h
      rcases hq : Program.exec t q with ⟨_ | os₂, t'⟩
      all_goals
        rw [hq] at h
        cases h
      exact ⟨os₁, t, os₂, rfl, hq, rfl⟩
  · rintro ⟨os₁, t, os₂, hp, hq, rfl⟩
    rw [Program.exec_append_of_ok hp, hq]
    rfl

end Results

/-! ## Runs go through moments -/

namespace Moment

mutual

theorem leads_of_execStmt : ∀ {stmt : Stmt} {s s' : Session} {o : Outcome},
    Stmt.exec s stmt = (.ok o, s') → ∀ rest : Program,
      ∃ ds, Leads ⟨stmt :: rest, s⟩ ds ⟨rest, s'⟩ ∧
        ds.map Prod.fst = stmt.trace o ∧ ds.map Prod.snd = o.leaves
  | .declare x e, s, s', o, h, rest => by
      obtain ⟨v, hv, rfl, rfl⟩ := Stmt.exec_declare_eq_ok_iff.mp h
      exact ⟨_, (Step.declare hv).leads, rfl, rfl⟩
  | .debug x, s, s', o, h, rest => by
      cases h
      exact ⟨_, Step.debug.leads, rfl, rfl⟩
  | .when c body, s, s', o, h, rest => by
      obtain ⟨v, hv, ⟨ht, os, hos, rfl⟩ | ⟨hf, rfl, rfl⟩⟩ := Stmt.exec_when_eq_ok_iff.mp h
      · obtain ⟨ds, hds, htrace, hleaves⟩ := leads_of_exec hos rest
        exact ⟨ds, .step (.enter hv ht) hds, htrace, hleaves⟩
      · exact ⟨[], (Step.skip hv hf).leads, rfl, rfl⟩

/-- A run that succeeds leads to its end, and its deeds are its trace with the values of its
outcomes. -/
theorem leads_of_exec : ∀ {p : Program} {s s' : Session} {os : List Outcome},
    Program.exec s p = (.ok os, s') → ∀ rest : Program,
      ∃ ds, Leads ⟨p ++ rest, s⟩ ds ⟨rest, s'⟩ ∧
        ds.map Prod.fst = p.trace os ∧ ds.map Prod.snd = Outcome.leavesAll os
  | [], s, s', os, h, rest => by
      cases h
      exact ⟨[], .refl _, rfl, rfl⟩
  | stmt :: p, s, s', os, h, rest => by
      obtain ⟨o, t, os', hstmt, hrest, rfl⟩ := Program.exec_cons_eq_ok_iff.mp h
      obtain ⟨ds, hds, htrace, hleaves⟩ := leads_of_execStmt hstmt (p ++ rest)
      obtain ⟨es, hes, htrace', hleaves'⟩ := leads_of_exec hrest rest
      refine ⟨ds ++ es, hds.trans hes, ?_, ?_⟩
      · rw [List.map_append, htrace, htrace', Program.trace]
      · rw [List.map_append, hleaves, hleaves', Outcome.leavesAll]

end

mutual

theorem fails_of_execStmt : ∀ {stmt : Stmt} {s s' : Session} {error : EvalError},
    Stmt.exec s stmt = (.error error, s') → ∀ rest : Program,
      ∃ ds m, Leads ⟨stmt :: rest, s⟩ ds m ∧ m.session = s' ∧ m.Fails error
  | .declare x e, s, s', error, h, rest => by
      obtain ⟨he, rfl⟩ := Stmt.exec_declare_eq_error_iff.mp h
      exact ⟨[], _, .refl _, rfl, .declare he⟩
  | .debug x, s, s', error, h, rest => by
      cases h
  | .when c body, s, s', error, h, rest => by
      rcases Stmt.exec_when_eq_error_iff.mp h with ⟨hc, rfl⟩ | ⟨v, hv, ht, hbody⟩
      · exact ⟨[], _, .refl _, rfl, .condition hc⟩
      · obtain ⟨ds, m, hds, hm, hfails⟩ := fails_of_exec hbody rest
        exact ⟨ds, m, .step (.enter hv ht) hds, hm, hfails⟩

/-- A run that fails leads to a moment whose next statement fails, and the session stays as it is
there. -/
theorem fails_of_exec : ∀ {p : Program} {s s' : Session} {error : EvalError},
    Program.exec s p = (.error error, s') → ∀ rest : Program,
      ∃ ds m, Leads ⟨p ++ rest, s⟩ ds m ∧ m.session = s' ∧ m.Fails error
  | [], s, s', error, h, rest => by
      cases h
  | stmt :: p, s, s', error, h, rest => by
      rcases Program.exec_cons_eq_error_iff.mp h with hstmt | ⟨o, t, hstmt, hrest⟩
      · exact fails_of_execStmt hstmt (p ++ rest)
      · obtain ⟨ds, hds, -⟩ := leads_of_execStmt hstmt (p ++ rest)
        obtain ⟨es, m, hes, hm, hfails⟩ := fails_of_exec hrest rest
        exact ⟨ds ++ es, m, hds.trans hes, hm, hfails⟩

end

end Moment

/-- A program that succeeds, from its first statement to its last. -/
theorem Program.leads_of_exec {p : Program} {s s' : Session} {os : List Outcome}
    (h : Program.exec s p = (.ok os, s')) :
    ∃ ds, Moment.Leads ⟨p, s⟩ ds ⟨[], s'⟩ ∧
      ds.map Prod.fst = p.trace os ∧ ds.map Prod.snd = Outcome.leavesAll os := by
  simpa using Moment.leads_of_exec h []

/-- A program that fails, up to the statement that fails. -/
theorem Program.fails_of_exec {p : Program} {s s' : Session} {error : EvalError}
    (h : Program.exec s p = (.error error, s')) :
    ∃ ds m, Moment.Leads ⟨p, s⟩ ds m ∧ m.session = s' ∧ m.Fails error := by
  simpa using Moment.fails_of_exec h []

namespace Moment

/-! ## Where runs end -/

/-- The moment at which a run with this result ends: nothing is left to do, or the next statement
fails with the error. -/
def Ends {α : Type} (m : Moment) : Except EvalError α → Prop
  | .ok _ => m.todo = []
  | .error error => m.Fails error

theorem Ends.not_step {α : Type} {m n : Moment} {ds : List Deed} {r : Except EvalError α}
    (h : m.Ends r) : ¬ Step m ds n := by
  cases r with
  | ok _ =>
      intro hs
      cases hs <;> cases h
  | error _ => exact Fails.not_step h

/-- From one moment there is one way to an end. -/
theorem Leads.eq_of_ends {α : Type} {l m n : Moment} {ds es : List Deed}
    {r r' : Except EvalError α} (h : Leads l ds m) (k : Leads l es n) (hm : m.Ends r)
    (hn : n.Ends r') : ds = es ∧ m = n := by
  obtain ⟨fs, hfs, rfl⟩ := h.onward k fun _ _ => hn.not_step
  cases hfs with
  | refl _ => exact ⟨(List.append_nil ds).symm, rfl⟩
  | step hs _ => exact absurd hs hm.not_step

end Moment

/-- A run leads from the first statement to its end. -/
theorem Program.ends_of_exec {p : Program} {s s' : Session} {r : Except EvalError (List Outcome)}
    (h : Program.exec s p = (r, s')) :
    ∃ ds m, Moment.Leads ⟨p, s⟩ ds m ∧ m.session = s' ∧ m.Ends r := by
  cases r with
  | ok os =>
      obtain ⟨ds, hds, -⟩ := Program.leads_of_exec h
      exact ⟨ds, _, hds, rfl, rfl⟩
  | error error => exact Program.fails_of_exec h

namespace Moment

/-! ## One deed of many -/

/-- A step does one deed at most. -/
theorem Step.deeds {m n : Moment} {ds : List Deed} (h : Step m ds n) :
    ds = [] ∨ ∃ d, ds = [d] := by
  cases h with
  | declare _ => exact .inr ⟨_, rfl⟩
  | debug => exact .inr ⟨_, rfl⟩
  | enter _ _ => exact .inl rfl
  | skip _ _ => exact .inl rfl

/-- A deed is the next statement, run by itself. -/
theorem Step.exec_eq {m n : Moment} {d : Deed} (h : Step m [d] n) :
    (∃ rest, m.todo = d.1 :: rest) ∧ Stmt.exec m.session d.1 = (.ok (.value d.2), n.session) := by
  cases h with
  | declare hv => exact ⟨⟨_, rfl⟩, Stmt.exec_declare_eq_ok_iff.mpr ⟨_, hv, rfl, rfl⟩⟩
  | debug => exact ⟨⟨_, rfl⟩, rfl⟩

/-- Before each deed there is a moment that the deeds in front of it lead to. -/
theorem Leads.split {l n : Moment} {ds before behind : List Deed} {d : Deed} (h : Leads l ds n)
    (hds : ds = before ++ d :: behind) :
    ∃ m m', Leads l before m ∧ Step m [d] m' ∧ Leads m' behind n := by
  induction h generalizing before with
  | refl _ => exact absurd hds.symm (List.append_ne_nil_of_right_ne_nil _ (List.cons_ne_nil _ _))
  | @step l m n fs gs hs hrest ih =>
      rcases hs.deeds with rfl | ⟨e, rfl⟩
      · obtain ⟨k, k', hk, hd, hk'⟩ := ih hds
        exact ⟨k, k', .step hs hk, hd, hk'⟩
      · rcases before with _ | ⟨e', before⟩
        · obtain ⟨rfl, rfl⟩ := List.cons.inj hds
          exact ⟨l, m, .refl l, hs, hrest⟩
        · obtain ⟨rfl, hgs⟩ := List.cons.inj hds
          obtain ⟨k, k', hk, hd, hk'⟩ := ih hgs
          exact ⟨k, k', .step hs hk, hd, hk'⟩

/-! ## Deeds can be replayed -/

theorem Step.replay {m n : Moment} {ds : List Deed} (h : Step m ds n) {p : Program}
    {os : List Outcome} {s : Session} (hp : Program.exec n.session p = (.ok os, s)) :
    Program.exec m.session (ds.map Prod.fst ++ p)
      = (.ok (ds.map (fun d => .value d.2) ++ os), s) := by
  cases h with
  | declare hv =>
      exact Program.exec_cons_eq_ok_iff.mpr
        ⟨_, _, os, Stmt.exec_declare_eq_ok_iff.mpr ⟨_, hv, rfl, rfl⟩, hp, rfl⟩
  | debug => exact Program.exec_cons_eq_ok_iff.mpr ⟨_, _, os, rfl, hp, rfl⟩
  | enter _ _ => exact hp
  | skip _ _ => exact hp

/-- The deeds done so far are a program that leads to the same session. -/
theorem Leads.replay {m n : Moment} {ds : List Deed} (h : Leads m ds n) :
    Program.exec m.session (ds.map Prod.fst)
      = (.ok (ds.map fun d => .value d.2), n.session) := by
  induction h with
  | refl m => rfl
  | step hs _ ih =>
      rw [List.map_append, List.map_append]
      exact hs.replay ih

end Moment

/-! ## The trace of a run -/

mutual

theorem Stmt.trace_sublist_flat : ∀ (stmt : Stmt) (o : Outcome), (stmt.trace o).Sublist stmt.flat
  | .declare _ _, _ => .refl _
  | .debug _, _ => .refl _
  | .when _ body, .branch os => Program.trace_sublist_flat body os
  | .when _ _, .value _ => List.nil_sublist _
  | .when _ _, .skipped => List.nil_sublist _

/-- A trace leaves statements out, and neither repeats nor moves any. -/
theorem Program.trace_sublist_flat : ∀ (p : Program) (os : List Outcome),
    (p.trace os).Sublist p.flat
  | [], _ => List.nil_sublist _
  | _ :: _, [] => List.nil_sublist _
  | stmt :: p, o :: os => (stmt.trace_sublist_flat o).append (Program.trace_sublist_flat p os)

end

mutual

theorem Stmt.ne_when_of_mem_flat : ∀ {stmt t : Stmt}, t ∈ stmt.flat → ∀ c body, t ≠ .when c body
  | .declare _ _, t, h => by
      cases List.mem_singleton.mp h
      nofun
  | .debug _, t, h => by
      cases List.mem_singleton.mp h
      nofun
  | .when _ _, t, h => Program.ne_when_of_mem_flat h

theorem Program.ne_when_of_mem_flat : ∀ {p : Program} {t : Stmt}, t ∈ p.flat →
    ∀ c body, t ≠ .when c body
  | [], _, h => nomatch h
  | _ :: _, _, h =>
      (List.mem_append.mp h).elim Stmt.ne_when_of_mem_flat Program.ne_when_of_mem_flat

end

namespace Program

/-- A run that succeeds does, one after the other, the statements of its trace with the values of
its outcomes.  The trace is flat and in the order of the program, and run by itself from the same
session it has these values and leads to the same session. -/
theorem exec_trace {p : Program} {s s' : Session} {os : List Outcome}
    (h : exec s p = (.ok os, s')) :
    (∃ ds, Moment.Leads ⟨p, s⟩ ds ⟨[], s'⟩ ∧
        ds.map Prod.fst = p.trace os ∧ ds.map Prod.snd = Outcome.leavesAll os) ∧
      (p.trace os).Sublist p.flat ∧ (∀ stmt ∈ p.trace os, ∀ c body, stmt ≠ .when c body) ∧
      exec s (p.trace os) = (.ok ((Outcome.leavesAll os).map .value), s') := by
  obtain ⟨ds, hds, htrace, hleaves⟩ := Moment.leads_of_exec h []
  rw [List.append_nil] at hds
  have hsub := trace_sublist_flat p os
  refine ⟨⟨ds, hds, htrace, hleaves⟩, hsub, ?_, ?_⟩
  · intro stmt hstmt
    exact ne_when_of_mem_flat (hsub.subset hstmt)
  · have hreplay := hds.replay
    rw [htrace] at hreplay
    rw [hreplay, ← hleaves, List.map_map]
    rfl

/-- `ye a = 1; if a { de a; if 0 { de b; } }` runs as `ye a = 1; de a;` does. -/
theorem exec_trace_nested :
    ∃ s', exec (.start .fresh) [.declare "a" (.literal 1),
        .when (.identifier "a") [.debug "a", .when (.literal 0) [.debug "b"]]]
          = (.ok [.value (.int 1), .branch [.value (.int 1), .skipped]], s') ∧
      exec (.start .fresh) [.declare "a" (.literal 1), .debug "a"]
          = (.ok [.value (.int 1), .value (.int 1)], s') := by
  have h : exec (.start .fresh) [.declare "a" (.literal 1),
      .when (.identifier "a") [.debug "a", .when (.literal 0) [.debug "b"]]]
        = (.ok [.value (.int 1), .branch [.value (.int 1), .skipped]], _) := rfl
  exact ⟨_, h, (exec_trace h).2.2.2⟩

end Program

end FlatScript
