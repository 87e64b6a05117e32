import FlatScript.Proofs.Bindings
import FlatScript.Proofs.Faults
import FlatScript.Proofs.Names
import FlatScript.Proofs.Stepping

/-!
# Names are declared before they are read

A name that is read has to be bound by then, and whether it is depends on the run: a body may be
skipped.  `Program.Assigned` is a check that does not run anything.  It goes through the statements
with the names that are bound for certain, and forgets behind a body what was declared in it.

In a run no name goes out of scope (`Leads.names_subset`), so at every moment the names bound
include those that the check counts on.  What a run keeps up is therefore that the rest of the
program passes the check from all the names bound so far (`Step.assigned`, `Leads.assigned`).

Main statement, `exec_assigned`.
-/

namespace FlatScript

/-! ## The check -/

/-- What is bound for certain behind a statement: what was, and the name that it declares. -/
def Stmt.extend (bound : List String) : Stmt → List String
  | .declare x _ => x :: bound
  | .debug _ => bound
  | .when _ _ => bound

mutual

/-- The statement reads bound names only.  A debug statement may print what is not bound. -/
def Stmt.Assigned (bound : List String) : Stmt → Prop
  | .declare _ value => value.names ⊆ bound
  | .debug _ => True
  | .when condition body => condition.names ⊆ bound ∧ Program.Assigned bound body

/-- Each statement reads only names that are bound from the start or declared in front of it. -/
def Program.Assigned (bound : List String) : Program → Prop
  | [] => True
  | stmt :: rest => Stmt.Assigned bound stmt ∧ Program.Assigned (stmt.extend bound) rest

end

mutual

instance Stmt.decidableAssigned (bound : List String) :
    (stmt : Stmt) → Decidable (stmt.Assigned bound)
  | .declare _ value => inferInstanceAs (Decidable (value.names ⊆ bound))
  | .debug _ => .isTrue trivial
  | .when condition body =>
      have := Program.decidableAssigned bound body
      inferInstanceAs (Decidable (condition.names ⊆ bound ∧ Program.Assigned bound body))

instance Program.decidableAssigned (bound : List String) :
    (p : Program) → Decidable (p.Assigned bound)
  | [] => .isTrue trivial
  | stmt :: rest =>
      have := Stmt.decidableAssigned bound stmt
      have := Program.decidableAssigned (stmt.extend bound) rest
      inferInstanceAs
        (Decidable (Stmt.Assigned bound stmt ∧ Program.Assigned (stmt.extend bound) rest))

end

section Check

variable {A B : List String}

theorem Stmt.subset_extend (stmt : Stmt) : B ⊆ stmt.extend B := by
  cases stmt with
  | declare x e => exact List.subset_cons_self x B
  | debug x => exact List.Subset.refl _
  | when c body => exact List.Subset.refl _

theorem Stmt.extend_subset_extend (h : A ⊆ B) (stmt : Stmt) : stmt.extend A ⊆ stmt.extend B := by
  cases stmt with
  | declare x e => exact List.cons_subset_cons x h
  | debug x => exact h
  | when c body => exact h

mutual

/-- More bound names do no harm. -/
theorem Stmt.Assigned.mono : ∀ {stmt : Stmt} {A B : List String},
    A ⊆ B → stmt.Assigned A → stmt.Assigned B
  | .declare _ _, _, _, h, hs => List.Subset.trans hs h
  | .debug _, _, _, _, _ => trivial
  | .when _ _, _, _, h, hs => ⟨List.Subset.trans hs.1 h, hs.2.mono h⟩

theorem Program.Assigned.mono : ∀ {p : Program} {A B : List String},
    A ⊆ B → p.Assigned A → p.Assigned B
  | [], _, _, _, _ => trivial
  | stmt :: _, _, _, h, hp => ⟨hp.1.mono h, hp.2.mono (stmt.extend_subset_extend h)⟩

end

/-- What passes the check passes it behind other statements. -/
theorem Program.Assigned.append {p q : Program} (hp : p.Assigned B) (hq : q.Assigned B) :
    Program.Assigned B (p ++ q) := by
  induction p generalizing B with
  | nil => exact hq
  | cons stmt p ih => exact ⟨hp.1, ih hp.2 (hq.mono stmt.subset_extend)⟩

end Check

/-! ## Expressions -/

/-- No operator is refused for a name. -/
theorem Operator.Refuses.ne_unbound {op : Operator} {p q : Quantity} {error : EvalError}
    (h : op.Refuses p q error) (x : String) : error ≠ .unboundIdentifier x := by
  cases h with
  | mixed _ _ => nofun
  | zeroDivisor _ => nofun
  | overflow _ _ => nofun

/-- The name that an expression fails for is one that it reads, and is not bound. -/
theorem Expr.unbound_of_eval {e : Expr} {env : Environment} {x : String}
    (h : e.eval env = .error (.unboundIdentifier x)) : x ∈ e.names ∧ x ∉ env.names := by
  induction e with
  | literal n => cases h
  | identifier y =>
      rw [eval] at h
      split at h
      · cases h
      · next hy =>
          cases h
          simp [names, Environment.mem_names_iff, Environment.contains, hy]
  | binary op left right ihl ihr =>
      simp only [names, List.mem_append]
      rcases bind_eq_error_iff.mp h with h | ⟨l, -, h⟩
      · exact ⟨.inl (ihl h).1, (ihl h).2⟩
      · rcases bind_eq_error_iff.mp h with h | ⟨r, -, h⟩
        · exact ⟨.inr (ihr h).1, (ihr h).2⟩
        · exact absurd rfl ((Operator.apply_of_error h).ne_unbound x)

/-! ## Steps and runs -/

namespace Moment

/-- The names bound at a moment. -/
abbrev names (m : Moment) : List String := m.session.env.names

/-- What is left to do passes the check from the names bound so far. -/
def Assigned (m : Moment) : Prop := m.todo.Assigned m.names

variable {m n : Moment} {ds : List Deed} {error : EvalError}

/-- A step binds a name or leaves the names as they are. -/
theorem Step.names_subset (h : Step m ds n) : m.names ⊆ n.names := by
  cases h with
  | declare _ =>
      intro x hx
      exact Environment.mem_names_define.mpr (.inr hx)
  | debug => exact List.Subset.refl _
  | enter _ _ => exact List.Subset.refl _
  | skip _ _ => exact List.Subset.refl _

theorem Leads.names_subset (h : Leads m ds n) : m.names ⊆ n.names := by
  induction h with
  | refl m => exact List.Subset.refl _
  | step hs _ ih => exact List.Subset.trans hs.names_subset ih

theorem Step.assigned (h : Step m ds n) (hm : m.Assigned) : n.Assigned := by
  cases h with
  | declare _ =>
      refine hm.2.mono ?_
      intro x hx
      exact Environment.mem_names_define.mpr (List.mem_cons.mp hx)
  | debug => exact hm.2
  | enter _ _ => exact hm.1.2.append hm.2
  | skip _ _ => exact hm.2

theorem Leads.assigned (h : Leads m ds n) (hm : m.Assigned) : n.Assigned := by
  induction h with
  | refl m => exact hm
  | step hs _ ih => exact ih (hs.assigned hm)

/-- Nothing that passes the check fails for a name. -/
theorem Fails.ne_unbound (h : m.Fails error) (hm : m.Assigned) (x : String) :
    error ≠ .unboundIdentifier x := by
  rintro rfl
  cases h with
  | declare he =>
      obtain ⟨hread, hnot⟩ := Expr.unbound_of_eval he
      exact hnot (hm.1 hread)
  | condition hc =>
      obtain ⟨hread, hnot⟩ := Expr.unbound_of_eval hc
      exact hnot (hm.1.1 hread)

end Moment

namespace Program

variable {p : Program} {s s' : Session} {r : Except EvalError (List Outcome)}

/-- Whatever a run does, well or not, no name goes out of scope on the way.  If the program passes
the check from the names bound at the start, then at every moment what is left to do passes it from
the names bound there, and the run never fails for a name that is not bound. -/
theorem exec_assigned (p : Program) (s : Session) :
    (∀ ds m es n, Moment.Leads ⟨p, s⟩ ds m → m.Leads es n → m.names ⊆ n.names) ∧
      (∀ r s', exec s p = (r, s') → s.env.names ⊆ s'.env.names ∧
        ∃ ds m, Moment.Leads ⟨p, s⟩ ds m ∧ m.session = s') ∧
      (p.Assigned s.env.names →
        (∀ ds m, Moment.Leads ⟨p, s⟩ ds m → m.Assigned) ∧
        ∀ r s', exec s p = (r, s') → ∀ x, r ≠ .error (.unboundIdentifier x)) := by
  refine ⟨?_, ?_, ?_⟩
  · intro ds m es n _ hmn
    exact hmn.names_subset
  · intro r s' h
    obtain ⟨ds, m, hds, rfl, -⟩ := ends_of_exec h
    exact ⟨hds.names_subset, ds, m, hds, rfl⟩
  · intro hp
    have hassigned : ∀ ds m, Moment.Leads ⟨p, s⟩ ds m → m.Assigned := by
      intro ds m hds
      exact hds.assigned hp
    refine ⟨hassigned, ?_⟩
    intro r s' h x hx
    obtain ⟨ds, m, hds, -, hends⟩ := ends_of_exec h
    subst hx
    exact Moment.Fails.ne_unbound hends (hassigned ds m hds) x rfl

/-- With `a` bound, `ye b = a + 1; if b is 3 { ye c = b; de d; ye e = c / 0; } ye a = b;` passes
the check.  It fails in its body, where `c` is bound as well. -/
theorem exec_assigned_division :
    ∃ p s s', s.env.names = ["a"] ∧ p.Assigned s.env.names ∧
      exec s p = (.error .divisionByZero, s') ∧ s'.env.names = ["a", "b", "c"] ∧
      s.env.names ⊆ s'.env.names ∧
      ∀ x, (exec s p).1 ≠ .error (.unboundIdentifier x) := by
  let p : Program := [.declare "b" (.binary .add (.identifier "a") (.literal 1)),
    .when (.binary .is (.identifier "b") (.literal 3))
      [.declare "c" (.identifier "b"), .debug "d",
        .declare "e" (.binary .div (.identifier "c") (.literal 0))],
    .declare "a" (.identifier "b")]
  let s : Session := (Session.start .fresh).define "a" (.int 2)
  have hp : p.Assigned s.env.names := by decide
  have h : exec s p = (.error .divisionByZero, _) := rfl
  obtain ⟨-, hgrows, hsafe⟩ := exec_assigned p s
  exact ⟨p, s, _, rfl, hp, h, rfl, (hgrows _ _ h).1, (hsafe hp).2 _ _ h⟩

/-- The check refuses some programs that run well, such as `if 0 { ye a = a; }`. -/
example : ¬ Program.Assigned [] [.when (.literal 0) [.declare "a" (.identifier "a")]] ∧
    (exec (.start .silent) [.when (.literal 0) [.declare "a" (.identifier "a")]]).1
      = .ok [.skipped] :=
  ⟨by decide, rfl⟩

end Program

end FlatScript
