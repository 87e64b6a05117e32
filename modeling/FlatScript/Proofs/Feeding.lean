import FlatScript.Proofs.Concatenation
import FlatScript.Proofs.Stepping

/-!
# Programs fed to a session piece by piece

A session can be fed one program after the other, as somebody at a prompt would do it, or run them
all at once from one long source.  That makes no difference.  The sources of programs put one behind
the other read as their programs put one behind the other (`program_join`), and a session that runs
programs one behind the other is fed them in turn (`exec_flatten`): both stop at the first error,
and what is behind it does not count.

Main statement, `run_join`.
-/

namespace FlatScript

/-! ## Sessions -/

namespace Session

/-- Runs programs in turn, up to the first error, and puts their outcomes one behind the other. -/
def feed (s : Session) : List Program → Except EvalError (List Outcome) × Session
  | [] => (.ok [], s)
  | p :: ps =>
    match Program.exec s p with
    | (.error e, t) => (.error e, t)
    | (.ok os, t) =>
      match feed t ps with
      | (.error e, u) => (.error e, u)
      | (.ok os', u) => (.ok (os ++ os'), u)

variable {s t u : Session} {ps : List Program} {os : List Outcome} {e : EvalError}

/-- Programs fed in turn run as one program. -/
theorem exec_flatten (s : Session) (ps : List Program) :
    Program.exec s ps.flatten = s.feed ps := by
  induction ps generalizing s with
  | nil => rfl
  | cons p ps ih =>
      rw [List.flatten_cons, feed]
      split
      · next hp => exact Program.exec_append_of_error hp ps.flatten
      · next os t hp =>
          rw [Program.exec_append_of_ok hp, ih]
          rcases t.feed ps with ⟨_ | _, _⟩ <;> rfl

/-- What is fed behind a program that fails makes no difference. -/
theorem feed_of_error {p : Program} (hps : s.feed ps = (.ok os, t))
    (hp : Program.exec t p = (.error e, u)) (behind : List Program) :
    s.feed (ps ++ p :: behind) = (.error e, u) := by
  rw [← exec_flatten] at hps ⊢
  rw [List.flatten_append, List.flatten_cons, Program.exec_append_of_ok hps,
    Program.exec_append_of_error hp]
  rfl

end Session

/-! ## Sources -/

namespace Script

variable {K : Reserved} {s : Session} {source : String} {p : Program}

theorem run_of_program (h : program K source = .ok p) :
    run K s source = ((Program.exec s p).1.mapError .eval, (Program.exec s p).2) := by
  rw [run, h]
  dsimp only
  rcases Program.exec s p with ⟨_ | _, _⟩ <;> rfl

/-- A source with nothing in it is a program with nothing in it. -/
theorem program_empty (K : Reserved) : program K "" = .ok [] := by
  refine program_eq_ok_iff.mpr ⟨[], (Token.scan_eq K "").trans Token.scanFrom_nil, ?_⟩
  exact @Program.ofTokens_of_derives [] [] .nil

/-- Two sources of programs, one behind the other, read as the two programs. -/
theorem program_append_of_ok {source' : String} {q : Program}
    (hsize : source.utf8ByteSize + source'.utf8ByteSize ≤ maxOffset)
    (hp : program K source = .ok p) (hq : program K source' = .ok q) :
    program K (source ++ source') = .ok (p ++ q) := by
  obtain ⟨ts, hts, hp⟩ := program_eq_ok_iff.mp hp
  obtain ⟨us, hus, hq⟩ := program_eq_ok_iff.mp hq
  obtain ⟨behind, hscan, halike⟩ := scan_append hts hp hsize
  rw [hus] at halike
  obtain ⟨us', rfl, hmoved⟩ := halike.exists_ok
  have hagree := Program.ofTokens_moved Span.Shifted.atStop hmoved
  rw [hq] at hagree
  obtain ⟨q', hq', rfl⟩ := hagree.exists_ok
  refine program_eq_ok_iff.mpr ⟨ts ++ us', hscan, ?_⟩
  rw [Program.ofTokens_append hp, hq']
  rfl

/-- Sources of programs, one behind the other, read as the programs. -/
theorem program_join {sources : List String} {ps : List Program}
    (h : List.Forall₂ (fun source p => program K source = .ok p) sources ps)
    (hsize : (String.join sources).utf8ByteSize ≤ maxOffset) :
    program K (String.join sources) = .ok ps.flatten := by
  induction h with
  | nil => exact program_empty K
  | @cons source p sources ps hp _ ih =>
      rw [String.join_cons] at hsize ⊢
      rw [String.utf8ByteSize_append] at hsize
      exact program_append_of_ok hsize hp (ih (Nat.le_of_add_left_le hsize))

/-- Sources of programs, put one behind the other and run at once, do what their programs do when
they are fed to the session in turn: outcomes, bindings, printed text and error are the same.  If
one of the programs fails, the run ends with its error and in the session that it leaves, whatever
sources stand behind it. -/
theorem run_join {sources : List String} {ps : List Program}
    (h : List.Forall₂ (fun source p => program K source = .ok p) sources ps)
    (hsize : (String.join sources).utf8ByteSize ≤ maxOffset) (s : Session) :
    run K s (String.join sources) = ((s.feed ps).1.mapError .eval, (s.feed ps).2) ∧
      ∀ before p behind os t e u, ps = before ++ p :: behind → s.feed before = (.ok os, t) →
        Program.exec t p = (.error e, u) →
          run K s (String.join sources) = (.error (.eval e), u) := by
  have hrun : run K s (String.join sources)
      = ((s.feed ps).1.mapError .eval, (s.feed ps).2) := by
    rw [run_of_program (program_join h hsize), Session.exec_flatten]
  refine ⟨hrun, ?_⟩
  rintro before p behind os t e u rfl hbefore hp
  rw [hrun, Session.feed_of_error hbefore hp]
  rfl

/-- Of `ye a = 1;`, `de a; ye b = a / 0;` and `ye a = 2;` the second one fails, and the third one
is not run. -/
theorem run_join_division :
    ∃ u, run .standard (.start .fresh)
        (String.join ["ye a = 1;", "de a; ye b = a / 0;", "ye a = 2;"])
          = (.error (.eval .divisionByZero), u) ∧
      Session.feed (.start .fresh) [[.declare "a" (.literal 1)],
        [.debug "a", .declare "b" (.binary .div (.identifier "a") (.literal 0))],
        [.declare "a" (.literal 2)]] = (.error .divisionByZero, u) ∧
      u.printer = .capturing "a = 1\n" ∧ u.env.bindings = [("a", .int 1)] := by
  have h : List.Forall₂ (fun source p => program .standard source = .ok p)
      ["ye a = 1;", "de a; ye b = a / 0;", "ye a = 2;"] [[.declare "a" (.literal 1)],
        [.debug "a", .declare "b" (.binary .div (.identifier "a") (.literal 0))],
        [.declare "a" (.literal 2)]] :=
    .cons (by decide +kernel) (.cons (by decide +kernel) (.cons (by decide +kernel) .nil))
  have hrun := (run_join h (by decide) (.start .fresh)).2 [[.declare "a" (.literal 1)]]
    [.debug "a", .declare "b" (.binary .div (.identifier "a") (.literal 0))]
    [[.declare "a" (.literal 2)]] _ _ .divisionByZero _ rfl rfl rfl
  exact ⟨_, hrun, rfl, rfl, rfl⟩

end Script

end FlatScript
