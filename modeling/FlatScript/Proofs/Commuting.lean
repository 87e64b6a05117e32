import FlatScript.Proofs.Framing

/-!
# Blocks that do not depend on each other

Two programs are independent if neither declares a name that occurs in the other.  What one of them
does is then out of sight of the other one: the run of the one leaves the environment as it was, as
far as the other one sees it (`Independent.agreeOn`).  So a run of `p` and then of `q` can be turned
around, as the two sides of a square (`Independent.square`): from the session at the start, `q` runs
as it did behind `p`, and `p` runs behind it as it did at the start.

Main statement, `exec_comm`.
-/

namespace FlatScript

open Environment (AgreeOn)

namespace Program

/-- No name that one of the programs declares, at any depth, occurs in the other one. -/
structure Independent (p q : Program) : Prop where
  left : ∀ x ∈ p.declared, x ∉ q.names
  right : ∀ x ∈ q.declared, x ∉ p.names

theorem Independent.symm {p q : Program} (h : Independent p q) : Independent q p :=
  ⟨h.right, h.left⟩

/-- From `s` the program succeeds: it has the outcomes `os`, prints the text `out` and ends in
`s'`. -/
structure Runs (s : Session) (p : Program) (os : List Outcome) (out : String) (s' : Session) :
    Prop where
  exec : Program.exec s p = (.ok os, s')
  printer : s'.printer = s.printer.append out

variable {p q : Program} {s s' t s₁ : Session} {os os₁ os₂ : List Outcome} {out out₁ out₂ : String}

/-- Runs one behind the other are one run. -/
theorem Runs.append (hp : Runs s p os₁ out₁ t) (hq : Runs t q os₂ out₂ s') :
    Runs s (p ++ q) (os₁ ++ os₂) (out₁ ++ out₂) s' where
  exec := exec_append_eq_ok_iff.mpr ⟨os₁, t, os₂, hp.exec, hq.exec, rfl⟩
  printer := by rw [hq.printer, hp.printer, Printer.append_append]

/-- From an environment with the same answers, a program runs with the same outcomes and the same
text. -/
theorem exists_runs_of_agreeOn (h : exec s p = (.ok os, s')) (hst : AgreeOn p.names s.env t.env) :
    ∃ t' out, Runs s p os out s' ∧ Runs t p os out t' ∧ AgreeOn p.names s'.env t'.env := by
  obtain ⟨t', out, ht, hagree, hprinter, hprinter'⟩ := exec_of_agreeOn h hst
  exact ⟨t', out, ⟨h, hprinter⟩, ⟨ht, hprinter'⟩, hagree⟩

/-- The other program does not see that this one ran. -/
theorem Independent.agreeOn (h : Independent p q) (hp : exec s p = (.ok os, s')) :
    AgreeOn q.names s.env s'.env := by
  intro x hx
  exact (lookup_of_exec hp fun hdecl => h.left x hdecl hx).symm

/-- The two ways around. -/
theorem Independent.square (h : Independent p q) (hp : exec s p = (.ok os₁, s₁))
    (hq : exec s₁ q = (.ok os₂, s')) :
    ∃ out₁ out₂ s₂ t, Runs s p os₁ out₁ s₁ ∧ Runs s₁ q os₂ out₂ s' ∧
      Runs s q os₂ out₂ s₂ ∧ Runs s₂ p os₁ out₁ t ∧ t.env = s'.env := by
  have hsame : AgreeOn q.names s₁.env s.env := (h.agreeOn hp).symm
  obtain ⟨s₂, out₂, hq, hq', hagree⟩ := exists_runs_of_agreeOn hq hsame
  have hsame' : AgreeOn p.names s.env s₂.env := h.symm.agreeOn hq'.exec
  obtain ⟨t, out₁, hp, hp', hagree'⟩ := exists_runs_of_agreeOn hp hsame'
  refine ⟨out₁, out₂, s₂, t, hp, hq, hq', hp', Environment.eq_of_lookup_eq ?_⟩
  -- what `q` declares comes from `q` in both orders, and the rest from `p` or from the start
  intro x
  by_cases hxq : x ∈ q.declared
  · have hxp : x ∉ p.declared := fun hx => h.left x hx (declared_subset_names q hxq)
    calc t.env.lookup x
        = s₂.env.lookup x := lookup_of_exec hp'.exec hxp
      _ = s'.env.lookup x := (hagree x (declared_subset_names q hxq)).symm
  · have hstart : s'.env.lookup x = s₁.env.lookup x := lookup_of_exec hq.exec hxq
    by_cases hxp : x ∈ p.declared
    · calc t.env.lookup x
          = s₁.env.lookup x := (hagree' x (declared_subset_names p hxp)).symm
        _ = s'.env.lookup x := hstart.symm
    · calc t.env.lookup x
          = s₂.env.lookup x := lookup_of_exec hp'.exec hxp
        _ = s.env.lookup x := lookup_of_exec hq'.exec hxq
        _ = s₁.env.lookup x := (lookup_of_exec hp.exec hxp).symm
        _ = s'.env.lookup x := hstart.symm

theorem Independent.exists_exec_append (h : Independent p q)
    (hpq : exec s (p ++ q) = (.ok os, s')) : ∃ os' t', exec s (q ++ p) = (.ok os', t') := by
  obtain ⟨os₁, s₁, os₂, hp, hq, -⟩ := exec_append_eq_ok_iff.mp hpq
  obtain ⟨out₁, out₂, s₂, t, -, -, hq', hp', -⟩ := h.square hp hq
  exact ⟨_, t, (hq'.append hp').exec⟩

/-- Of two independent programs either one may run first: if it succeeds one way, then also the
other way.  Each of the two has then the same outcomes and prints the same text in either place, and
the environments at the end are the same. -/
theorem exec_comm (h : Independent p q) (s : Session) :
    ((∃ os s', exec s (p ++ q) = (.ok os, s')) ↔ ∃ os s', exec s (q ++ p) = (.ok os, s')) ∧
      ∀ os s', exec s (p ++ q) = (.ok os, s') →
        ∃ os₁ os₂ out₁ out₂ s₁ s₂ t, os = os₁ ++ os₂ ∧
          Runs s p os₁ out₁ s₁ ∧ Runs s₁ q os₂ out₂ s' ∧
          Runs s q os₂ out₂ s₂ ∧ Runs s₂ p os₁ out₁ t ∧
          Runs s (p ++ q) (os₁ ++ os₂) (out₁ ++ out₂) s' ∧
          Runs s (q ++ p) (os₂ ++ os₁) (out₂ ++ out₁) t ∧ t.env = s'.env := by
  refine ⟨⟨?_, ?_⟩, ?_⟩
  · rintro ⟨os, s', hpq⟩
    exact h.exists_exec_append hpq
  · rintro ⟨os, s', hqp⟩
    exact h.symm.exists_exec_append hqp
  · intro os s' hpq
    obtain ⟨os₁, s₁, os₂, hp, hq, rfl⟩ := exec_append_eq_ok_iff.mp hpq
    obtain ⟨out₁, out₂, s₂, t, hp, hq, hq', hp', henv⟩ := h.square hp hq
    exact ⟨os₁, os₂, out₁, out₂, s₁, s₂, t, rfl, hp, hq, hq', hp', hp.append hq, hq'.append hp',
      henv⟩

/-- `if c { ye a = c; if a { de a; } }` and `de b; if 0 { ye e = b; } ye d = c;` only read `c` in
common. -/
theorem exec_comm_nested :
    ∃ (p q : Program) (s s' t : Session), Independent p q ∧
      exec s (p ++ q) = (.ok [.branch [.value (.int 7), .branch [.value (.int 7)]],
        .value .absent, .skipped, .value (.int 7)], s') ∧
      exec s (q ++ p) = (.ok [.value .absent, .skipped, .value (.int 7),
        .branch [.value (.int 7), .branch [.value (.int 7)]]], t) ∧
      s'.printer = .capturing "a = 7\nb = Undefined\n" ∧
      t.printer = .capturing "b = Undefined\na = 7\n" ∧ t.env = s'.env := by
  let p : Program := [.when (.identifier "c")
    [.declare "a" (.identifier "c"), .when (.identifier "a") [.debug "a"]]]
  let q : Program := [.debug "b", .when (.literal 0) [.declare "e" (.identifier "b")],
    .declare "d" (.identifier "c")]
  let s : Session := (Session.start .fresh).define "c" (.int 7)
  have h : Independent p q := ⟨by decide, by decide⟩
  have hpq : exec s (p ++ q) = (.ok [.branch [.value (.int 7), .branch [.value (.int 7)]],
    .value .absent, .skipped, .value (.int 7)], _) := rfl
  have hqp : exec s (q ++ p) = (.ok [.value .absent, .skipped, .value (.int 7),
    .branch [.value (.int 7), .branch [.value (.int 7)]]], _) := rfl
  obtain ⟨_, _, _, _, _, _, t, -, -, -, -, -, -, hqp', henv⟩ := (exec_comm h s).2 _ _ hpq
  obtain ⟨-, rfl⟩ := Prod.mk.inj (hqp.symm.trans hqp'.exec)
  exact ⟨p, q, s, _, _, h, hpq, hqp, rfl, rfl, henv⟩

end Program

end FlatScript
