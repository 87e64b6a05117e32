import FlatScript.Proofs.Accounting
import FlatScript.Proofs.Bindings
import FlatScript.Proofs.Simulation

/-!
# What a program neither sees nor touches

A run sees of its environment the answers for the names that the program mentions, and changes it at
the names that the program declares.  Two things follow from this.  Environments that agree on the
names of a program are as good as one another (`exec_of_agreeOn`, a `Simulation` under the same
names), and a name that is not declared keeps its value (`Step.lookup_eq`, `Leads.lookup_eq`,
`lookup_of_exec`).  The printer is not looked at either: what is printed is put behind whatever was
printed before, as one text (`Leads.printer_append`).

Main statement, `exec_unmentioned`.
-/

namespace FlatScript

/-! ## The same answers -/

/-- Both environments bind the names of a list to the same values, or both do not bind them. -/
def Environment.AgreeOn (names : List String) (e f : Environment) : Prop :=
  ∀ x ∈ names, e.lookup x = f.lookup x

instance (names : List String) (e f : Environment) : Decidable (Environment.AgreeOn names e f) :=
  inferInstanceAs (Decidable (∀ x ∈ names, e.lookup x = f.lookup x))

namespace Environment.AgreeOn

variable {names : List String} {e f g : Environment}

theorem symm (h : AgreeOn names e f) : AgreeOn names f e := fun x hx => (h x hx).symm

theorem define (h : AgreeOn names e f) (x : String) (v : Value) :
    AgreeOn names (e.define x v) (f.define x v) := by
  intro y hy
  rw [lookup_define, lookup_define, h y hy]

theorem simulation (names : List String) : Simulation id names (AgreeOn names) where
  lookup h hx := (h _ hx).symm
  define v h _ := h.define _ v

end Environment.AgreeOn

open Environment (AgreeOn)

theorem EvalError.rename_id (error : EvalError) : error.rename id = error := by
  cases error <;> rfl

theorem mapError_rename_id {α : Type} (result : Except EvalError α) :
    result.mapError (EvalError.rename id) = result := by
  cases result with
  | ok _ => rfl
  | error error => exact congrArg Except.error error.rename_id

theorem Deed.map_rename_id (ds : List Deed) : ds.map (Deed.rename id) = ds := by
  refine (List.map_congr_left ?_).trans (List.map_id ds)
  rintro ⟨stmt, v⟩ _
  exact congrArg (·, v) stmt.rename_id

/-- From environments that agree on the names of a program, its runs have the same result and print
the same text, and the environments go on to agree. -/
theorem Program.exec_of_agreeOn {p : Program} {s s' t : Session}
    {result : Except EvalError (List Outcome)} (h : exec s p = (result, s'))
    (hst : AgreeOn p.names s.env t.env) :
    ∃ t' out, exec t p = (result, t') ∧ AgreeOn p.names s'.env t'.env ∧
      s'.printer = s.printer.append out ∧ t'.printer = t.printer.append out := by
  obtain ⟨t', ds, m, hexec, hagree, hs, rfl, ht⟩ :=
    (AgreeOn.simulation p.names).run h hst (List.Subset.refl _)
  rw [p.rename_id, mapError_rename_id] at hexec
  rw [p.rename_id, Deed.map_rename_id] at ht
  exact ⟨t', _, hexec, hagree, hs.printer_append, ht.printer_append⟩

/-! ## The same values -/

namespace Moment

variable {m n : Moment} {ds : List Deed} {x : String}

/-- A step changes nothing at a name that is not declared in what is left to do. -/
theorem Step.lookup_eq (h : Step m ds n) (hx : x ∉ m.todo.declared) :
    n.session.env.lookup x = m.session.env.lookup x ∧ x ∉ n.todo.declared := by
  cases h with
  | @declare s y e v rest hv =>
      obtain ⟨hy, hrest⟩ := not_or.mp (mt List.mem_cons.mpr hx)
      exact ⟨s.env.lookup_define_of_ne v hy, hrest⟩
  | debug => exact ⟨rfl, hx⟩
  | enter _ _ =>
      refine ⟨rfl, ?_⟩
      rw [Program.declared_append]
      exact hx
  | skip _ _ => exact ⟨rfl, fun hrest => hx (List.mem_append_right _ hrest)⟩

theorem Leads.lookup_eq (h : Leads m ds n) (hx : x ∉ m.todo.declared) :
    n.session.env.lookup x = m.session.env.lookup x := by
  induction h with
  | refl m => rfl
  | step hs _ ih =>
      obtain ⟨hlookup, hx'⟩ := hs.lookup_eq hx
      rw [ih hx', hlookup]

end Moment

namespace Program

variable {p : Program} {s s' t : Session} {result : Except EvalError (List Outcome)} {x : String}

/-- A run, well or not, leaves the names alone that the program does not declare. -/
theorem lookup_of_exec (h : exec s p = (result, s')) (hx : x ∉ p.declared) :
    s'.env.lookup x = s.env.lookup x := by
  obtain ⟨ds, m, hds, rfl, -⟩ := ends_of_exec h
  exact hds.lookup_eq hx

/-- From environments that agree on the names that a program mentions, it has the same result, an
error included, and prints the same text; the environments then agree on these names again.  And
each of the two still has, at every name that the program does not declare, the value that it had at
the start, or none. -/
theorem exec_unmentioned (h : AgreeOn p.names s.env t.env) :
    ∃ result s' t' out, exec s p = (result, s') ∧ exec t p = (result, t') ∧
      s'.printer = s.printer.append out ∧ t'.printer = t.printer.append out ∧
      AgreeOn p.names s'.env t'.env ∧
      (∀ x, x ∉ p.declared → s'.env.lookup x = s.env.lookup x) ∧
      ∀ x, x ∉ p.declared → t'.env.lookup x = t.env.lookup x := by
  have hs : exec s p = ((exec s p).1, (exec s p).2) := rfl
  obtain ⟨t', out, ht, hagree, hprinter, hprinter'⟩ := exec_of_agreeOn hs h
  exact ⟨_, _, t', out, hs, ht, hprinter, hprinter', hagree, fun _ => lookup_of_exec hs,
    fun _ => lookup_of_exec ht⟩

/-- `de a; ye a = b; if a is 2 { de a; ye c = missing; } ye d = 1;` does not see whether `z` is
bound: it fails inside of its body in either case, and `z` stays as it is. -/
theorem exec_unmentioned_missing :
    ∃ (p : Program) (s t s' t' : Session), "z" ∉ p.names ∧
      s.env.bindings = [("b", .int 2), ("z", .int 5)] ∧ t.env.bindings = [("b", .int 2)] ∧
      AgreeOn p.names s.env t.env ∧
      exec s p = (.error (.unboundIdentifier "missing"), s') ∧
      exec t p = (.error (.unboundIdentifier "missing"), t') ∧
      s'.printer = .capturing "a = Undefined\na = 2\n" ∧ t'.printer = s'.printer ∧
      AgreeOn p.names s'.env t'.env ∧
      s'.env.lookup "z" = some (.int 5) ∧ t'.env.lookup "z" = none := by
  let p : Program := [.debug "a", .declare "a" (.identifier "b"),
    .when (.binary .is (.identifier "a") (.literal 2))
      [.debug "a", .declare "c" (.identifier "missing")], .declare "d" (.literal 1)]
  let t : Session := (Session.start .fresh).define "b" (.int 2)
  let s : Session := t.define "z" (.int 5)
  have hagree : AgreeOn p.names s.env t.env := by decide
  have hs : exec s p = (.error (.unboundIdentifier "missing"), _) := rfl
  obtain ⟨result, s', t', out, hs', ht, hout, hout', hagree', hkeep, hkeep'⟩ :=
    exec_unmentioned hagree
  cases hs.symm.trans hs'
  exact ⟨p, s, t, _, t', by decide, rfl, rfl, hagree, hs, ht, rfl, hout'.trans hout.symm, hagree',
    hkeep "z" (by decide), hkeep' "z" (by decide)⟩

end Program

end FlatScript
