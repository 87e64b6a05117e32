import FlatScript.Proofs.Framing
import Mathlib.Logic.Equiv.Basic

/-!
# Consistent renaming

A name stands for nothing but itself.  If all names are replaced by others, in a program and in the
environment, then the program runs as before, as long as different names stay different: what is
bound under a name is found under its image (`lookup_rename`), a definition replaces the image of
the name and nothing else (`rename_define`), and so the two environments are a `Simulation` of each
other.  Only the printed lines and the error for a name that is not bound show the new names.

Main statement, `exec_rename`.
-/

namespace FlatScript

open Function (Injective)

/-! ## Environments with other names -/

namespace Environment

/-- An environment with other names, which puts the bindings in the order of these. -/
def rename (r : String → String) (env : Environment) : Environment :=
  ofList (env.bindings.map fun b => (r b.1, b.2))

variable {r : String → String}

/-- A name that is bound at the head of a list is not bound behind it. -/
theorem find?_tail_of_ascending {b : Binding} {bs : List Binding} (h : Ascending (b :: bs)) :
    find? b.1 bs = none := by
  obtain ⟨hb, -⟩ := List.pairwise_cons.mp h
  by_contra hne
  obtain ⟨v, hv⟩ := Option.ne_none_iff_exists'.mp hne
  exact String.lt_irrefl _ (hb (b.1, v) (mem_of_find? hv))

theorem lookup_foldl_rename (hr : Injective r) {bs : List Binding} (hbs : Ascending bs)
    (e : Environment) (x : String) :
    ((bs.map fun b => (r b.1, b.2)).foldl (fun env b => env.define b.1 b.2) e).lookup (r x)
      = (find? x bs).or (e.lookup (r x)) := by
  induction bs generalizing e with
  | nil => rfl
  | cons b bs ih =>
      obtain ⟨-, htail⟩ := List.pairwise_cons.mp hbs
      rw [List.map_cons, List.foldl_cons, ih htail, lookup_define, find?]
      by_cases hx : b.1 = x
      · -- the first binding of a name is also the last one, so nothing defines it again
        subst hx
        simp [find?_tail_of_ascending hbs]
      · have hne : r x ≠ r b.1 := fun h => hx (hr h).symm
        rw [if_neg hne, if_neg hx]

theorem lookup_foldl_rename_of_ne {y : String} (hy : ∀ x, r x ≠ y) (bs : List Binding)
    (e : Environment) :
    ((bs.map fun b => (r b.1, b.2)).foldl (fun env b => env.define b.1 b.2) e).lookup y
      = e.lookup y := by
  induction bs generalizing e with
  | nil => rfl
  | cons b bs ih =>
      rw [List.map_cons, List.foldl_cons, ih]
      exact e.lookup_define_of_ne b.2 (hy b.1).symm

/-- What is bound under a name is found under its image. -/
theorem lookup_rename (hr : Injective r) (env : Environment) (x : String) :
    (env.rename r).lookup (r x) = env.lookup x := by
  have h := lookup_foldl_rename hr env.ascending empty x
  rwa [lookup_empty, Option.or_none] at h

/-- Only images are bound. -/
theorem lookup_rename_of_ne (env : Environment) {y : String} (hy : ∀ x, r x ≠ y) :
    (env.rename r).lookup y = none :=
  lookup_foldl_rename_of_ne hy env.bindings empty

/-- The bindings are those from before under the other names. -/
theorem mem_bindings_rename_iff (hr : Injective r) {env : Environment} {y : String} {v : Value} :
    (y, v) ∈ (env.rename r).bindings ↔ ∃ x, (x, v) ∈ env.bindings ∧ r x = y := by
  rw [mem_bindings_iff]
  constructor
  · intro h
    by_contra hno
    by_cases hy : ∃ x, r x = y
    · obtain ⟨x, rfl⟩ := hy
      rw [lookup_rename hr] at h
      exact hno ⟨x, mem_bindings_iff.mpr h, rfl⟩
    · rw [env.lookup_rename_of_ne (not_exists.mp hy)] at h
      cases h
  · rintro ⟨x, hx, rfl⟩
    rw [lookup_rename hr]
    exact mem_bindings_iff.mp hx

/-- A definition under the other names. -/
theorem rename_define (hr : Injective r) (env : Environment) (x : String) (v : Value) :
    (env.define x v).rename r = (env.rename r).define (r x) v := by
  refine eq_of_lookup_eq ?_
  intro y
  rw [lookup_define]
  -- a name that is no image is bound on neither side
  by_cases hy : ∃ z, r z = y
  · obtain ⟨z, rfl⟩ := hy
    rw [lookup_rename hr, lookup_rename hr, lookup_define]
    simp only [hr.eq_iff]
  · have hne := not_exists.mp hy
    rw [lookup_rename_of_ne _ hne, lookup_rename_of_ne _ hne, if_neg (Ne.symm (hne x))]

theorem rename_simulation (hr : Injective r) (names : List String) :
    Simulation r names fun e f => f = e.rename r where
  lookup := by
    rintro e _ x rfl _
    exact lookup_rename hr e x
  define := by
    rintro e _ x v rfl _
    exact (rename_define hr e x v).symm

end Environment

/-! ## Reports -/

namespace Deed

/-- The name and the value that a deed reports, if it is a debug statement. -/
def report? : Deed → Option (String × Value)
  | (.debug x, v) => some (x, v)
  | _ => none

/-- What deeds report, in order. -/
def reports (ds : List Deed) : List (String × Value) := ds.filterMap report?

theorem line?_rename (r : String → String) (d : Deed) :
    (d.rename r).line? = d.report?.map fun b => debugLine (r b.1) b.2 := by
  obtain ⟨stmt, v⟩ := d
  cases stmt with
  | declare _ _ => rfl
  | debug _ => rfl
  | when _ _ => rfl

/-- Each report is printed under the other name. -/
theorem lines_map_rename (r : String → String) (ds : List Deed) :
    lines (ds.map (rename r)) = (reports ds).map fun b => debugLine (r b.1) b.2 := by
  rw [lines, reports, List.filterMap_map, List.map_filterMap]
  exact List.filterMap_congr fun d _ => line?_rename r d

/-- The lines that deeds print are their reports. -/
theorem lines_eq_reports (ds : List Deed) :
    lines ds = (reports ds).map fun b => debugLine b.1 b.2 := by
  have h := lines_map_rename id ds
  rwa [map_rename_id] at h

end Deed

namespace Program

/-- With other names for all names, different ones for different names, a program has the same
outcomes as before, or fails with the same error up to the name in it.  The environment at the end
is the one from before under the other names.  The deeds are those from before under the other
names, and each line that is printed is the line from before with the other name. -/
theorem exec_rename {r : String → String} (hr : Injective r) (p : Program) {s t : Session}
    (h : t.env = s.env.rename r) :
    ∃ result s' t' ds m, exec s p = (result, s') ∧
      exec t (p.rename r) = (result.mapError (EvalError.rename r), t') ∧
      t'.env = s'.env.rename r ∧
      (∀ y v, (y, v) ∈ t'.env.bindings ↔ ∃ x, (x, v) ∈ s'.env.bindings ∧ r x = y) ∧
      Moment.Leads ⟨p, s⟩ ds m ∧ m.session = s' ∧
      Moment.Leads ⟨p.rename r, t⟩ (ds.map (Deed.rename r)) ⟨m.todo.rename r, t'⟩ ∧
      s'.printer = s.printer.append
        (Text.unlines ((Deed.reports ds).map fun b => debugLine b.1 b.2)) ∧
      t'.printer = t.printer.append
        (Text.unlines ((Deed.reports ds).map fun b => debugLine (r b.1) b.2)) := by
  have hs : exec s p = ((exec s p).1, (exec s p).2) := rfl
  obtain ⟨t', ds, m, ht, henv, hds, hm, hds'⟩ :=
    (Environment.rename_simulation hr p.names).run hs h (List.Subset.refl _)
  refine ⟨_, _, t', ds, m, hs, ht, henv, ?_, hds, hm, hds', ?_, ?_⟩
  · intro y v
    rw [henv]
    exact Environment.mem_bindings_rename_iff hr
  · rw [← hm, hds.printer_append, Deed.lines_eq_reports]
  · rw [hds'.printer_append, Deed.lines_map_rename]

/-- `de a; ye c = a - b; if c { ye a = missing; }` with `a` and `b` exchanged. -/
theorem exec_rename_swap :
    ∃ (p : Program) (s t s' t' : Session), Injective (Equiv.swap "a" "b") ∧
      s.env.bindings = [("a", .int 3), ("b", .int 5)] ∧
      t.env.bindings = [("a", .int 5), ("b", .int 3)] ∧ t.env = s.env.rename (Equiv.swap "a" "b") ∧
      exec s p = (.error (.unboundIdentifier "missing"), s') ∧
      exec t (p.rename (Equiv.swap "a" "b")) = (.error (.unboundIdentifier "missing"), t') ∧
      s'.env.bindings = [("a", .int 3), ("b", .int 5), ("c", .int (-2))] ∧
      t'.env = s'.env.rename (Equiv.swap "a" "b") ∧
      s'.printer = .capturing "a = 3\n" ∧ t'.printer = .capturing "b = 3\n" := by
  let p : Program := [.debug "a",
    .declare "c" (.binary .sub (.identifier "a") (.identifier "b")),
    .when (.identifier "c") [.declare "a" (.identifier "missing")]]
  let s : Session := ((Session.start .fresh).define "a" (.int 3)).define "b" (.int 5)
  let t : Session := ((Session.start .fresh).define "a" (.int 5)).define "b" (.int 3)
  have hr : Injective (Equiv.swap "a" "b") := (Equiv.swap "a" "b").injective
  have h : t.env = s.env.rename (Equiv.swap "a" "b") := rfl
  have hs : exec s p = (.error (.unboundIdentifier "missing"), _) := rfl
  have ht : exec t (p.rename (Equiv.swap "a" "b"))
    = (.error (.unboundIdentifier "missing"), _) := rfl
  obtain ⟨_, _, t', ds, m, hs', ht', henv, -⟩ := exec_rename hr p h
  cases hs.symm.trans hs'
  obtain ⟨-, rfl⟩ := Prod.mk.inj (ht.symm.trans ht')
  exact ⟨p, s, t, _, _, hr, rfl, rfl, h, hs, ht, rfl, henv, rfl, rfl⟩

end Program

end FlatScript
