import FlatScript.Run.Environment
import Mathlib.Data.List.Basic

/-!
# What an environment answers

An environment is a list of bindings, and a look-up is all that a run sees of it.  Since the names
ascend strictly, no name is bound twice and no other order is possible, so nothing is left over:
the bindings are what is looked up (`mem_bindings_iff`), and environments that answer alike are
equal (`eq_of_lookup_eq`).  To compare two environments it is enough to compare answers.
-/

namespace FlatScript.Environment

variable {env e f : Environment} {bs : List Binding} {x y : String} {v : Value}

/-! ## Answers and bindings -/

theorem mem_of_find? (h : find? x bs = some v) : (x, v) ∈ bs := by
  induction bs with
  | nil => cases h
  | cons b bs ih =>
      rw [find?] at h
      split at h
      · next hx =>
          cases h
          exact hx ▸ List.mem_cons_self
      · exact List.mem_cons_of_mem b (ih h)

theorem find?_of_mem (hbs : Ascending bs) (h : (x, v) ∈ bs) : find? x bs = some v := by
  induction bs with
  | nil => cases h
  | cons b bs ih =>
      obtain ⟨hb, hbs⟩ := List.pairwise_cons.mp hbs
      rw [find?]
      rcases List.mem_cons.mp h with rfl | h
      · exact if_pos rfl
      · have hlt : b.1 < x := hb (x, v) h
        have hne : b.1 ≠ x := by
          rintro rfl
          exact String.lt_irrefl _ hlt
        rw [if_neg hne]
        exact ih hbs h

/-- The bindings are the answers. -/
theorem mem_bindings_iff : (x, v) ∈ env.bindings ↔ env.lookup x = some v :=
  ⟨find?_of_mem env.ascending, mem_of_find?⟩

theorem nodup_of_ascending (h : Ascending bs) : bs.Nodup := by
  refine h.imp ?_
  rintro b _ hlt rfl
  exact String.lt_irrefl _ hlt

/-- Environments that answer alike are equal. -/
theorem eq_of_lookup_eq (h : ∀ x, e.lookup x = f.lookup x) : e = f := by
  have hmem : ∀ b, b ∈ e.bindings ↔ b ∈ f.bindings := by
    rintro ⟨x, v⟩
    rw [mem_bindings_iff, mem_bindings_iff, h]
  have hperm : e.bindings.Perm f.bindings :=
    (List.perm_ext_iff_of_nodup (nodup_of_ascending e.ascending)
      (nodup_of_ascending f.ascending)).mpr hmem
  refine ext (hperm.eq_of_pairwise ?_ e.ascending f.ascending)
  intro b c _ _ hlt hgt
  exact absurd hgt (String.lt_asymm hlt)

/-- A name is bound to what it was defined as, and any other as before. -/
theorem lookup_define (env : Environment) (x y : String) (v : Value) :
    (env.define x v).lookup y = if y = x then some v else env.lookup y := by
  split
  · next h => rw [h, lookup_define_self]
  · next h => exact env.lookup_define_of_ne v h

/-! ## Bound names -/

/-- The names that are bound. -/
def names (env : Environment) : List String := env.bindings.map Prod.fst

theorem isSome_find?_iff : (find? x bs).isSome = true ↔ x ∈ bs.map Prod.fst := by
  induction bs with
  | nil => simp [find?]
  | cons b bs ih =>
      rw [find?]
      split
      · next hx => simp [hx]
      · next hx => simp [ih, Ne.symm hx]

theorem mem_names_iff : x ∈ env.names ↔ env.contains x = true :=
  isSome_find?_iff.symm

@[simp] theorem mem_names_define : y ∈ (env.define x v).names ↔ y = x ∨ y ∈ env.names := by
  simp only [mem_names_iff, contains]
  by_cases hy : y = x
  · simp [hy]
  · simp [hy, lookup_define_of_ne]

/-- No name is bound twice. -/
theorem nodup_names (env : Environment) : env.names.Nodup := by
  refine List.pairwise_map.mpr (env.ascending.imp ?_)
  intro a b hlt heq
  exact String.lt_irrefl b.1 (heq ▸ hlt)

/-! ## A property of all bindings -/

/-- All names are bound to values with the property. -/
def Binds (env : Environment) (P : Value → Prop) : Prop := ∀ b ∈ env.bindings, P b.2

variable {P : Value → Prop}

theorem binds_empty : empty.Binds P := by
  intro b hb
  cases hb

theorem Binds.define (h : env.Binds P) (hv : P v) : (env.define x v).Binds P := by
  intro b hb
  rcases mem_insert hb with rfl | hb
  · exact hv
  · exact h b hb

theorem Binds.lookup (h : env.Binds P) (hx : env.lookup x = some v) : P v :=
  h _ (mem_of_find? hx)

end FlatScript.Environment
