import FlatScript.Run.Value

/-!
# The scope of a run

There is one flat scope: a finite map from names to values.  It is kept as the list of its
bindings in strictly ascending order of names, by code points, so that two environments that
answer alike are equal and the bindings need no sorting when they are shown.
-/

namespace FlatScript

/-- A name and the value it is bound to. -/
abbrev Binding := String × Value

/-- Bindings in strictly ascending order of their names. -/
def Ascending (bindings : List Binding) : Prop := bindings.Pairwise (·.1 < ·.1)

/-- A finite map from names to values. -/
structure Environment where
  bindings : List Binding
  ascending : Ascending bindings

namespace Environment

/-! ## Lists of bindings -/

/-- Puts a binding in its place, where it replaces the one of the same name. -/
def insert (name : String) (value : Value) : List Binding → List Binding
  | [] => [(name, value)]
  | b :: bs =>
    if name < b.1 then (name, value) :: b :: bs
    else if name = b.1 then (name, value) :: bs
    else b :: insert name value bs

/-- The value bound to a name in a list of bindings. -/
def find? (name : String) : List Binding → Option Value
  | [] => none
  | b :: bs => if b.1 = name then some b.2 else find? name bs

/-- Insertion brings in no other binding. -/
theorem mem_insert {name : String} {value : Value} {a : Binding} {bs : List Binding}
    (h : a ∈ insert name value bs) : a = (name, value) ∨ a ∈ bs := by
  induction bs with
  | nil => simpa [insert] using h
  | cons b bs ih =>
    rw [insert] at h
    split at h
    · simpa using h
    · split at h
      · exact (List.mem_cons.1 h).imp_right (List.mem_cons_of_mem _)
      · rcases List.mem_cons.1 h with rfl | h
        · exact .inr List.mem_cons_self
        · exact (ih h).imp_right (List.mem_cons_of_mem _)

/-- Insertion keeps the order. -/
theorem ascending_insert (name : String) (value : Value) {bs : List Binding}
    (h : Ascending bs) : Ascending (insert name value bs) := by
  induction bs with
  | nil => exact List.pairwise_singleton _ _
  | cons b bs ih =>
    obtain ⟨hb, hbs⟩ := List.pairwise_cons.1 h
    rw [insert]
    split
    · next hlt =>
      refine List.pairwise_cons.2 ⟨fun a ha => ?_, h⟩
      rcases List.mem_cons.1 ha with rfl | ha
      · exact hlt
      · exact String.lt_trans hlt (hb a ha)
    · split
      · next heq => exact List.pairwise_cons.2 ⟨fun a ha => heq ▸ hb a ha, hbs⟩
      · next hnlt hne =>
        refine List.pairwise_cons.2 ⟨fun a ha => ?_, ih hbs⟩
        rcases mem_insert ha with rfl | ha
        · have : name ≠ b.1 := hne
          show b.1 < name
          grind
        · exact hb a ha

/-! ## Environments -/

/-- No name is bound. -/
def empty : Environment := ⟨[], .nil⟩

/-- Binds a name, whatever it was bound to before. -/
def define (env : Environment) (name : String) (value : Value) : Environment :=
  ⟨insert name value env.bindings, ascending_insert name value env.ascending⟩

/-- The value a name is bound to. -/
def lookup (env : Environment) (name : String) : Option Value := find? name env.bindings

/-- Binds a name and tells what it was bound to before. -/
def exchange (env : Environment) (name : String) (value : Value) :
    Option Value × Environment :=
  (env.lookup name, env.define name value)

/-- Whether a name is bound. -/
def contains (env : Environment) (name : String) : Bool := (env.lookup name).isSome

/-- How many names are bound. -/
def size (env : Environment) : Nat := env.bindings.length

/-- Whether no name is bound. -/
def isEmpty (env : Environment) : Bool := env.bindings.isEmpty

/-- The environment that definitions make one after the other. -/
def ofList (definitions : List Binding) : Environment :=
  definitions.foldl (fun env b => env.define b.1 b.2) empty

/-! ## Look-up -/

/-- An environment is its bindings. -/
@[ext] theorem ext {e f : Environment} (h : e.bindings = f.bindings) : e = f := by
  cases e; cases f; cases h; rfl

@[simp] theorem lookup_empty (name : String) : empty.lookup name = none := rfl

@[simp] theorem lookup_define_self (env : Environment) (name : String) (value : Value) :
    (env.define name value).lookup name = some value := by
  obtain ⟨bs, h⟩ := env
  show find? name (insert name value bs) = some value
  clear h
  induction bs with
  | nil => simp [insert, find?]
  | cons b bs ih =>
    rw [insert]
    split
    · simp [find?]
    · split
      · simp [find?]
      · next hne => rw [find?, if_neg (Ne.symm hne), ih]

/-- A definition leaves the other names alone. -/
theorem lookup_define_of_ne (env : Environment) {name other : String} (value : Value)
    (h : other ≠ name) : (env.define name value).lookup other = env.lookup other := by
  obtain ⟨bs, hbs⟩ := env
  show find? other (insert name value bs) = find? other bs
  clear hbs
  induction bs with
  | nil => simp [insert, find?, h.symm]
  | cons b bs ih =>
    rw [insert]
    split
    · simp [find?, h.symm]
    · split
      · next heq => simp [find?, ← heq, h.symm]
      · simp [find?, ih]

end Environment

end FlatScript
