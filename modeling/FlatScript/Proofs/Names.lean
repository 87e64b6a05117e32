import FlatScript.Program.Basic

/-!
# The names of a program

A program mentions a name where it declares it, reads it in an expression, or prints it.  Names
are listed in the order in which they stand in the program, each as often as it is mentioned.

Among the names mentioned are those declared, at any depth, whether the declaration runs or not.  A
program may also be rewritten with other names throughout.
-/

namespace FlatScript

/-- The names that an expression reads. -/
def Expr.names : Expr → List String
  | .literal _ => []
  | .identifier x => [x]
  | .binary _ left right => left.names ++ right.names

mutual

/-- The names that a statement mentions, at any depth. -/
def Stmt.names : Stmt → List String
  | .declare x value => x :: value.names
  | .debug x => [x]
  | .when condition body => condition.names ++ Program.names body

/-- The names that statements mention. -/
def Program.names : Program → List String
  | [] => []
  | stmt :: rest => Stmt.names stmt ++ Program.names rest

end

/-! ## Names declared -/

mutual

/-- The names that a statement declares, at any depth. -/
def Stmt.declared : Stmt → List String
  | .declare x _ => [x]
  | .debug _ => []
  | .when _ body => Program.declared body

/-- The names that statements declare, at any depth. -/
def Program.declared : Program → List String
  | [] => []
  | stmt :: rest => Stmt.declared stmt ++ Program.declared rest

end

mutual

theorem Stmt.declared_subset_names : ∀ stmt : Stmt, stmt.declared ⊆ stmt.names
  | .declare x e => List.cons_subset_cons x (List.nil_subset e.names)
  | .debug x => List.nil_subset [x]
  | .when c body =>
      List.Subset.trans (Program.declared_subset_names body) (List.subset_append_right c.names _)

/-- What is declared is mentioned. -/
theorem Program.declared_subset_names : ∀ p : Program, p.declared ⊆ p.names
  | [] => List.Subset.refl _
  | stmt :: p => by
      rw [Program.declared, Program.names, List.append_subset]
      exact ⟨List.subset_append_of_subset_left _ stmt.declared_subset_names,
        List.subset_append_of_subset_right _ (Program.declared_subset_names p)⟩

end

theorem Program.declared_append (p q : Program) :
    Program.declared (p ++ q) = p.declared ++ q.declared := by
  induction p with
  | nil => rfl
  | cons stmt p ih => rw [List.cons_append, declared, declared, ih, List.append_assoc]

theorem Program.names_append (p q : Program) : Program.names (p ++ q) = p.names ++ q.names := by
  induction p with
  | nil => rfl
  | cons stmt p ih => rw [List.cons_append, names, names, ih, List.append_assoc]

/-! ## Other names -/

/-- An expression with other names. -/
def Expr.rename (r : String → String) : Expr → Expr
  | .literal n => .literal n
  | .identifier x => .identifier (r x)
  | .binary op left right => .binary op (left.rename r) (right.rename r)

mutual

/-- A statement with other names. -/
def Stmt.rename (r : String → String) : Stmt → Stmt
  | .declare x value => .declare (r x) (value.rename r)
  | .debug x => .debug (r x)
  | .when condition body => .when (condition.rename r) (Program.rename r body)

/-- A program with other names throughout. -/
def Program.rename (r : String → String) : Program → Program
  | [] => []
  | stmt :: rest => Stmt.rename r stmt :: Program.rename r rest

end

theorem Expr.rename_id (e : Expr) : e.rename id = e := by
  induction e with
  | literal n => rfl
  | identifier x => rfl
  | binary op left right ihl ihr => rw [rename, ihl, ihr]

mutual

theorem Stmt.rename_id : ∀ stmt : Stmt, stmt.rename id = stmt
  | .declare x e => by rw [Stmt.rename, e.rename_id, id]
  | .debug x => rfl
  | .when c body => by rw [Stmt.rename, c.rename_id, Program.rename_id body]

theorem Program.rename_id : ∀ p : Program, p.rename id = p
  | [] => rfl
  | stmt :: p => by rw [Program.rename, stmt.rename_id, Program.rename_id p]

end

theorem Program.rename_append (r : String → String) (p q : Program) :
    Program.rename r (p ++ q) = p.rename r ++ q.rename r := by
  induction p with
  | nil => rfl
  | cons stmt p ih => rw [List.cons_append, rename, rename, ih, List.cons_append]

end FlatScript
