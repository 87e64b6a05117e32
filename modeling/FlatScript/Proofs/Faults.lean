import FlatScript.Proofs.Reading
import FlatScript.Run.Session

/-!
# The first fault of an expression

Evaluation stops at the first operation that fails, so it never sees what the operations behind it
would have made of the failure.  Here the two sides are told apart.  `Expr.Worth` evaluates on
unbounded integers and checks nothing: an overflow goes on with its exact result.  `Expr.Faults`
says of a single node that it fails, given what its operands are worth.  Neither mentions an order
of evaluation, and 64 bits come in only as the range that an exact result has to keep to.

Main statement, `eval_exact`: an expression without a faulty node has the value that it is worth,
and any other fails with the error of the first faulty node in post-order.
-/

namespace FlatScript

/-! ## Values without a bound -/

/-- A value with an integer of any size. -/
inductive Quantity where
  | int (n : Int)
  | bool (b : Bool)
  | absent
deriving DecidableEq

/-- What a value amounts to. -/
def Value.quantity : Value → Quantity
  | .int n => .int n.toInt
  | .bool b => .bool b
  | .absent => .absent

theorem Value.quantity_injective {v w : Value} (h : v.quantity = w.quantity) : v = w := by
  cases v <;> cases w <;> simp_all [quantity, Int64.toInt_inj]

/-- The integers from `-2 ^ 63` to `2 ^ 63 - 1`. -/
def Integer.InRange (n : Int) : Prop := -0x8000000000000000 ≤ n ∧ n ≤ 0x7fffffffffffffff

theorem Integer.ofInt?_eq_none_iff_not_inRange {n : Int} : ofInt? n = none ↔ ¬ InRange n := by
  have hmin : Int64.minValue.toInt = -0x8000000000000000 := rfl
  have hmax : Int64.maxValue.toInt = 0x7fffffffffffffff := rfl
  rw [ofInt?_eq_none_iff, InRange, hmin, hmax]
  omega

theorem Integer.inRange_toInt (n : Int64) : InRange n.toInt :=
  ⟨n.minValue_le_toInt, n.toInt_le⟩

namespace Operator

/-! ## Operators on values without a bound -/

/-- `op.Computes a b n`: the exact result.  A quotient is truncated toward zero: what it leaves
over is smaller than the divisor and lies on the side of the dividend. -/
inductive Computes : Operator → Int → Int → Int → Prop
  | add (a b : Int) : Computes .add a b (a + b)
  | sub (a b : Int) : Computes .sub a b (a - b)
  | mul (a b : Int) : Computes .mul a b (a * b)
  | div {a b q r : Int} : a = b * q + r → r.natAbs < b.natAbs → (0 ≤ a → 0 ≤ r) →
      (a ≤ 0 → r ≤ 0) → Computes .div a b q

/-- What an operator yields, whatever the size of the result. -/
inductive Yields : Operator → Quantity → Quantity → Quantity → Prop
  | integer {op : Operator} {a b n : Int} : op.Computes a b n →
      Yields op (.int a) (.int b) (.int n)
  | comparison (p q : Quantity) : Yields .is p q (.bool (decide (p = q)))

/-- Why an operator is refused. -/
inductive Refuses : Operator → Quantity → Quantity → EvalError → Prop
  | mixed {op : Operator} {p q : Quantity} : op ≠ .is → (∀ a b, p = .int a → q ≠ .int b) →
      Refuses op p q (.unknownOperator op.symbol)
  | zeroDivisor (a : Int) : Refuses .div (.int a) (.int 0) .divisionByZero
  | overflow {op : Operator} {a b n : Int} : op.Computes a b n → ¬ Integer.InRange n →
      Refuses op (.int a) (.int b) (.integerOverflow op)

variable {op : Operator} {a b n m : Int} {p q u u' : Quantity} {v w x : Value}
  {error error' : EvalError}

theorem computes_div_iff : Computes .div a b n ↔ b ≠ 0 ∧ a.tdiv b = n := by
  constructor
  · intro h
    cases h with
    | div ha hlt hpos hneg =>
        have hb : b ≠ 0 := by omega
        refine ⟨hb, ?_⟩
        rcases Int.le_total 0 a with h | h
        · exact ((Int.tdiv_tmod_unique h hb).mpr ⟨by omega, hpos h, by omega⟩).1
        · exact ((Int.tdiv_tmod_unique' h hb).mpr ⟨by omega, by omega, hneg h⟩).1
  · rintro ⟨hb, rfl⟩
    have hpos : 0 ≤ a → 0 ≤ a.tmod b := Int.tmod_nonneg b
    have hneg : a ≤ 0 → a.tmod b ≤ 0 := by
      intro h
      exact ((Int.tdiv_tmod_unique' h hb).mp ⟨rfl, rfl⟩).2.2
    have hlt : (a.tmod b).natAbs < b.natAbs := by
      rw [Int.natAbs_tmod]
      exact Nat.mod_lt _ (by omega)
    exact .div (Int.mul_tdiv_add_tmod a b).symm hlt hpos hneg

theorem Computes.unique (h : op.Computes a b n) (h' : op.Computes a b m) : n = m := by
  cases h with
  | add => cases h'; rfl
  | sub => cases h'; rfl
  | mul => cases h'; rfl
  | div ha hlt hpos hneg =>
      obtain ⟨-, rfl⟩ := computes_div_iff.mp (.div ha hlt hpos hneg)
      exact (computes_div_iff.mp h').2

theorem Yields.unique (h : op.Yields p q u) (h' : op.Yields p q u') : u = u' := by
  cases h with
  | integer hn =>
      cases h' with
      | integer hm => rw [hn.unique hm]
      | comparison => cases hn
  | comparison =>
      cases h' with
      | integer hn => cases hn
      | comparison => rfl

theorem Refuses.unique (h : op.Refuses p q error) (h' : op.Refuses p q error') :
    error = error' := by
  cases h with
  | mixed _ hmixed =>
      cases h' with
      | mixed => rfl
      | zeroDivisor => exact absurd rfl (hmixed _ _ rfl)
      | overflow => exact absurd rfl (hmixed _ _ rfl)
  | zeroDivisor =>
      cases h' with
      | mixed _ hmixed => exact absurd rfl (hmixed _ _ rfl)
      | zeroDivisor => rfl
      | overflow hn => exact absurd rfl (computes_div_iff.mp hn).1
  | overflow hn =>
      cases h' with
      | mixed _ hmixed => exact absurd rfl (hmixed _ _ rfl)
      | zeroDivisor => exact absurd rfl (computes_div_iff.mp hn).1
      | overflow => rfl

/-- Where there is an exact result, the only reason to refuse it is its size. -/
theorem Refuses.not_inRange (h : op.Refuses (.int a) (.int b) error) (hn : op.Computes a b n) :
    ¬ Integer.InRange n := by
  cases h with
  | mixed _ hmixed => exact absurd rfl (hmixed _ _ rfl)
  | zeroDivisor => exact absurd rfl (computes_div_iff.mp hn).1
  | overflow hm hrange => rwa [hn.unique hm]

theorem not_refuses_is : ¬ Refuses .is p q error := by
  intro h
  cases h with
  | mixed hop => exact hop rfl
  | overflow hn => cases hn

/-! ## Operators on values -/

theorem apply_of_mixed (op : Operator) (h : ∀ a b, v = .int a → w ≠ .int b) :
    op.apply v w = if op = .is then .ok (.bool (decide (v = w)))
      else .error (.unknownOperator op.symbol) := by
  unfold apply
  split
  · exact absurd rfl (h _ _ rfl)
  · cases op <;> rfl

/-- What an operator does with two values: compare them, refuse them, or compute an integer and
see whether it is in range. -/
theorem apply_cases (op : Operator) (v w : Value) :
    (op = .is ∧ op.apply v w = .ok (.bool (decide (v = w)))) ∨
    (∃ error, op.Refuses v.quantity w.quantity error ∧ op.apply v w = .error error) ∨
    ∃ a b n, v.quantity = .int a ∧ w.quantity = .int b ∧ op.Computes a b n ∧
      op.apply v w = inRange op n := by
  by_cases hints : ∃ a b, v = .int a ∧ w = .int b
  · obtain ⟨a, b, rfl, rfl⟩ := hints
    cases op with
    | add => exact .inr (.inr ⟨_, _, _, rfl, rfl, .add _ _, rfl⟩)
    | sub => exact .inr (.inr ⟨_, _, _, rfl, rfl, .sub _ _, rfl⟩)
    | mul => exact .inr (.inr ⟨_, _, _, rfl, rfl, .mul _ _, rfl⟩)
    | div =>
        by_cases hb : b = 0
        · subst hb
          exact .inr (.inl ⟨_, .zeroDivisor _, rfl⟩)
        · have hb' : b.toInt ≠ 0 := by
            intro h
            exact hb (Int64.toInt_inj.mp h)
          refine .inr (.inr ⟨_, _, _, rfl, rfl, computes_div_iff.mpr ⟨hb', rfl⟩, ?_⟩)
          exact if_neg hb
    | is => exact .inl ⟨rfl, by simp [apply, onInts, beq_eq_decide]⟩
  · have hmixed : ∀ a b, v = .int a → w ≠ .int b := fun a b hv hw => hints ⟨a, b, hv, hw⟩
    rw [apply_of_mixed op hmixed]
    by_cases hop : op = .is
    · exact .inl ⟨hop, if_pos hop⟩
    · refine .inr (.inl ⟨_, .mixed hop ?_, if_neg hop⟩)
      intro a b hv hw
      cases v <;> cases w <;> simp_all [Value.quantity]

/-- Of the results in range, the operator gives the exact one. -/
theorem apply_of_ok (h : op.apply v w = .ok x) :
    op.Yields v.quantity w.quantity x.quantity ∧
      ∀ error, ¬ op.Refuses v.quantity w.quantity error := by
  rcases apply_cases op v w with ⟨rfl, heq⟩ | ⟨error, -, heq⟩ | ⟨a, b, n, hv, hw, hn, heq⟩
  · rw [heq] at h
    cases h
    have hsame : decide (v = w) = decide (v.quantity = w.quantity) := by
      simp only [decide_eq_decide]
      exact ⟨congrArg _, Value.quantity_injective⟩
    refine ⟨?_, fun error => not_refuses_is⟩
    rw [hsame]
    exact .comparison _ _
  · rw [heq] at h
    cases h
  · rw [heq, inRange] at h
    split at h
    · next i hi =>
        cases h
        obtain rfl := Integer.ofInt?_eq_some_iff.mp hi
        rw [hv, hw]
        refine ⟨.integer hn, ?_⟩
        intro error herror
        exact herror.not_inRange hn (Integer.inRange_toInt i)
    · cases h

/-- An operator fails for the reason that it is refused for. -/
theorem apply_of_error (h : op.apply v w = .error error) :
    op.Refuses v.quantity w.quantity error := by
  rcases apply_cases op v w with ⟨rfl, heq⟩ | ⟨error', herror, heq⟩ | ⟨a, b, n, hv, hw, hn, heq⟩
  · rw [heq] at h
    cases h
  · rw [heq] at h
    cases h
    exact herror
  · rw [heq, inRange] at h
    split at h
    · cases h
    · next hnone =>
        cases h
        rw [hv, hw]
        exact .overflow hn (Integer.ofInt?_eq_none_iff_not_inRange.mp hnone)

end Operator

/-! ## The nodes of an expression -/

namespace Expr

/-- The nodes of an expression, operands before their operator and the left one first. -/
def postorder : Expr → List Expr
  | .binary op left right => left.postorder ++ right.postorder ++ [.binary op left right]
  | e => [e]

variable {env : Environment} {op : Operator} {e left right : Expr} {p q : Quantity} {v w : Value}
  {error error' : EvalError}

/-- What an expression is worth on unbounded integers.  Nothing is checked. -/
inductive Worth (env : Environment) : Expr → Quantity → Prop
  | literal (n : Int64) : Worth env (.literal n) (.int n.toInt)
  | identifier {x : String} {v : Value} : env.lookup x = some v →
      Worth env (.identifier x) v.quantity
  | binary {op : Operator} {left right : Expr} {p q u : Quantity} : Worth env left p →
      Worth env right q → op.Yields p q u → Worth env (.binary op left right) u

/-- A node fails by itself: it reads a name that is not bound, or its operator is refused for what
the operands are worth. -/
inductive Faults (env : Environment) : Expr → EvalError → Prop
  | unbound {x : String} : env.lookup x = none → Faults env (.identifier x) (.unboundIdentifier x)
  | refused {op : Operator} {left right : Expr} {p q : Quantity} {error : EvalError} :
      Worth env left p → Worth env right q → op.Refuses p q error →
      Faults env (.binary op left right) error

/-- The node does not fail by itself. -/
def Faultless (env : Environment) (e : Expr) : Prop := ∀ error, ¬ e.Faults env error

/-- The first of the nodes that fails by itself fails with the error. -/
def FirstFault (env : Environment) (nodes : List Expr) (error : EvalError) : Prop :=
  ∃ before node behind, nodes = before ++ node :: behind ∧
    (∀ m ∈ before, m.Faultless env) ∧ node.Faults env error

theorem Worth.unique (h : e.Worth env p) (h' : e.Worth env q) : p = q := by
  induction h generalizing q with
  | literal n =>
      cases h'
      rfl
  | identifier hx =>
      cases h' with
      | identifier hx' =>
          cases hx.symm.trans hx'
          rfl
  | binary _ _ hu ihl ihr =>
      cases h' with
      | binary hl hr hu' =>
          cases ihl hl
          cases ihr hr
          exact hu.unique hu'

theorem Faults.unique (h : e.Faults env error) (h' : e.Faults env error') : error = error' := by
  cases h with
  | unbound =>
      cases h' with
      | unbound => rfl
  | refused hl hr herror =>
      cases h' with
      | refused hl' hr' herror' =>
          cases hl.unique hl'
          cases hr.unique hr'
          exact herror.unique herror'

theorem Faults.firstFault (h : e.Faults env error) : FirstFault env [e] error :=
  ⟨[], e, [], rfl, nofun, h⟩

section Lists

variable {us vs : List Expr}

/-- A first fault stays the first one in front of other nodes, and behind nodes without a fault. -/
theorem FirstFault.append_right (h : FirstFault env us error) (vs : List Expr) :
    FirstFault env (us ++ vs) error := by
  obtain ⟨before, node, behind, rfl, hbefore, hnode⟩ := h
  exact ⟨before, node, behind ++ vs, by simp, hbefore, hnode⟩

theorem FirstFault.append_left (hus : ∀ m ∈ us, m.Faultless env) (h : FirstFault env vs error) :
    FirstFault env (us ++ vs) error := by
  obtain ⟨before, node, behind, rfl, hbefore, hnode⟩ := h
  refine ⟨us ++ before, node, behind, by simp, ?_, hnode⟩
  intro m hm
  exact (List.mem_append.mp hm).elim (hus m) (hbefore m)

theorem FirstFault.not_faultless (h : FirstFault env us error) : ¬ ∀ m ∈ us, m.Faultless env := by
  obtain ⟨before, node, behind, rfl, -, hnode⟩ := h
  intro hall
  exact hall node (by simp) error hnode

open Classical in
theorem FirstFault.find?_eq_some (h : FirstFault env us error) :
    ∃ node, us.find? (¬ Faultless env ·) = some node ∧ node.Faults env error := by
  obtain ⟨before, node, behind, rfl, hbefore, hnode⟩ := h
  refine ⟨node, List.find?_eq_some_iff_append.mpr ⟨?_, before, behind, rfl, ?_⟩, hnode⟩
  · simpa using fun hfaultless => hfaultless error hnode
  · simpa using hbefore

theorem FirstFault.unique (h : FirstFault env us error) (h' : FirstFault env us error') :
    error = error' := by
  obtain ⟨node, hnode, hfaults⟩ := h.find?_eq_some
  obtain ⟨node', hnode', hfaults'⟩ := h'.find?_eq_some
  cases hnode.symm.trans hnode'
  exact hfaults.unique hfaults'

end Lists

/-! ## Evaluation -/

theorem faultless_of_eval (h : e.eval env = .ok v) :
    (∀ node ∈ e.postorder, node.Faultless env) ∧ e.Worth env v.quantity := by
  induction e generalizing v with
  | literal n =>
      cases h
      exact ⟨List.forall_mem_singleton.mpr nofun, .literal n⟩
  | identifier x =>
      rw [eval] at h
      split at h
      · next hx =>
          cases h
          refine ⟨List.forall_mem_singleton.mpr ?_, .identifier hx⟩
          intro error herror
          cases herror with
          | unbound hnone => cases hx.symm.trans hnone
      · cases h
  | binary op left right ihl ihr =>
      obtain ⟨l, hl, h⟩ := bind_eq_ok_iff.mp h
      obtain ⟨r, hr, h⟩ := bind_eq_ok_iff.mp h
      obtain ⟨hleft, hworthl⟩ := ihl hl
      obtain ⟨hright, hworthr⟩ := ihr hr
      obtain ⟨hyields, hnot⟩ := Operator.apply_of_ok h
      refine ⟨?_, .binary hworthl hworthr hyields⟩
      rw [postorder, List.forall_mem_append, List.forall_mem_append, List.forall_mem_singleton]
      refine ⟨⟨hleft, hright⟩, ?_⟩
      intro error herror
      cases herror with
      | refused hl' hr' hrefuses =>
          cases hworthl.unique hl'
          cases hworthr.unique hr'
          exact hnot error hrefuses

theorem firstFault_of_eval (h : e.eval env = .error error) :
    FirstFault env e.postorder error := by
  induction e with
  | literal n => cases h
  | identifier x =>
      rw [eval] at h
      split at h
      · cases h
      · next hx =>
          cases h
          exact Faults.firstFault (.unbound hx)
  | binary op left right ihl ihr =>
      rw [postorder, List.append_assoc]
      rcases bind_eq_error_iff.mp h with h | ⟨l, hl, h⟩
      · exact (ihl h).append_right _
      obtain ⟨hleft, hworthl⟩ := faultless_of_eval hl
      refine .append_left hleft ?_
      rcases bind_eq_error_iff.mp h with h | ⟨r, hr, h⟩
      · exact (ihr h).append_right _
      obtain ⟨hright, hworthr⟩ := faultless_of_eval hr
      refine .append_left hright ?_
      exact Faults.firstFault (.refused hworthl hworthr (Operator.apply_of_error h))

/-- A comparison of two expressions that have values has one, namely whether these are the same:
of one kind, and equal. -/
theorem eval_comparison (hl : left.eval env = .ok v) (hr : right.eval env = .ok w) :
    eval env (.binary .is left right) = .ok (.bool (decide (v = w))) := by
  refine bind_eq_ok_iff.mpr ⟨v, hl, bind_eq_ok_iff.mpr ⟨w, hr, ?_⟩⟩
  rcases Operator.apply_cases .is v w with ⟨-, h⟩ | ⟨error, h, -⟩ | ⟨a, b, n, -, -, h, -⟩
  · exact h
  · exact absurd h Operator.not_refuses_is
  · cases h

/-- Evaluation in 64 bits is exact evaluation up to the first fault.  An expression has a value
exactly if none of its nodes fails by itself, and the value is what the expression is worth on
unbounded integers; otherwise it fails as the first node in post-order does that fails by itself.
A comparison of two values is never that node. -/
theorem eval_exact (env : Environment) (e : Expr) :
    ((∃ v, e.eval env = .ok v) ↔ ∀ node ∈ e.postorder, node.Faultless env) ∧
    (∀ v, e.eval env = .ok v ↔
      (∀ node ∈ e.postorder, node.Faultless env) ∧ e.Worth env v.quantity) ∧
    (∀ error, e.eval env = .error error ↔ FirstFault env e.postorder error) ∧
    (∀ left right v w, left.eval env = .ok v → right.eval env = .ok w →
      eval env (.binary .is left right) = .ok (.bool (decide (v = w)))) := by
  have hvalue : (∀ node ∈ e.postorder, node.Faultless env) → ∃ v, e.eval env = .ok v := by
    intro hfaultless
    cases h : e.eval env with
    | ok v => exact ⟨v, rfl⟩
    | error error => exact absurd hfaultless (firstFault_of_eval h).not_faultless
  refine ⟨⟨fun ⟨_, h⟩ => (faultless_of_eval h).1, hvalue⟩, fun v => ⟨faultless_of_eval, ?_⟩,
    fun error => ⟨firstFault_of_eval, ?_⟩, fun _ _ _ _ => eval_comparison⟩
  · rintro ⟨hfaultless, hworth⟩
    obtain ⟨w, hw⟩ := hvalue hfaultless
    have hsame := hworth.unique (faultless_of_eval hw).2
    rw [hw, Value.quantity_injective hsame]
  · intro hfault
    cases h : e.eval env with
    | ok w => exact absurd (faultless_of_eval h).1 hfault.not_faultless
    | error error' => rw [hfault.unique (firstFault_of_eval h)]

/-- With the greatest integer for `big`, `(big + 1 - 1) / missing` fails at its sum, although the
difference is in range again and `missing` is not bound; and `big is big` holds. -/
theorem eval_exact_competing :
    FirstFault (.define .empty "big" (.int Int64.maxValue))
      [.identifier "big", .literal 1, .binary .add (.identifier "big") (.literal 1), .literal 1,
        .binary .sub (.binary .add (.identifier "big") (.literal 1)) (.literal 1),
        .identifier "missing",
        .binary .div (.binary .sub (.binary .add (.identifier "big") (.literal 1)) (.literal 1))
          (.identifier "missing")] (.integerOverflow .add) ∧
    eval (.define .empty "big" (.int Int64.maxValue))
      (.binary .is (.identifier "big") (.identifier "big")) = .ok (.bool true) := by
  obtain ⟨-, -, herror, hcomparison⟩ := eval_exact (.define .empty "big" (.int Int64.maxValue))
    (.binary .div (.binary .sub (.binary .add (.identifier "big") (.literal 1)) (.literal 1))
      (.identifier "missing"))
  refine ⟨(herror _).mp rfl, ?_⟩
  exact hcomparison (.identifier "big") (.identifier "big") (.int Int64.maxValue)
    (.int Int64.maxValue) rfl rfl

example : eval .empty (.binary .div (.literal Int64.minValue) (.literal (-1)))
    = .error (.integerOverflow .div) := rfl

end Expr

end FlatScript
