import FlatScript.Proofs.Walk

/-!
# Reading always makes progress

Two loops and a recursion share one cursor, and nothing in their walks says that they end.  What
ends them is that a rule which succeeds has moved the cursor.  So the tokens that are left are a
budget: a statement is begun only where a token is left, and the next one is begun behind that
token.

`Progress.most` counts the statements begun so far and one more for each token that is left.  A walk
that succeeds does not raise it; a walk that fails has begun no more statements than it allowed.
`Counted` says both of a walk that ends, against a bound that stays the same from step to step.  The
four rules that call each other are counted together (`statement_counted` and the three behind it),
by recursion on the tokens that are left.

Main statement, `Walk.progress`.
-/

namespace FlatScript

open Cursor (before)
open Grammar (mark)

namespace Cursor

/-- What is passed over between two places of a list is what stands there. -/
theorem Passes.slice {ts : List Token} {i j : Nat} {us : List Grammar.Shape}
    (h : (before ts i).Passes us (before ts j)) (hij : i ≤ j) (hj : j ≤ ts.length) :
    us.length = j - i ∧ ((ts.drop i).take (j - i)).map Token.shape = us := by
  have hlength := h.length_eq
  rw [length_before, length_before] at hlength
  have hus : us.length = j - i := by omega
  obtain ⟨-, vs, rfl, hrest⟩ := h
  refine ⟨hus, ?_⟩
  rw [List.length_map] at hus
  show ((before ts i).rest.take (j - i)).map Token.shape = vs.map Token.shape
  rw [hrest, ← hus, List.take_left]

end Cursor

/-- The statements begun so far, and one more for each token that is left. -/
def Progress.most (ts : List Token) (p : Progress) : Nat := p.begun + (ts.length - p.index)

theorem Progress.begun_le_most (ts : List Token) (p : Progress) : p.begun ≤ p.most ts :=
  Nat.le_add_right _ _

theorem Progress.begun_lt_most {ts : List Token} {p : Progress} (h : p.index < ts.length) :
    p.begun < p.most ts := by
  rw [most]
  omega

namespace Walk

variable (ts : List Token)

/-- The walk ends with at most `n` statements begun.  If it succeeds, one more for each token that
is left still makes at most `n`. -/
def Counted (n : Nat) {c : Cursor} {α : Type} (w : Walk α) (x : Except ParseError (Read c α))
    (p : Progress) : Prop :=
  ∃ q, Ends ts w x p q ∧ q.begun ≤ n ∧ ∀ r, x = .ok r → q.most ts ≤ n

section Chains

variable {ts} {c d : Cursor} {α β : Type} {w : Walk α} {f : α → Walk β}
  {x : Except ParseError (Read c α)} {g : Read c α → Except ParseError (Read d β)}
  {p : Progress} {n : Nat}

/-- A quiet rule that succeeds has read a token and begun no statement for it. -/
theorem Quiet.counted (h : Quiet ts w x p) (hc : c = before ts p.index) (hn : p.begun ≤ n)
    (hm : p.most ts ≤ n + 1) : Counted ts n w x p := by
  obtain ⟨q, hq, hbegun⟩ := h
  refine ⟨q, hq, hbegun ▸ hn, ?_⟩
  rintro r rfl
  have hlt := hq.lt hc
  have hle := hq.le_length
  rw [Progress.most] at hm ⊢
  omega

theorem Counted.bind (h : Counted ts n w x p)
    (k : ∀ r q, x = .ok r → r.next = before ts q.index → q.index ≤ ts.length → q.most ts ≤ n →
      Counted ts n (f r.value) (g r) q) : Counted ts n (w >>= f) (x >>= g) p := by
  obtain ⟨q, hq, hbegun, hmost⟩ := h
  cases x with
  | error e => exact ⟨q, hq.bind_error, hbegun, nofun⟩
  | ok r =>
      obtain ⟨q', hq', hcount⟩ := k r q rfl (hq.next r rfl) hq.le_length (hmost r rfl)
      exact ⟨q', hq.bind_ok hq', hcount⟩

/-- What is made of an answer changes nothing of the walk to it. -/
theorem Counted.map {a : α → β} {shorter : ∀ r : Read c α, r.next.rest.length < d.rest.length}
    (h : Counted ts n w x p) :
    Counted ts n (do return a (← w)) (do let r ← x; return ⟨a r.value, r.next, shorter r⟩) p :=
  h.bind fun _ q _ hc hp hm =>
    ⟨q, .pure hc hp, Nat.le_trans (q.begun_le_most ts) hm, fun _ _ => hm⟩

theorem Counted.here {f : Cursor → Walk α} {x : Except ParseError (Read d α)}
    (hc : c = before ts p.index) (h : Counted ts n (f c) x p) :
    Counted ts n (here ts >>= f) x p := by
  subst hc
  obtain ⟨q, hq, hcount⟩ := h
  exact ⟨q, hq.of_run rfl (Nat.le_refl _), hcount⟩

theorem Counted.begin
    (h : ∀ q : Progress, q.index = p.index → q.begun = p.begun + 1 → Counted ts n w x q) :
    Counted ts n (do begin; w) x p := by
  obtain ⟨q, hq, hcount⟩ := h ⟨p.index, p.begun + 1⟩ rfl rfl
  exact ⟨q, hq.of_run rfl (Nat.le_refl _), hcount⟩

end Chains

/-! ## The rules that call each other -/

mutual

theorem statement_counted {c : Cursor} {p : Progress} {n : Nat} (hc : c = before ts p.index)
    (hp : p.index ≤ ts.length) (hn : p.begun < n) (hm : p.most ts ≤ n) :
    Counted ts n (statement ts) c.statement p := by
  rw [statement, Cursor.statement]
  -- The statement is counted before its first token is read, so the bound is short by one until
  -- a rule succeeds.
  refine .begin fun q hindex hbegun => ?_
  rw [← hindex] at hc hp
  have hm' : q.most ts ≤ n + 1 := by
    rw [Progress.most] at hm ⊢
    omega
  replace hn : q.begun ≤ n := hbegun ▸ hn
  refine .here hc ?_
  split
  · exact (Quiet.take hc hp fun _ hc hp => .pure hc hp).counted hc hn hm'
  · split
    · exact .map ((quiet_declaration hc hp).counted hc hn hm')
    · split
      · exact .map ((quiet_debugStatement hc hp).counted hc hn hm')
      · split
        · exact .map (conditional_counted hc hp hn hm')
        · exact (quiet_failHere hc hp).counted hc hn hm'
termination_by (c.rest.length, 2)

theorem conditional_counted {c : Cursor} {p : Progress} {n : Nat} (hc : c = before ts p.index)
    (hp : p.index ≤ ts.length) (hn : p.begun ≤ n) (hm : p.most ts ≤ n + 1) :
    Counted ts n (conditional ts) c.conditional p := by
  rw [conditional, Cursor.conditional]
  refine Counted.bind ((quiet_conditionalHead hc hp).counted hc hn hm) ?_
  intro condition q _ hc hp hm
  have := condition.shorter
  exact .map (block_counted hc hp (Nat.le_trans (q.begun_le_most ts) hm) (Nat.le_succ_of_le hm))
termination_by (c.rest.length, 1)

theorem block_counted {c : Cursor} {p : Progress} {n : Nat} (hc : c = before ts p.index)
    (hp : p.index ≤ ts.length) (hn : p.begun ≤ n) (hm : p.most ts ≤ n + 1) :
    Counted ts n (block ts) c.block p := by
  rw [block, Cursor.block]
  refine Counted.bind ((quiet_expectMark _ hc hp).counted hc hn hm) ?_
  intro start q _ hc hp hm
  have := start.shorter
  rw [← bind_pure (blockRest ts)]
  exact .map (blockRest_counted hc hp hm)
termination_by (c.rest.length, 0)

theorem blockRest_counted {c : Cursor} {p : Progress} {n : Nat} (hc : c = before ts p.index)
    (hp : p.index ≤ ts.length) (hm : p.most ts ≤ n) :
    Counted ts n (blockRest ts) c.blockRest p := by
  have hn := Nat.le_trans (p.begun_le_most ts) hm
  rw [blockRest, Cursor.blockRest]
  refine .here hc ?_
  split
  · exact .map ((quiet_expectMark _ hc hp).counted hc hn (Nat.le_succ_of_le hm))
  · next hopen =>
      have hlt : p.index < ts.length := by
        refine Nat.lt_of_not_le fun hend => hopen ?_
        rw [hc, Cursor.isAtEnd_before_iff.mpr hend, Bool.true_or]
      have hn := Nat.lt_of_lt_of_le (Progress.begun_lt_most hlt) hm
      refine Counted.bind (statement_counted hc hp hn hm) fun first q _ hc hp hm => ?_
      have := first.shorter
      exact .map (blockRest_counted hc hp hm)
termination_by (c.rest.length, 3)

end

/-- The outermost loop ends too. -/
theorem statements_ends {c : Cursor} {p : Progress} {n : Nat} (hc : c = before ts p.index)
    (hp : p.index ≤ ts.length) (hm : p.most ts ≤ n) :
    ∃ q, statements ts p = some (c.statements, q) ∧
      (∀ e, c.statements = .error e → e.At ts q.index) ∧
      p.index ≤ q.index ∧ q.index ≤ ts.length ∧ q.begun ≤ n := by
  have hrun : statements ts p
      = (if c.isAtEnd then pure [] else do
          let first ← statement ts
          let others ← statements ts
          return first.toList ++ others : Walk (List Stmt)) p := by
    subst hc
    conv =>
      lhs
      rw [statements]
    rfl
  rw [hrun, Cursor.statements]
  split
  · refine ⟨p, rfl, ?_, Nat.le_refl _, hp, Nat.le_trans (p.begun_le_most ts) hm⟩
    rintro _ ⟨⟩
  · next hopen =>
      have hlt : p.index < ts.length :=
        Nat.lt_of_not_le fun hend => hopen (hc ▸ Cursor.isAtEnd_before_iff.mpr hend)
      have hn := Nat.lt_of_lt_of_le (Progress.begun_lt_most hlt) hm
      obtain ⟨q, hq, hbegun, hmost⟩ := statement_counted ts hc hp hn hm
      cases hfirst : c.statement with
      | error e =>
          rw [hfirst] at hq
          refine ⟨q, bind_of_error hq.run, ?_, hq.le, hq.le_length, hbegun⟩
          rintro _ ⟨⟩
          exact hq.error_at e rfl
      | ok first =>
          rw [hfirst] at hq
          have := first.shorter
          obtain ⟨q', hrest, herror, hle, hlength, hbegun'⟩ :=
            statements_ends (hq.next first rfl) hq.le_length (hmost first hfirst)
          refine ⟨q', (bind_of_ok hq.run).trans (run_map hrest), fun e he => ?_,
            Nat.le_trans hq.le hle, hlength, hbegun'⟩
          rcases bind_eq_error_iff.mp he with he | ⟨_, ⟨⟩, he⟩
          · cases he
          · rcases bind_eq_error_iff.mp he with he | ⟨others, -, he⟩
            · exact herror e he
            · cases he
termination_by c.rest.length

/-! ## Every rule -/

/-- The rules of the reader, by what they answer. -/
inductive Rule : Type → Type where
  | operand : Rule Expr
  | expression : Rule Expr
  | declaration : Rule Stmt
  | debugStatement : Rule Stmt
  | conditionalHead : Rule Expr
  | conditional : Rule Stmt
  | statement : Rule (Option Stmt)
  | block : Rule (List Stmt)
  | blockRest : Rule (List Stmt)

namespace Rule

/-- The rule, as the reader has it. -/
def read {α : Type} : Rule α → (c : Cursor) → Except ParseError (Read c α)
  | operand, c => c.operand
  | expression, c => c.expression
  | declaration, c => c.declaration
  | debugStatement, c => c.debugStatement
  | conditionalHead, c => c.conditionalHead
  | conditional, c => c.conditional
  | statement, c => c.statement
  | block, c => c.block
  | blockRest, c => c.blockRest

/-- The rule, as a walk. -/
def walk {α : Type} : Rule α → Walk α
  | operand => Walk.operand ts
  | expression => Walk.expression ts
  | declaration => Walk.declaration ts
  | debugStatement => Walk.debugStatement ts
  | conditionalHead => Walk.conditionalHead ts
  | conditional => Walk.conditional ts
  | statement => Walk.statement ts
  | block => Walk.block ts
  | blockRest => Walk.blockRest ts

theorem counted {α : Type} (rule : Rule α) {c : Cursor} {p : Progress} {n : Nat}
    (hc : c = before ts p.index) (hp : p.index ≤ ts.length) (hn : p.begun < n)
    (hm : p.most ts ≤ n) : Counted ts n (rule.walk ts) (rule.read c) p := by
  have hle := Nat.le_of_lt hn
  have hm' := Nat.le_succ_of_le hm
  cases rule with
  | operand => exact (quiet_operand hc hp).counted hc hle hm'
  | expression => exact (quiet_expression hc hp).counted hc hle hm'
  | declaration => exact (quiet_declaration hc hp).counted hc hle hm'
  | debugStatement => exact (quiet_debugStatement hc hp).counted hc hle hm'
  | conditionalHead => exact (quiet_conditionalHead hc hp).counted hc hle hm'
  | conditional => exact conditional_counted ts hc hp hle hm'
  | statement => exact statement_counted ts hc hp hn hm
  | block => exact block_counted ts hc hp hle hm'
  | blockRest => exact blockRest_counted ts hc hp hm

end Rule

/-- From any place in any list of tokens, every rule ends with the answer of the reader, whether it
fails or not; the cursor has not moved backwards nor past the last token, and a rule that succeeds
has moved it.  A block that is read has two braces at its ends.  The loops begin at most one
statement for each token that is left, and so does the whole reader for the tokens of a program. -/
theorem progress (ts : List Token) (p : Progress) (hp : p.index ≤ ts.length) :
    (∀ {α : Type} (rule : Rule α), ∃ q,
        Ends ts (rule.walk ts) (rule.read (before ts p.index)) p q ∧
        (∀ r, rule.read (before ts p.index) = .ok r → p.index < q.index) ∧
        q.begun ≤ p.begun + max 1 (ts.length - p.index)) ∧
      (∃ q, Ends ts (block ts) (before ts p.index).block p q ∧
        (∀ r, (before ts p.index).block = .ok r → p.index + 2 ≤ q.index ∧
          ∃ us, ((ts.drop p.index).take (q.index - p.index)).map Token.shape
            = mark '\x7b' :: (us ++ [mark '\x7d'])) ∧
        q.begun ≤ p.begun + (ts.length - p.index)) ∧
      (∃ q, statements ts p = some ((before ts p.index).statements, q) ∧
        (∀ e, (before ts p.index).statements = .error e → e.At ts q.index) ∧
        p.index ≤ q.index ∧ q.index ≤ ts.length ∧
        q.begun ≤ p.begun + (ts.length - p.index)) ∧
      ∃ q, statements ts ⟨0, 0⟩ = some (Program.ofTokens ts, q) ∧
        q.index ≤ ts.length ∧ q.begun ≤ ts.length := by
  refine ⟨fun rule => ?_, ?_, statements_ends ts rfl hp (Nat.le_refl _), ?_⟩
  · have hm : p.most ts ≤ p.begun + max 1 (ts.length - p.index) :=
      Nat.add_le_add_left (Nat.le_max_right _ _) _
    obtain ⟨q, hq, hbegun, -⟩ := rule.counted ts rfl hp (by omega) hm
    refine ⟨q, hq, fun r hr => ?_, hbegun⟩
    rw [hr] at hq
    exact hq.lt rfl
  · have hm := Nat.le_refl (p.most ts)
    obtain ⟨q, hq, hbegun, -⟩ :=
      block_counted ts rfl hp (p.begun_le_most ts) (Nat.le_succ_of_le hm)
    refine ⟨q, hq, fun r hr => ?_, hbegun⟩
    obtain ⟨us, hus, -⟩ := Cursor.block_sound _ hr
    rw [hq.next r hr] at hus
    obtain ⟨hlength, hslice⟩ := hus.slice hq.le hq.le_length
    refine ⟨?_, us, hslice⟩
    rw [List.length_cons, List.length_append, List.length_singleton] at hlength
    omega
  · obtain ⟨q, hrun, -, -, hlength, hbegun⟩ := statements_ends ts (p := ⟨0, 0⟩)
      (Cursor.before_zero ts).symm (Nat.zero_le _) (Nat.le_of_eq (Nat.zero_add ts.length))
    exact ⟨q, hrun, hlength, hbegun⟩

/-- An opening brace and a bare `;`, and nothing that closes the block. -/
theorem progress_unclosed :
    let ts : List Token := [⟨.punctuation, "\x7b", .origin⟩, ⟨.punctuation, ";", .origin⟩]
    0 ≤ ts.length ∧ ∃ q, Ends ts (block ts) (before ts 0).block ⟨0, 0⟩ q ∧ q.begun ≤ 2 := by
  intro ts
  obtain ⟨q, hq, -, hbegun⟩ := (progress ts ⟨0, 0⟩ (Nat.zero_le _)).2.1
  exact ⟨Nat.zero_le _, q, hq, hbegun⟩

end Walk

end FlatScript
