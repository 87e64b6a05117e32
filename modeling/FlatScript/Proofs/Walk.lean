import FlatScript.Proofs.Grammar

/-!
# Reading with one cursor that is moved

A rule of the reader takes a cursor and answers with the cursor behind what it read, together with
the fact that fewer tokens are left.  That fact ends its recursion, and a rule that fails answers
with no cursor at all.  Here the same rules move one cursor over a list of tokens that stays as it
is.  The cursor is an index, it is kept where a rule fails, and nothing in a rule says that the rule
ends: a `Walk` that goes on for ever is `none`.

`Ends` says of a walk that it ends, with the answer of the reader, and where it leaves the cursor.
Most rules begin no statement (`Quiet`), and a chain of them is quiet by `Quiet.bind`, so each of
them is checked along its steps.  The statements and the two loops need a count of what is begun and
are left to `FlatScript.Proofs.Progress`.
-/

namespace FlatScript

namespace Cursor

/-- The cursor before the token at an index. -/
def before (ts : List Token) (index : Nat) : Cursor := ⟨ts.drop index, finishOf ts⟩

theorem before_zero (ts : List Token) : before ts 0 = ofTokens ts := rfl

variable {ts : List Token} {i : Nat}

theorem length_before : (before ts i).rest.length = ts.length - i :=
  List.length_drop

theorem before_of_getElem? {t : Token} (h : ts[i]? = some t) :
    before ts i = ⟨t :: ts.drop (i + 1), finishOf ts⟩ := by
  obtain ⟨hi, rfl⟩ := List.getElem?_eq_some_iff.mp h
  exact Cursor.ext (List.drop_eq_getElem_cons hi) rfl

theorem getElem?_of_before {t : Token} {rest : List Token} {finish : Span}
    (h : ⟨t :: rest, finish⟩ = before ts i) : ts[i]? = some t := by
  rw [← List.head?_drop, ← (Cursor.mk.inj h).1, List.head?_cons]

/-- Behind the token at an index stands the next index. -/
theorem next_eq_before {t : Token} {rest : List Token} {finish : Span}
    (h : ⟨t :: rest, finish⟩ = before ts i) :
    i < ts.length ∧ ⟨rest, finish⟩ = before ts (i + 1) := by
  obtain ⟨hrest, hfinish⟩ := Cursor.mk.inj h
  have hlen : rest.length + 1 = ts.length - i := by
    rw [← List.length_drop, ← hrest, List.length_cons]
  refine ⟨by omega, Cursor.ext ?_ hfinish⟩
  show rest = ts.drop (i + 1)
  rw [← List.drop_drop, ← hrest, List.drop_one, List.tail_cons]

theorem current_before : (before ts i).current = ts[i]? :=
  List.head?_drop

theorem isAtEnd_before_iff : (before ts i).isAtEnd = true ↔ ts.length ≤ i := by
  rw [isAtEnd_iff]
  exact List.drop_eq_nil_iff

end Cursor

open Cursor (before)

/-- The span is the point where a list of tokens ends: where its last token stops, and at the start
of the source if there is no token. -/
structure Span.IsEndOf (s : Span) (ts : List Token) : Prop where
  last : ∀ t, ts.getLast? = some t → s.start = t.span.stop ∧ s.stop = t.span.stop
  nil : ts = [] → s.start = 0 ∧ s.stop = 0

theorem Cursor.finishOf_isEndOf (ts : List Token) : (finishOf ts).IsEndOf ts where
  last t ht := by
    rw [finishOf, ht]
    exact ⟨rfl, rfl⟩
  nil hts := by
    rw [hts]
    exact ⟨rfl, rfl⟩

/-- The error complains of what stands at an index of the list. -/
inductive ParseError.At (ts : List Token) (i : Nat) : ParseError → Prop
  | token {t : Token} (expected : Expected) : ts[i]? = some t →
      At ts i (.unexpected expected (.ofToken t) t.span)
  | finish {s : Span} (expected : Expected) : ts.length ≤ i → s.IsEndOf ts →
      At ts i (.unexpected expected .endOfInput s)
  | literal {t : Token} : ts[i]? = some t → At ts i (.literalOutOfRange t)

theorem Cursor.errorHere_at {c : Cursor} {ts : List Token} {i : Nat} (hc : c = before ts i)
    (expected : Expected) : (c.errorHere expected).At ts i := by
  obtain ⟨rest, finish⟩ := c
  cases rest with
  | nil =>
      obtain ⟨hrest, rfl⟩ := Cursor.mk.inj hc
      exact .finish expected (List.drop_eq_nil_iff.mp hrest.symm) (finishOf_isEndOf ts)
  | cons t rest => exact .token expected (getElem?_of_before hc)

/-! ## The rules -/

/-- How far a walk has come. -/
structure Progress where
  /-- The index of the token that is read next. -/
  index : Nat
  /-- How many statements have been begun. -/
  begun : Nat
deriving DecidableEq

/-- A computation that moves a cursor, may fail, and may not end. -/
abbrev Walk (α : Type) := ExceptT ParseError (StateT Progress Option) α

namespace Walk

variable (ts : List Token)

/-- The cursor, to be looked at. -/
def here : Walk Cursor := return before ts (← get).index

/-- Moves the cursor behind the token it is at.  It would move beyond the last token as well. -/
def advance : Walk Unit := modify fun p => { p with index := p.index + 1 }

/-- Hands out the token at the cursor, if one is left, and moves behind it. -/
def take : Walk (Option Token) := do
  match (← here ts).current with
  | some t =>
    advance
    return some t
  | none => return none

/-- Counts a statement that is begun. -/
def begin : Walk Unit := modify fun p => { p with begun := p.begun + 1 }

/-- Fails where the cursor is. -/
def failHere {α : Type} (expected : Expected) : Walk α := do
  throw ((← here ts).errorHere expected)

/-- Reads a token that passes a test, or fails. -/
def readIf (accepts : Token → Bool) (expected : Expected) : Walk Token := do
  match (← here ts).current with
  | some t =>
    if accepts t then
      advance
      return t
    else failHere ts expected
  | none => failHere ts expected

def expect (kind : TokenKind) (text : String) : Walk Token :=
  readIf ts (·.isExactly kind text) (.exactly kind text)

def expectMark (mark : Char) : Walk Token :=
  expect ts .punctuation (String.singleton mark)

def expectKind (kind : TokenKind) : Walk Token :=
  readIf ts (·.kind == kind) (.someToken kind)

/-- An operand.  A number is looked at, and read if it is an integer of the language. -/
def operand : Walk Expr := do
  match (← here ts).current with
  | some t =>
    if t.kind == .number then
      match Integer.read? t.text with
      | some n =>
        advance
        return .literal n
      | none => throw (.literalOutOfRange t)
    else
      let name ← readIf ts (·.kind == .identifier) .operand
      return .identifier name.text
  | none => failHere ts .operand

/-- An expression.  The operator is looked at, and read if it is arithmetic. -/
def expression : Walk Expr := do
  let left ← operand ts
  match (← here ts).arithmetic? with
  | none => return left
  | some op =>
    advance
    let right ← operand ts
    return .binary op.value left right

/-- A declaration.  Its first token is taken, whatever it is. -/
def declaration : Walk Stmt := do
  let _ ← take ts
  let name ← expectKind ts .identifier
  let _ ← expect ts .operator "="
  let value ← expression ts
  let _ ← expectMark ts ';'
  return .declare name.text value

def debugStatement : Walk Stmt := do
  let _ ← take ts
  let name ← expectKind ts .identifier
  let _ ← expectMark ts ';'
  return .debug name.text

def conditionalHead : Walk Expr := do
  let _ ← take ts
  let left ← expression ts
  let _ ← expect ts .operator Operator.is.symbol
  let right ← expression ts
  return .binary .is left right

-- A recursive call that is written out leaves a note in the definition of where it stands in the
-- source.  With `apply` the definition is the same wherever it stands.
mutual

/-- A statement, which is counted as it begins. -/
def statement : Walk (Option Stmt) := do
  begin
  let c ← here ts
  if c.checkMark ';' then
    let _ ← take ts
    return none
  else if c.checkKeyword .declare then
    let s ← declaration ts
    return some s
  else if c.checkKeyword .debug then
    let s ← debugStatement ts
    return some s
  else if c.checkKeyword .when then
    let s ← by apply conditional
    return some s
  else failHere ts .statement
partial_fixpoint

/-- A conditional: its head, and a block. -/
def conditional : Walk Stmt := do
  let condition ← conditionalHead ts
  let body ← by apply block
  return .when condition body
partial_fixpoint

/-- A block: statements in braces. -/
def block : Walk (List Stmt) := do
  let _ ← expectMark ts '\x7b'
  by apply blockRest
partial_fixpoint

/-- The loop of a block, and the brace it stops at. -/
def blockRest : Walk (List Stmt) := do
  let c ← here ts
  if c.isAtEnd || c.checkMark '\x7d' then
    let _ ← expectMark ts '\x7d'
    return []
  else
    let first : Option Stmt ← by apply statement
    let others ← by apply blockRest
    return first.toList ++ others
partial_fixpoint

end

/-- The outermost loop. -/
def statements : Walk (List Stmt) := do
  if (← here ts).isAtEnd then
    return []
  else
    let first ← statement ts
    let others ← by apply statements
    return first.toList ++ others
partial_fixpoint

/-! ## How a walk ends -/

section Run

variable {α β : Type} {w : Walk α} {f : α → Walk β} {p q : Progress}

theorem bind_of_ok {a : α} (h : w p = some (.ok a, q)) : (w >>= f) p = f a q := by
  show (w p).bind _ = _
  rw [h]
  rfl

theorem bind_of_error {e : ParseError} (h : w p = some (.error e, q)) :
    (w >>= f) p = some (.error e, q) := by
  show (w p).bind _ = _
  rw [h]
  rfl

theorem run_map {x : Except ParseError α} {a : α → β} (h : w p = some (x, q)) :
    (do return a (← w) : Walk β) p = some (do return a (← x), q) := by
  cases x with
  | error e => exact bind_of_error h
  | ok v => exact bind_of_ok h

theorem take_eq (ts : List Token) (p : Progress) :
    take ts p = match ts[p.index]? with
      | some t => some (.ok (some t), ⟨p.index + 1, p.begun⟩)
      | none => some (.ok none, p) := by
  rw [← Cursor.current_before]
  refine (bind_of_ok rfl).trans ?_
  cases (before ts p.index).current with
  | none => rfl
  | some t => rfl

end Run

/-- The walk `w` from `p` ends at `q` with the answer `x` of the reader.  It has not moved the
cursor backwards, nor past the last token; if it fails, the cursor is at what it complains of. -/
structure Ends {c : Cursor} {α : Type} (w : Walk α) (x : Except ParseError (Read c α))
    (p q : Progress) : Prop where
  run : w p = some (x.map Read.value, q)
  next : ∀ r, x = .ok r → r.next = before ts q.index
  error_at : ∀ e, x = .error e → e.At ts q.index
  le : p.index ≤ q.index
  le_length : q.index ≤ ts.length

/-- The walk ends, and it has begun no statement. -/
def Quiet {c : Cursor} {α : Type} (w : Walk α) (x : Except ParseError (Read c α))
    (p : Progress) : Prop :=
  ∃ q, Ends ts w x p q ∧ q.begun = p.begun

section Chains

variable {ts} {c d : Cursor} {α β : Type} {w : Walk α} {f : α → Walk β}
  {x : Except ParseError (Read c α)} {g : Read c α → Except ParseError (Read d β)}
  {p q q' : Progress} {e : ParseError} {r : Read c α}

/-- What is read without failing moves the cursor. -/
theorem Ends.lt (h : Ends ts w (.ok r) p q) (hc : c = before ts p.index) :
    p.index < q.index := by
  have hlt := r.shorter
  rw [h.next r rfl, hc, Cursor.length_before, Cursor.length_before] at hlt
  omega

/-- A walk that goes on as another ends as the other. -/
theorem Ends.of_run {w' : Walk α} {p' : Progress} (h : Ends ts w' x p' q) (hrun : w p = w' p')
    (hle : p.index ≤ p'.index) : Ends ts w x p q :=
  { h with run := hrun.trans h.run, le := Nat.le_trans hle h.le }

theorem Ends.pure {a : α} {shorter : d.rest.length < c.rest.length}
    (h : d = before ts p.index) (hp : p.index ≤ ts.length) :
    Ends ts (pure a) (.ok ⟨a, d, shorter⟩) p p where
  run := rfl
  next := by
    rintro _ ⟨⟩
    exact h
  error_at := nofun
  le := Nat.le_refl _
  le_length := hp

theorem Ends.throw (he : e.At ts p.index) (hp : p.index ≤ ts.length) :
    Ends ts (throw e) (.error e : Except ParseError (Read c α)) p p where
  run := rfl
  next := nofun
  error_at := by
    rintro _ ⟨⟩
    exact he
  le := Nat.le_refl _
  le_length := hp

theorem Ends.bind_error (h : Ends ts w (.error e : Except ParseError (Read c α)) p q) :
    Ends ts (w >>= f) (.error e : Except ParseError (Read d β)) p q where
  run := bind_of_error h.run
  next := nofun
  error_at := by
    rintro _ ⟨⟩
    exact h.error_at e rfl
  le := h.le
  le_length := h.le_length

theorem Ends.bind_ok {y : Except ParseError (Read d β)} (h : Ends ts w (.ok r) p q)
    (k : Ends ts (f r.value) y q q') : Ends ts (w >>= f) y p q' :=
  k.of_run (bind_of_ok h.run) h.le

theorem Quiet.pure {a : α} {shorter : d.rest.length < c.rest.length}
    (h : d = before ts p.index) (hp : p.index ≤ ts.length) :
    Quiet ts (pure a) (.ok ⟨a, d, shorter⟩) p :=
  ⟨p, .pure h hp, rfl⟩

/-- A chain of quiet walks is quiet. -/
theorem Quiet.bind (h : Quiet ts w x p)
    (k : ∀ r q, x = .ok r → r.next = before ts q.index → q.index ≤ ts.length →
      Quiet ts (f r.value) (g r) q) : Quiet ts (w >>= f) (x >>= g) p := by
  obtain ⟨q, hq, hbegun⟩ := h
  cases x with
  | error e => exact ⟨q, hq.bind_error, hbegun⟩
  | ok r =>
      obtain ⟨q', hq', hbegun'⟩ := k r q rfl (hq.next r rfl) hq.le_length
      exact ⟨q', hq.bind_ok hq', hbegun'.trans hbegun⟩

end Chains

/-! ## The quiet rules -/

section Rules

variable {ts} {c d : Cursor} {α β : Type} {p : Progress} {accepts : Token → Bool}
  {expected : Expected}

theorem Quiet.here {f : Cursor → Walk α} {x : Except ParseError (Read d α)}
    (hc : c = before ts p.index) (h : Quiet ts (f c) x p) : Quiet ts (here ts >>= f) x p := by
  subst hc
  obtain ⟨q, hq, hbegun⟩ := h
  exact ⟨q, hq.of_run rfl (Nat.le_refl _), hbegun⟩

theorem quiet_failHere (hc : c = before ts p.index) (hp : p.index ≤ ts.length) :
    Quiet ts (failHere ts expected) (.error (c.errorHere expected) : Except ParseError (Read d α))
      p :=
  Quiet.here hc ⟨p, .throw (Cursor.errorHere_at hc expected) hp, rfl⟩

theorem Quiet.advance {w : Walk α} {x : Except ParseError (Read d α)}
    (h : Quiet ts w x ⟨p.index + 1, p.begun⟩) : Quiet ts (do advance; w) x p := by
  obtain ⟨q, hq, hbegun⟩ := h
  exact ⟨q, hq.of_run rfl (Nat.le_succ _), hbegun⟩

/-- What takes the next token goes on where the reader goes on that skips it. -/
theorem Quiet.take {w : Walk α} {x : Except ParseError (Read d α)} (hc : c = before ts p.index)
    (hp : p.index ≤ ts.length)
    (h : ∀ q : Progress, c.skip = before ts q.index → q.index ≤ ts.length → Quiet ts w x q) :
    Quiet ts (do let _ ← take ts; w) x p := by
  have hrun := take_eq ts p
  obtain ⟨rest, finish⟩ := c
  cases rest with
  | nil =>
      have hend : ts[p.index]? = none :=
        List.getElem?_eq_none (List.drop_eq_nil_iff.mp (Cursor.mk.inj hc).1.symm)
      rw [hend] at hrun
      obtain ⟨q, hq, hbegun⟩ := h p hc hp
      exact ⟨q, hq.of_run (bind_of_ok hrun) (Nat.le_refl _), hbegun⟩
  | cons t rest =>
      obtain ⟨hlt, hnext⟩ := Cursor.next_eq_before hc
      rw [Cursor.getElem?_of_before hc] at hrun
      obtain ⟨q, hq, hbegun⟩ := h ⟨p.index + 1, p.begun⟩ hnext hlt
      exact ⟨q, hq.of_run (bind_of_ok hrun) (Nat.le_succ _), hbegun⟩

theorem quiet_readIf (hc : c = before ts p.index) (hp : p.index ≤ ts.length) :
    Quiet ts (readIf ts accepts expected) (c.readIf accepts expected) p := by
  refine Quiet.here hc ?_
  obtain ⟨rest, finish⟩ := c
  cases rest with
  | nil => exact quiet_failHere hc hp
  | cons t rest =>
      obtain ⟨hlt, hnext⟩ := Cursor.next_eq_before hc
      rw [Cursor.readIf, Cursor.readIf?_cons, Cursor.current_cons]
      dsimp only
      cases accepts t with
      | true => exact .advance (.pure hnext hlt)
      | false => exact quiet_failHere hc hp

theorem quiet_expect (kind : TokenKind) (text : String) (hc : c = before ts p.index)
    (hp : p.index ≤ ts.length) : Quiet ts (expect ts kind text) (c.expect kind text) p :=
  quiet_readIf hc hp

theorem quiet_expectMark (mark : Char) (hc : c = before ts p.index) (hp : p.index ≤ ts.length) :
    Quiet ts (expectMark ts mark) (c.expectMark mark) p :=
  quiet_readIf hc hp

theorem quiet_expectKind (kind : TokenKind) (hc : c = before ts p.index)
    (hp : p.index ≤ ts.length) : Quiet ts (expectKind ts kind) (c.expectKind kind) p :=
  quiet_readIf hc hp

theorem quiet_operand (hc : c = before ts p.index) (hp : p.index ≤ ts.length) :
    Quiet ts (operand ts) c.operand p := by
  refine Quiet.here hc ?_
  obtain ⟨rest, finish⟩ := c
  cases rest with
  | nil => exact quiet_failHere hc hp
  | cons t rest =>
      obtain ⟨hlt, hnext⟩ := Cursor.next_eq_before hc
      rw [Cursor.operand, Cursor.readIf?_cons, Cursor.current_cons]
      dsimp only
      cases t.kind == .number with
      | true =>
          rw [if_pos rfl, if_pos rfl]
          dsimp only
          -- Where the text is refused the cursor has not been moved.
          cases Integer.read? t.text with
          | none => exact ⟨p, .throw (.literal (Cursor.getElem?_of_before hc)) hp, rfl⟩
          | some n => exact .advance (.pure hnext hlt)
      | false =>
          refine Quiet.bind (quiet_readIf hc hp) fun name q _ hnext hq => ?_
          exact .pure hnext hq

/-- An operator that is looked at is the token at the cursor. -/
theorem next_of_arithmetic? {op : Read c Operator} (h : c.arithmetic? = some op)
    (hc : c = before ts p.index) :
    p.index < ts.length ∧ op.next = before ts (p.index + 1) := by
  obtain ⟨t, -, hrest, hfinish⟩ := Cursor.passes_singleton_iff.mp (Cursor.arithmetic?_eq_some h).2
  have hcons : ⟨t :: op.next.rest, op.next.finish⟩ = c := Cursor.ext hrest.symm hfinish
  exact Cursor.next_eq_before (hcons.trans hc)

theorem quiet_expression (hc : c = before ts p.index) (hp : p.index ≤ ts.length) :
    Quiet ts (expression ts) c.expression p := by
  refine (quiet_operand hc hp).bind fun left q _ hc hq => ?_
  refine Quiet.here hc ?_
  cases hop : left.next.arithmetic? with
  | none => exact .pure hc hq
  | some op =>
      obtain ⟨hlt, hnext⟩ := next_of_arithmetic? hop hc
      refine Quiet.advance (Quiet.bind (quiet_operand hnext hlt) fun right _ _ hc hp => ?_)
      exact .pure hc hp

theorem quiet_declaration (hc : c = before ts p.index) (hp : p.index ≤ ts.length) :
    Quiet ts (declaration ts) c.declaration p := by
  refine .take hc hp fun _ hc hp => ?_
  refine (quiet_expectKind _ hc hp).bind fun name _ _ hc hp => ?_
  refine (quiet_expect _ _ hc hp).bind fun equals _ _ hc hp => ?_
  refine (quiet_expression hc hp).bind fun value _ _ hc hp => ?_
  refine (quiet_expectMark _ hc hp).bind fun stop _ _ hc hp => ?_
  exact .pure hc hp

theorem quiet_debugStatement (hc : c = before ts p.index) (hp : p.index ≤ ts.length) :
    Quiet ts (debugStatement ts) c.debugStatement p := by
  refine .take hc hp fun _ hc hp => ?_
  refine (quiet_expectKind _ hc hp).bind fun name _ _ hc hp => ?_
  refine (quiet_expectMark _ hc hp).bind fun stop _ _ hc hp => ?_
  exact .pure hc hp

theorem quiet_conditionalHead (hc : c = before ts p.index) (hp : p.index ≤ ts.length) :
    Quiet ts (conditionalHead ts) c.conditionalHead p := by
  refine .take hc hp fun _ hc hp => ?_
  refine (quiet_expression hc hp).bind fun left _ _ hc hp => ?_
  refine (quiet_expect _ _ hc hp).bind fun is _ _ hc hp => ?_
  refine (quiet_expression hc hp).bind fun right _ _ hc hp => ?_
  exact .pure hc hp

end Rules

end Walk

end FlatScript
