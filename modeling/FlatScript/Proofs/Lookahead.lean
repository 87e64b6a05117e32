import FlatScript.Proofs.Grammar

/-!
# One token at a time

The reader is recursive, so between two tokens its state sits in the calls that are still open.
Here that state is data: `Pending` lists what the open calls are waiting for, innermost first, and
`Pending.step` says what one token makes of it.  Values are left out; only verdicts and errors
count.

Each rule of the reader answers as the machine does on the items of that rule (the `verdict_`
lemmas), so the reader as a whole is the machine started on nothing pending.  From there on
everything is about single steps:

* a step depends on the token alone, so an error stays what it is whatever comes behind it;
* whatever is pending can be supplied, so tokens that were taken without an error can be
  completed.

Main statement, `ofTokens_error`: the reader stops at the first token that no accepted list could
have there, and complains of the end of input exactly if the list could be completed.
-/

namespace FlatScript

namespace Grammar

/-- What one rule of the reader is waiting for. -/
inductive Item where
  | token (kind : TokenKind) (text : String)
  | name
  | operand
  /-- An arithmetic operator with its operand, or nothing. -/
  | more
  | statement
  /-- Statements, and the brace that closes them. -/
  | body
deriving DecidableEq

/-- All that is waited for, innermost first; at the very end stands the program, which may stop
or go on. -/
abbrev Pending := List Item

namespace Item

def semicolon : Item := .token .punctuation ";"

/-- What follows the first token of a statement. -/
def afterKeyword : Keyword → Pending
  | .declare => [name, token .operator "=", operand, more, semicolon]
  | .debug => [name, semicolon]
  | .when => [operand, more, token .operator "is", operand, more, token .punctuation "\x7b", body]

end Item

namespace Pending

/-- The first token of a statement settles what follows it. -/
def begin (t : Token) (k : Pending) : Except ParseError Pending :=
  if t.isMark ';' then .ok k
  else if t.isKeyword .declare then .ok (Item.afterKeyword .declare ++ k)
  else if t.isKeyword .debug then .ok (Item.afterKeyword .debug ++ k)
  else if t.isKeyword .when then .ok (Item.afterKeyword .when ++ k)
  else .error (.unexpected .statement (.ofToken t) t.span)

/-- A token that has to pass a test. -/
def need (accepted : Bool) (expected : Expected) (t : Token) (k : Pending) :
    Except ParseError Pending :=
  if accepted then .ok k else .error (.unexpected expected (.ofToken t) t.span)

theorem need_eq_ok_iff {accepted : Bool} {expected : Expected} {t : Token} {k k' : Pending} :
    need accepted expected t k = .ok k' ↔ accepted = true ∧ k = k' := by
  rw [need]
  cases accepted with
  | false => simp
  | true => simp

theorem begin_of_semicolon {t : Token} {k : Pending} (h : t.shape = (.punctuation, ";")) :
    begin t k = .ok k := by
  have hsemi : t.isMark ';' = true := (Token.isMark_iff (by decide)).mpr h
  rw [begin, if_pos hsemi]

theorem begin_of_keyword {t : Token} {k : Pending} {kw : Keyword}
    (h : t.shape = (.keyword, kw.word)) : begin t k = .ok (Item.afterKeyword kw ++ k) := by
  obtain ⟨kind, text, span⟩ := t
  obtain ⟨rfl, rfl⟩ := Prod.mk.inj h
  cases kw with
  | declare => rfl
  | debug => rfl
  | when => rfl

theorem begin_eq_ok_iff {t : Token} {k k' : Pending} :
    begin t k = .ok k' ↔ t.shape = (.punctuation, ";") ∧ k' = k ∨
      ∃ kw : Keyword, t.shape = (.keyword, kw.word) ∧ k' = Item.afterKeyword kw ++ k := by
  constructor
  · intro h
    rw [begin] at h
    split at h
    · next hsemi => exact .inl ⟨(Token.isMark_iff (by decide)).mp hsemi, (Except.ok.inj h).symm⟩
    · split at h
      · next hkw => exact .inr ⟨_, Token.isKeyword_iff.mp hkw, (Except.ok.inj h).symm⟩
      · split at h
        · next hkw => exact .inr ⟨_, Token.isKeyword_iff.mp hkw, (Except.ok.inj h).symm⟩
        · split at h
          · next hkw => exact .inr ⟨_, Token.isKeyword_iff.mp hkw, (Except.ok.inj h).symm⟩
          · cases h
  · rintro (⟨h, rfl⟩ | ⟨kw, h, rfl⟩)
    · exact begin_of_semicolon h
    · exact begin_of_keyword h

/-- A statement begins with a mark or a keyword. -/
theorem begin_ne_ok {t : Token} {k k' : Pending} (hmark : t.kind ≠ .punctuation)
    (hkeyword : t.kind ≠ .keyword) : begin t k ≠ .ok k' := by
  intro h
  rcases begin_eq_ok_iff.mp h with ⟨hs, -⟩ | ⟨kw, hs, -⟩
  · exact hmark (Prod.mk.inj hs).1
  · exact hkeyword (Prod.mk.inj hs).1

def isArithmetic (t : Token) : Bool :=
  t.kind == .operator && (Operator.ofSymbol? t.text).any Operator.isArithmetic

theorem isArithmetic_eq_false {t : Token} (ht : t.kind ≠ .operator) : isArithmetic t = false := by
  rw [isArithmetic, beq_eq_false_iff_ne.mpr ht, Bool.false_and]

/-- What a token makes of the pending items. -/
def step : Pending → Token → Except ParseError Pending
  | [], t => begin t []
  | .statement :: k, t => begin t k
  | .body :: k, t => if t.isMark '\x7d' then .ok k else begin t (.body :: k)
  | .token kind text :: k, t => need (t.isExactly kind text) (.exactly kind text) t k
  | .name :: k, t => need (t.kind == .identifier) (.someToken .identifier) t k
  | .operand :: k, t =>
      if t.kind == .number then
        if (Integer.read? t.text).isSome then .ok k else .error (.literalOutOfRange t)
      else need (t.kind == .identifier) .operand t k
  | .more :: k, t => if isArithmetic t then .ok (.operand :: k) else step k t

/-- What the end of the tokens makes of the pending items. -/
def stop (finish : Span) : Pending → Except ParseError Unit
  | [] => .ok ()
  | .statement :: _ => .error (.unexpected .statement .endOfInput finish)
  | .body :: _ => .error (.unexpected (.exactly .punctuation "\x7d") .endOfInput finish)
  | .token kind text :: _ => .error (.unexpected (.exactly kind text) .endOfInput finish)
  | .name :: _ => .error (.unexpected (.someToken .identifier) .endOfInput finish)
  | .operand :: _ => .error (.unexpected .operand .endOfInput finish)
  | .more :: k => stop finish k

/-- What tokens make of the pending items, one after the other. -/
def advance (k : Pending) (ts : List Token) : Except ParseError Pending := ts.foldlM step k

/-- Whether the tokens of a cursor supply the pending items and then a program to the end. -/
def verdict (k : Pending) (c : Cursor) : Except ParseError Unit :=
  advance k c.rest >>= stop c.finish

/-! ## The machine and the rules of the reader -/

variable (k : Pending) (c : Cursor)

theorem verdict_nil (finish : Span) : verdict k ⟨[], finish⟩ = stop finish k := rfl

theorem verdict_cons (t : Token) (ts : List Token) (finish : Span) :
    verdict k ⟨t :: ts, finish⟩ = step k t >>= fun k' => verdict k' ⟨ts, finish⟩ := by
  rw [verdict, advance, List.foldlM_cons, bind_assoc]
  rfl

/-- An item that needs one token answers as the test of that token. -/
theorem verdict_need {item : Item} {accepts : Token → Bool} {expected : Expected}
    (hstep : ∀ t, step (item :: k) t = need (accepts t) expected t k)
    (hstop : ∀ finish, stop finish (item :: k) = .error (.unexpected expected .endOfInput finish)) :
    verdict (item :: k) c = c.readIf accepts expected >>= fun r => verdict k r.next := by
  obtain ⟨rest, finish⟩ := c
  cases rest with
  | nil =>
      rw [verdict_nil, hstop]
      rfl
  | cons t ts =>
      rw [verdict_cons, hstep, need, Cursor.readIf, Cursor.readIf?_cons]
      cases accepts t with
      | true => rfl
      | false => rfl

theorem verdict_token (kind : TokenKind) (text : String) :
    verdict (.token kind text :: k) c
      = c.expect kind text >>= fun r => verdict k r.next :=
  verdict_need k c (fun _ => rfl) (fun _ => rfl)

theorem verdict_name :
    verdict (.name :: k) c = c.expectKind .identifier >>= fun r => verdict k r.next :=
  verdict_need k c (fun _ => rfl) (fun _ => rfl)

theorem verdict_operand :
    verdict (.operand :: k) c = c.operand >>= fun r => verdict k r.next := by
  obtain ⟨rest, finish⟩ := c
  cases rest with
  | nil => rfl
  | cons t ts =>
      rw [verdict_cons, step, Cursor.operand, Cursor.readIf?_cons]
      cases hnum : t.kind == .number with
      | true =>
          rw [if_pos rfl, if_pos rfl]
          dsimp only
          cases Integer.read? t.text with
          | none => rfl
          | some n => rfl
      | false =>
          rw [if_neg Bool.false_ne_true, if_neg Bool.false_ne_true, need, Cursor.readIf,
            Cursor.readIf?_cons]
          cases t.kind == .identifier with
          | true => rfl
          | false => rfl

theorem isArithmetic_iff {t : Token} :
    isArithmetic t = true ↔ ∃ op ∈ Operator.arithmetic, t.shape = sign op.symbol := by
  rw [isArithmetic, Bool.and_eq_true, beq_iff_eq, Option.any_eq_true]
  constructor
  · rintro ⟨hk, op, hop, harith⟩
    refine ⟨op, Operator.mem_arithmetic.mpr harith, Prod.ext hk ?_⟩
    exact (Operator.ofSymbol?_eq_some_iff.mp hop).symm
  · rintro ⟨op, harith, hs⟩
    refine ⟨(Prod.mk.inj hs).1, op, ?_, Operator.mem_arithmetic.mp harith⟩
    exact Operator.ofSymbol?_eq_some_iff.mpr (Prod.mk.inj hs).2.symm

/-- The optional operator is the one item that may leave its token to the items behind it. -/
theorem verdict_more :
    verdict (.more :: k) c
      = match c.arithmetic? with
        | none => verdict k c
        | some op => verdict (.operand :: k) op.next := by
  obtain ⟨rest, finish⟩ := c
  cases rest with
  | nil => rfl
  | cons t ts =>
      have hpass : (Cursor.mk (t :: ts) finish).Passes [t.shape] ⟨ts, finish⟩ :=
        Cursor.passes_singleton_iff.mpr ⟨t, rfl, rfl, rfl⟩
      cases h : Cursor.arithmetic? ⟨t :: ts, finish⟩ with
      | none =>
          have hno : ¬ isArithmetic t = true := by
            intro ht
            obtain ⟨op, hop, hs⟩ := isArithmetic_iff.mp ht
            obtain ⟨r, hr, -⟩ := Cursor.arithmetic?_complete hop (hs ▸ hpass)
            rw [h] at hr
            cases hr
          rw [verdict_cons, step, if_neg hno, verdict_cons]
      | some op =>
          obtain ⟨hop, hp⟩ := Cursor.arithmetic?_eq_some h
          have hyes : isArithmetic t = true := isArithmetic_iff.mpr ⟨_, hop, hpass.head_eq hp⟩
          obtain ⟨t', -, hr, hf⟩ := Cursor.passes_singleton_iff.mp hp
          have hnext : op.next = ⟨ts, finish⟩ := Cursor.ext (List.cons.inj hr).2.symm hf
          rw [verdict_cons, step, if_pos hyes]
          dsimp only
          rw [hnext]
          rfl

theorem verdict_expression :
    verdict (.operand :: .more :: k) c = c.expression >>= fun r => verdict k r.next := by
  rw [verdict_operand, Cursor.expression, bind_assoc]
  congr
  funext left
  rw [verdict_more]
  cases left.next.arithmetic? with
  | none => rfl
  | some op =>
      dsimp only
      rw [verdict_operand, bind_assoc]
      rfl

theorem verdict_declaration :
    verdict (Item.afterKeyword .declare ++ k) c.skip
      = c.declaration >>= fun r => verdict k r.next := by
  show verdict (.name :: .token .operator "=" :: .operand :: .more :: .token .punctuation ";" :: k)
    c.skip = _
  simp only [verdict_token, verdict_name, verdict_expression, Cursor.declaration, bind_assoc,
    pure_bind]
  rfl

theorem verdict_debugStatement :
    verdict (Item.afterKeyword .debug ++ k) c.skip
      = c.debugStatement >>= fun r => verdict k r.next := by
  show verdict (.name :: .token .punctuation ";" :: k) c.skip = _
  simp only [verdict_token, verdict_name, Cursor.debugStatement, bind_assoc, pure_bind]
  rfl

theorem verdict_conditionalHead :
    verdict (Item.afterKeyword .when ++ k) c.skip
      = c.conditionalHead >>= fun r =>
          verdict (.token .punctuation "\x7b" :: .body :: k) r.next := by
  show verdict (.operand :: .more :: .token .operator "is" :: .operand :: .more ::
    .token .punctuation "\x7b" :: .body :: k) c.skip = _
  simp only [verdict_token, verdict_expression, Cursor.conditionalHead, bind_assoc, pure_bind]
  rfl

theorem verdict_token_cons {kind : TokenKind} {text : String} {t : Token} {ts : List Token}
    {finish : Span} (h : t.isExactly kind text = true) :
    verdict (.token kind text :: k) ⟨t :: ts, finish⟩ = verdict k ⟨ts, finish⟩ := by
  rw [verdict_cons, step, need, if_pos h]
  rfl

theorem isExactly_of_isMark {t : Token} {mark : Char} (hm : mark.utf8Size = 1)
    (h : t.isMark mark = true) : t.isExactly .punctuation (String.singleton mark) = true :=
  Token.isExactly_iff.mpr ((Token.isMark_iff hm).mp h)

/-- Behind its first token, a pending statement waits for what the token calls for. -/
theorem verdict_statement_eq :
    verdict (.statement :: k) c
      = if c.checkMark ';' then verdict k c.skip
        else if c.checkKeyword .declare then verdict (Item.afterKeyword .declare ++ k) c.skip
        else if c.checkKeyword .debug then verdict (Item.afterKeyword .debug ++ k) c.skip
        else if c.checkKeyword .when then verdict (Item.afterKeyword .when ++ k) c.skip
        else .error (c.errorHere .statement) := by
  obtain ⟨rest, finish⟩ := c
  cases rest with
  | nil => rfl
  | cons t ts =>
      rw [verdict_cons, step, begin, Cursor.checkMark_cons, Cursor.checkKeyword_cons,
        Cursor.checkKeyword_cons, Cursor.checkKeyword_cons]
      by_cases hsemi : t.isMark ';' = true
      · rw [if_pos hsemi, if_pos hsemi]
        rfl
      · rw [if_neg hsemi, if_neg hsemi]
        by_cases hdeclare : t.isKeyword .declare = true
        · rw [if_pos hdeclare, if_pos hdeclare]
          rfl
        · rw [if_neg hdeclare, if_neg hdeclare]
          by_cases hdebug : t.isKeyword .debug = true
          · rw [if_pos hdebug, if_pos hdebug]
            rfl
          · rw [if_neg hdebug, if_neg hdebug]
            by_cases hwhen : t.isKeyword .when = true
            · rw [if_pos hwhen, if_pos hwhen]
              rfl
            · rw [if_neg hwhen, if_neg hwhen]
              rfl

theorem verdict_body_eq :
    verdict (.body :: k) c
      = if c.isAtEnd || c.checkMark '\x7d' then
          verdict (.token .punctuation "\x7d" :: k) c
        else verdict (.statement :: .body :: k) c := by
  obtain ⟨rest, finish⟩ := c
  cases rest with
  | nil => rfl
  | cons t ts =>
      rw [verdict_cons, step, Cursor.isAtEnd_cons, Bool.false_or, Cursor.checkMark_cons]
      by_cases hclose : t.isMark '\x7d' = true
      · rw [if_pos hclose, if_pos hclose]
        exact (verdict_token_cons k (isExactly_of_isMark (by decide) hclose)).symm
      · rw [if_neg hclose, if_neg hclose, verdict_cons, step]

theorem verdict_program_eq :
    verdict [] c = if c.isAtEnd then .ok () else verdict [.statement] c := by
  obtain ⟨rest, finish⟩ := c
  cases rest with
  | nil => rfl
  | cons t ts => rfl

mutual

theorem verdict_statement (k : Pending) (c : Cursor) :
    verdict (.statement :: k) c = c.statement >>= fun r => verdict k r.next := by
  rw [verdict_statement_eq, Cursor.statement]
  split
  · rfl
  · split
    · rw [verdict_declaration, bind_assoc]
      rfl
    · split
      · rw [verdict_debugStatement, bind_assoc]
        rfl
      · split
        · rw [verdict_conditional k c, bind_assoc]
          rfl
        · rfl
termination_by (c.rest.length, 1)

theorem verdict_conditional (k : Pending) (c : Cursor) :
    verdict (Item.afterKeyword .when ++ k) c.skip
      = c.conditional >>= fun r => verdict k r.next := by
  rw [verdict_conditionalHead, Cursor.conditional, bind_assoc]
  congr
  funext condition
  have := condition.shorter
  rw [verdict_block k condition.next, bind_assoc]
  rfl
termination_by (c.rest.length, 0)

theorem verdict_block (k : Pending) (c : Cursor) :
    verdict (.token .punctuation "\x7b" :: .body :: k) c
      = c.block >>= fun r => verdict k r.next := by
  rw [verdict_token, Cursor.block, bind_assoc]
  congr
  funext start
  have := start.shorter
  rw [verdict_body k start.next, bind_assoc]
  rfl
termination_by (c.rest.length, 0)

theorem verdict_body (k : Pending) (c : Cursor) :
    verdict (.body :: k) c = c.blockRest >>= fun r => verdict k r.next := by
  rw [verdict_body_eq, Cursor.blockRest]
  split
  · rw [verdict_token, bind_assoc]
    rfl
  · rw [verdict_statement (.body :: k) c, bind_assoc]
    congr
    funext first
    have := first.shorter
    rw [verdict_body k first.next, bind_assoc]
    rfl
termination_by (c.rest.length, 2)

end

/-- Started on nothing pending, the machine answers as the reader does. -/
theorem verdict_program (c : Cursor) :
    verdict [] c = c.statements >>= fun _ => .ok () := by
  rw [verdict_program_eq, Cursor.statements]
  split
  · rfl
  · rw [verdict_statement, bind_assoc]
    congr
    funext first
    have := first.shorter
    rw [verdict_program first.next, bind_assoc]
    rfl
termination_by c.rest.length

/-! ## What is pending can be supplied -/

/-- Tokens that supply one item. -/
def fill : Item → List Token
  | .token kind text => [⟨kind, text, .origin⟩]
  | .name => [⟨.identifier, "x", .origin⟩]
  | .operand => [⟨.number, "0", .origin⟩]
  | .more => [⟨.operator, "+", .origin⟩, ⟨.number, "0", .origin⟩]
  | .statement => [⟨.punctuation, ";", .origin⟩]
  | .body => [⟨.punctuation, "\x7d", .origin⟩]

theorem advance_append (k : Pending) (us vs : List Token) :
    advance k (us ++ vs) = advance k us >>= fun k' => advance k' vs :=
  List.foldlM_append

theorem advance_fill (item : Item) (k : Pending) : advance (item :: k) (fill item) = .ok k := by
  cases item with
  | token kind text =>
      have h : (Token.mk kind text .origin).isExactly kind text = true :=
        Token.isExactly_iff.mpr rfl
      rw [fill, advance, List.foldlM_cons, step, need, if_pos h]
      rfl
  | name => rfl
  | operand => rfl
  | more => rfl
  | statement => rfl
  | body => rfl

theorem advance_supply (k : Pending) : advance k (k.flatMap fill) = .ok [] := by
  induction k with
  | nil => rfl
  | cons item k ih =>
      rw [List.flatMap_cons, advance_append, advance_fill]
      exact ih

/-! ## Errors of a step -/

theorem begin_error {t : Token} {k : Pending} {e : ParseError} (h : begin t k = .error e) :
    e = .unexpected .statement (.ofToken t) t.span := by
  rw [begin] at h
  split at h
  · cases h
  · split at h
    · cases h
    · split at h
      · cases h
      · split at h
        · cases h
        · exact (Except.error.inj h).symm

theorem need_error {accepted : Bool} {expected : Expected} {t : Token} {k : Pending}
    {e : ParseError} (h : need accepted expected t k = .error e) :
    e = .unexpected expected (.ofToken t) t.span := by
  rw [need] at h
  split at h
  · cases h
  · exact (Except.error.inj h).symm

/-- A step that fails complains of its token. -/
theorem step_error {t : Token} {e : ParseError} :
    ∀ {k : Pending}, step k t = .error e → e.found = .ofToken t ∧ e.span = t.span
  | [], h => begin_error h ▸ ⟨rfl, rfl⟩
  | .statement :: _, h => begin_error h ▸ ⟨rfl, rfl⟩
  | .token .. :: _, h => need_error h ▸ ⟨rfl, rfl⟩
  | .name :: _, h => need_error h ▸ ⟨rfl, rfl⟩
  | .body :: _, h => by
      rw [step] at h
      split at h
      · cases h
      · exact begin_error h ▸ ⟨rfl, rfl⟩
  | .operand :: _, h => by
      rw [step] at h
      split at h
      · split at h
        · cases h
        · cases h
          exact ⟨rfl, rfl⟩
      · exact need_error h ▸ ⟨rfl, rfl⟩
  | .more :: k, h => by
      rw [step] at h
      split at h
      · cases h
      · exact step_error h

/-- The end of the tokens is complained of as such. -/
theorem stop_error {finish : Span} {e : ParseError} {k : Pending} (h : stop finish k = .error e) :
    e.found = .endOfInput ∧ e.span = finish := by
  induction k with
  | nil => cases h
  | cons item k ih =>
      cases item with
      | more => exact ih h
      | token kind text => cases h; exact ⟨rfl, rfl⟩
      | name => cases h; exact ⟨rfl, rfl⟩
      | operand => cases h; exact ⟨rfl, rfl⟩
      | statement => cases h; exact ⟨rfl, rfl⟩
      | body => cases h; exact ⟨rfl, rfl⟩

/-- Tokens that are refused are refused at one of them, and what stands before it is not. -/
theorem exists_step_of_advance {ts : List Token} {e : ParseError} :
    ∀ {k : Pending}, advance k ts = .error e →
      ∃ us t vs k', ts = us ++ t :: vs ∧ advance k us = .ok k' ∧ step k' t = .error e := by
  induction ts with
  | nil => intro k h; cases h
  | cons t ts ih =>
      intro k h
      rw [advance, List.foldlM_cons] at h
      cases hstep : step k t with
      | error e' =>
          rw [hstep] at h
          cases h
          exact ⟨[], t, ts, k, rfl, rfl, hstep⟩
      | ok k₁ =>
          rw [hstep] at h
          obtain ⟨us, t', vs, k', rfl, hus, ht'⟩ := ih h
          refine ⟨t :: us, t', vs, k', rfl, ?_, ht'⟩
          rw [advance, List.foldlM_cons, hstep]
          exact hus

end Pending

end Grammar

open Grammar Pending

namespace Program

/-! ## Lists that can be completed -/

/-- Some continuation, perhaps an empty one, makes a program of the tokens. -/
def Viable (ts : List Token) : Prop := ∃ rest p, ofTokens (ts ++ rest) = .ok p

theorem verdict_ofTokens (ts : List Token) :
    advance [] ts >>= stop (Cursor.finishOf ts) = ofTokens ts >>= fun _ => .ok () :=
  verdict_program (Cursor.ofTokens ts)

theorem ofTokens_eq_error_iff {ts : List Token} {e : ParseError} :
    ofTokens ts = .error e ↔ advance [] ts >>= stop (Cursor.finishOf ts) = .error e := by
  rw [verdict_ofTokens]
  cases ofTokens ts with
  | error e' => exact ⟨fun h => by cases h; rfl, fun h => by cases h; rfl⟩
  | ok p => exact ⟨fun h => (nomatch h), fun h => (nomatch h)⟩

theorem exists_ofTokens_iff {ts : List Token} :
    (∃ p, ofTokens ts = .ok p) ↔ advance [] ts >>= stop (Cursor.finishOf ts) = .ok () := by
  rw [verdict_ofTokens]
  cases ofTokens ts with
  | error e => exact ⟨fun ⟨_, h⟩ => (nomatch h), fun h => (nomatch h)⟩
  | ok p => exact ⟨fun _ => rfl, fun _ => ⟨p, rfl⟩⟩

/-- Tokens can be completed exactly if the machine takes them all. -/
theorem viable_iff {ts : List Token} : Viable ts ↔ ∃ k, advance [] ts = .ok k := by
  constructor
  · rintro ⟨rest, hp⟩
    obtain ⟨k, hk, -⟩ := bind_eq_ok_iff.mp (exists_ofTokens_iff.mp hp)
    rw [advance_append] at hk
    obtain ⟨k', hk', -⟩ := bind_eq_ok_iff.mp hk
    exact ⟨k', hk'⟩
  · rintro ⟨k, hk⟩
    refine ⟨k.flatMap fill, exists_ofTokens_iff.mpr ?_⟩
    rw [advance_append, hk]
    exact bind_eq_ok_iff.mpr ⟨[], advance_supply k, rfl⟩

/-- A token that the machine refuses is refused whatever stands behind it. -/
theorem ofTokens_of_step {us : List Token} {t : Token} {k : Pending} {e : ParseError}
    (hus : advance [] us = .ok k) (ht : step k t = .error e) (rest : List Token) :
    ofTokens (us ++ t :: rest) = .error e := by
  rw [ofTokens_eq_error_iff, advance_append, hus]
  show (advance k (t :: rest) >>= _) = _
  rw [advance, List.foldlM_cons, ht]
  rfl

theorem not_viable_of_step {us : List Token} {t : Token} {k : Pending} {e : ParseError}
    (hus : advance [] us = .ok k) (ht : step k t = .error e) (rest : List Token) :
    ¬ Viable (us ++ t :: rest) := by
  rintro ⟨more, p, hp⟩
  rw [List.append_assoc, List.cons_append, ofTokens_of_step hus ht] at hp
  cases hp

theorem found_ofToken_ne (t : Token) : Found.ofToken t ≠ .endOfInput := by
  intro h
  cases h

/-- Only a list with a last token can end too early, and the error points behind that token. -/
theorem span_of_stop {ts : List Token} {k : Pending} {e : ParseError}
    (hts : advance [] ts = .ok k) (h : stop (Cursor.finishOf ts) k = .error e) :
    ∃ t, ts.getLast? = some t ∧ e.span = t.span.atStop := by
  obtain ⟨-, hspan⟩ := stop_error h
  rw [Cursor.finishOf] at hspan
  cases hlast : ts.getLast? with
  | none =>
      rw [List.getLast?_eq_none_iff] at hlast
      subst hlast
      cases hts
      cases h
  | some t =>
      rw [hlast] at hspan
      exact ⟨t, rfl, hspan⟩

/-- What stands before a token that the machine refuses can be completed, and with the token it
cannot. -/
theorem take_of_step {us vs : List Token} {t : Token} {k : Pending} {e : ParseError}
    (hus : advance [] us = .ok k) (ht : step k t = .error e) :
    Viable ((us ++ t :: vs).take us.length) ∧
      ¬ Viable ((us ++ t :: vs).take (us.length + 1)) ∧
      ∀ rest, ofTokens ((us ++ t :: vs).take (us.length + 1) ++ rest) = .error e := by
  have htake : (us ++ t :: vs).take (us.length + 1) = us ++ [t] := by
    rw [List.take_length_add_append]
    rfl
  rw [List.take_left, htake]
  refine ⟨viable_iff.mpr ⟨k, hus⟩, not_viable_of_step hus ht [], fun rest => ?_⟩
  rw [List.append_assoc]
  exact ofTokens_of_step hus ht rest

/-- Where a list of tokens fails to read: at its end, if it could be completed, and otherwise at
the first token that no accepted list has in this place. -/
theorem ofTokens_error {ts : List Token} {e : ParseError} (h : ofTokens ts = .error e) :
    (e.found = .endOfInput ↔ Viable ts) ∧
    ((e.found = .endOfInput ∧ Viable ts ∧ (∀ p, ofTokens ts ≠ .ok p) ∧
        ∃ t, ts.getLast? = some t ∧ e.span.start = t.span.stop ∧ e.span.stop = t.span.stop) ∨
      ∃ i t, ts[i]? = some t ∧ e.found = .ofToken t ∧ e.span = t.span ∧
        Viable (ts.take i) ∧ ¬ Viable (ts.take (i + 1)) ∧
        ∀ rest, ofTokens (ts.take (i + 1) ++ rest) = .error e) := by
  have hrefused : ∀ p, ofTokens ts ≠ .ok p := by
    intro p hp
    rw [h] at hp
    cases hp
  rw [ofTokens_eq_error_iff] at h
  cases hadv : advance [] ts with
  | ok k =>
      rw [hadv] at h
      obtain ⟨hfound, -⟩ := stop_error h
      have hviable : Viable ts := viable_iff.mpr ⟨k, hadv⟩
      obtain ⟨t, ht, hspan⟩ := span_of_stop hadv h
      rw [hspan]
      exact ⟨iff_of_true hfound hviable, .inl ⟨hfound, hviable, hrefused, t, ht, rfl, rfl⟩⟩
  | error e' =>
      rw [hadv] at h
      cases h
      obtain ⟨us, t, vs, k, rfl, hus, ht⟩ := exists_step_of_advance hadv
      obtain ⟨hfound, hspan⟩ := step_error ht
      have hne : e.found ≠ .endOfInput := hfound ▸ found_ofToken_ne t
      refine ⟨iff_of_false hne (not_viable_of_step hus ht vs),
        .inr ⟨us.length, t, ?_, hfound, hspan, take_of_step hus ht⟩⟩
      rw [List.getElem?_append_right (Nat.le_refl _), Nat.sub_self]
      rfl

/-- `ye x = 9223372036854775808;` is refused at its number and cannot be completed.  What stands
before the number can, and as it stands it ends behind its sixth byte. -/
theorem large_literal_and_missing_operand :
    let head : List Token :=
      [⟨.keyword, "ye", .clamped 0 2⟩, ⟨.identifier, "x", .clamped 3 1⟩,
        ⟨.operator, "=", .clamped 5 1⟩]
    let number : Token := ⟨.number, "9223372036854775808", .clamped 7 19⟩
    let ts : List Token := head ++ [number, ⟨.punctuation, ";", .clamped 26 1⟩]
    (∃ e, ofTokens ts = .error e ∧ e.found = .ofToken number ∧ e.span.start = 7 ∧ ¬ Viable ts) ∧
      ∃ e, ofTokens head = .error e ∧ e.found = .endOfInput ∧ e.span.start = 6 ∧ e.span.stop = 6 ∧
        Viable head := by
  intro head number ts
  have hrefused : ofTokens ts = .error (.literalOutOfRange number) := by
    subst ts number head
    exact ofTokens_eq_error_iff.mpr rfl
  have hended : ofTokens head = .error (.unexpected .operand .endOfInput _) :=
    ofTokens_eq_error_iff.mpr rfl
  constructor
  · refine ⟨_, hrefused, rfl, rfl, fun hviable => ?_⟩
    exact found_ofToken_ne _ ((ofTokens_error hrefused).1.mpr hviable)
  · obtain ⟨hiff, ⟨-, -, -, t, ht, hstart, hstop⟩ | ⟨-, t, -, hfound, -⟩⟩ := ofTokens_error hended
    · cases ht
      exact ⟨_, hended, rfl, hstart, hstop, hiff.mp rfl⟩
    · exact absurd hfound.symm (found_ofToken_ne t)

end Program

end FlatScript
