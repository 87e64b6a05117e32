import FlatScript.Proofs.Numeral
import FlatScript.Proofs.Reading

/-!
# The grammar, and what the reader makes of it

The rules are stated here once more as an inductive definition of which shapes of tokens derive
which statements, with no cursor, no lookahead and no order of tests:

    program    := statement*
    statement  := ';' | 'ye' IDENT '=' expression ';' | 'de' IDENT ';'
                | 'if' expression 'is' expression '{' statement* '}'
    expression := operand (('+' | '-' | '*' | '/') operand)?
    operand    := NUMBER | IDENT

Main statement, `ofTokens_eq_ok_iff`: a list of tokens reads as a program exactly if its shapes
derive that program.  Soundness follows the recursion of the reader; completeness follows the
derivation, and is where the lookahead has to be justified: no token that may stand behind an
expression is an arithmetic operator, and no statement begins with a closing brace.
-/

namespace FlatScript

namespace Grammar

/-- What the grammar sees of a token. -/
abbrev Shape := TokenKind × String

def mark (c : Char) : Shape := (.punctuation, String.singleton c)

def word (k : Keyword) : Shape := (.keyword, k.word)

def sign (symbol : String) : Shape := (.operator, symbol)

/-- `operand := NUMBER | IDENT`; a number has to spell a 64-bit integer. -/
inductive Operand : List Shape → Expr → Prop
  | number {text : String} {n : Int64} : Integer.Numeral text.toList n.toInt →
      Operand [(.number, text)] (.literal n)
  | name (x : String) : Operand [(.identifier, x)] (.identifier x)

/-- `expression := operand (('+' | '-' | '*' | '/') operand)?` -/
inductive Expression : List Shape → Expr → Prop
  | operand {us : List Shape} {e : Expr} : Operand us e → Expression us e
  | binary {ls rs : List Shape} {l r : Expr} {op : Operator} : Operand ls l →
      op ∈ Operator.arithmetic → Operand rs r →
      Expression (ls ++ sign op.symbol :: rs) (.binary op l r)

mutual

/-- One statement; a bare `;` is none. -/
inductive Statement : List Shape → Option Stmt → Prop
  | empty : Statement [mark ';'] none
  | declare {x : String} {us : List Shape} {e : Expr} : Expression us e →
      Statement (word .declare :: (.identifier, x) :: sign "=" :: (us ++ [mark ';']))
        (some (.declare x e))
  | debug (x : String) :
      Statement [word .debug, (.identifier, x), mark ';'] (some (.debug x))
  | when {ls rs body : List Shape} {l r : Expr} {ss : List Stmt} : Expression ls l →
      Expression rs r → Statements body ss →
      Statement (word .when :: (ls ++ sign "is" :: (rs ++
          mark '\x7b' :: (body ++ [mark '\x7d']))))
        (some (.when (.binary .is l r) ss))

/-- `statement*`. -/
inductive Statements : List Shape → List Stmt → Prop
  | nil : Statements [] []
  | cons {us vs : List Shape} {s : Option Stmt} {ss : List Stmt} : Statement us s →
      Statements vs ss → Statements (us ++ vs) (s.toList ++ ss)

end

/-- A statement begins with a bare `;` or with a keyword. -/
theorem Statement.head {us : List Shape} {s : Option Stmt} (h : Statement us s) :
    ∃ t vs, us = t :: vs ∧ (t = mark ';' ∨ ∃ k, t = word k) := by
  cases h with
  | empty => exact ⟨_, _, rfl, .inl rfl⟩
  | declare he => exact ⟨_, _, rfl, .inr ⟨.declare, rfl⟩⟩
  | debug x => exact ⟨_, _, rfl, .inr ⟨.debug, rfl⟩⟩
  | when hl hr hss => exact ⟨_, _, rfl, .inr ⟨.when, rfl⟩⟩

/-- The shapes derive the program. -/
def Derives (us : List Shape) (p : Program) : Prop := Statements us p

end Grammar

open Grammar

namespace Cursor

variable {c d e : Cursor}

/-! ## Soundness: what is read is derived -/

theorem arithmetic?_eq_some {r : Read c Operator} (h : c.arithmetic? = some r) :
    r.value ∈ Operator.arithmetic ∧ c.Passes [sign r.value.symbol] r.next := by
  obtain ⟨s, hs, h⟩ := Option.bind_eq_some_iff.mp h
  obtain ⟨op, hop, h⟩ := Option.bind_eq_some_iff.mp h
  obtain ⟨hk, hr, hf⟩ := readIf?_eq_some_iff.mp hs
  split at h
  · next harith =>
      cases h
      refine ⟨Operator.mem_arithmetic.mpr harith, passes_singleton_iff.mpr ⟨s.value, ?_, hr, hf⟩⟩
      exact Prod.ext (eq_of_beq hk) (Operator.ofSymbol?_eq_some_iff.mp hop).symm
  · cases h

theorem operand_sound {r : Read c Expr} (h : c.operand = .ok r) :
    ∃ us, c.Passes us r.next ∧ Operand us r.value := by
  rw [operand] at h
  split at h
  · next s hs =>
      obtain ⟨hk, hr, hf⟩ := readIf?_eq_some_iff.mp hs
      split at h
      · next n hn =>
          cases h
          refine ⟨[(.number, s.value.text)], ?_, .number (Integer.read?_eq_some_iff.mp hn)⟩
          exact passes_singleton_iff.mpr ⟨s.value, Prod.ext (eq_of_beq hk) rfl, hr, hf⟩
      · cases h
  · obtain ⟨s, hs, h⟩ := bind_eq_ok_iff.mp h
    cases h
    exact ⟨_, passes_of_readKind hs, .name _⟩

theorem expression_sound {r : Read c Expr} (h : c.expression = .ok r) :
    ∃ us, c.Passes us r.next ∧ Expression us r.value := by
  obtain ⟨left, hleft, h⟩ := bind_eq_ok_iff.mp h
  obtain ⟨ls, hls, hl⟩ := operand_sound hleft
  split at h
  · cases h
    exact ⟨ls, hls, .operand hl⟩
  · next op hop =>
      obtain ⟨right, hright, h⟩ := bind_eq_ok_iff.mp h
      cases h
      obtain ⟨rs, hrs, hr⟩ := operand_sound hright
      obtain ⟨ho, hos⟩ := arithmetic?_eq_some hop
      exact ⟨_, hls.append (hos.cons hrs), .binary hl ho hr⟩

theorem declaration_sound {r : Read c Stmt} (hk : c.checkKeyword .declare = true)
    (h : c.declaration = .ok r) : ∃ us, c.Passes us r.next ∧ Statement us (some r.value) := by
  obtain ⟨name, hname, h⟩ := bind_eq_ok_iff.mp h
  obtain ⟨equals, hequals, h⟩ := bind_eq_ok_iff.mp h
  obtain ⟨value, hvalue, h⟩ := bind_eq_ok_iff.mp h
  obtain ⟨stop, hstop, h⟩ := bind_eq_ok_iff.mp h
  cases h
  obtain ⟨us, hus, he⟩ := expression_sound hvalue
  refine ⟨_, ?_, .declare he⟩
  exact (passes_skip_of_checkKeyword hk).cons <| (passes_of_readKind hname).cons <|
    (passes_of_expect hequals).cons <| hus.append (passes_of_expect hstop)

theorem debugStatement_sound {r : Read c Stmt} (hk : c.checkKeyword .debug = true)
    (h : c.debugStatement = .ok r) : ∃ us, c.Passes us r.next ∧ Statement us (some r.value) := by
  obtain ⟨name, hname, h⟩ := bind_eq_ok_iff.mp h
  obtain ⟨stop, hstop, h⟩ := bind_eq_ok_iff.mp h
  cases h
  refine ⟨_, ?_, .debug name.value.text⟩
  exact (passes_skip_of_checkKeyword hk).cons <| (passes_of_readKind hname).cons <|
    passes_of_expect hstop

theorem conditionalHead_sound {r : Read c Expr} (hk : c.checkKeyword .when = true)
    (h : c.conditionalHead = .ok r) :
    ∃ ls rs l e, Expression ls l ∧ Expression rs e ∧ r.value = .binary .is l e ∧
      c.Passes (word .when :: (ls ++ sign "is" :: rs)) r.next := by
  obtain ⟨left, hleft, h⟩ := bind_eq_ok_iff.mp h
  obtain ⟨is, his, h⟩ := bind_eq_ok_iff.mp h
  obtain ⟨right, hright, h⟩ := bind_eq_ok_iff.mp h
  cases h
  obtain ⟨ls, hls, hl⟩ := expression_sound hleft
  obtain ⟨rs, hrs, hr⟩ := expression_sound hright
  refine ⟨ls, rs, left.value, right.value, hl, hr, rfl, ?_⟩
  exact (passes_skip_of_checkKeyword hk).cons (hls.append ((passes_of_expect his).cons hrs))

mutual

theorem statement_sound (c : Cursor) {r : Read c (Option Stmt)} (h : c.statement = .ok r) :
    ∃ us, c.Passes us r.next ∧ Statement us r.value := by
  rw [statement] at h
  split at h
  · next hmark =>
      cases h
      exact ⟨_, passes_skip_of_checkMark (by decide) hmark, .empty⟩
  · split at h
    · next hk =>
        obtain ⟨s, hs, h⟩ := bind_eq_ok_iff.mp h
        cases h
        exact declaration_sound hk hs
    · split at h
      · next hk =>
          obtain ⟨s, hs, h⟩ := bind_eq_ok_iff.mp h
          cases h
          exact debugStatement_sound hk hs
      · split at h
        · next hk =>
            obtain ⟨s, hs, h⟩ := bind_eq_ok_iff.mp h
            cases h
            exact conditional_sound c hk hs
        · cases h
termination_by (c.rest.length, 1)

theorem conditional_sound (c : Cursor) {r : Read c Stmt} (hk : c.checkKeyword .when = true)
    (h : c.conditional = .ok r) : ∃ us, c.Passes us r.next ∧ Statement us (some r.value) := by
  rw [conditional] at h
  obtain ⟨condition, hcondition, h⟩ := bind_eq_ok_iff.mp h
  obtain ⟨body, hbody, h⟩ := bind_eq_ok_iff.mp h
  cases h
  have := condition.shorter
  obtain ⟨ls, rs, l, e, hl, he, hv, hhead⟩ := conditionalHead_sound hk hcondition
  obtain ⟨us, hus, hss⟩ := block_sound condition.next hbody
  have hwhen := Statement.when hl he hss
  rw [← hv] at hwhen
  refine ⟨_, ?_, hwhen⟩
  have hall := hhead.append hus
  rwa [List.cons_append, List.append_assoc, List.cons_append] at hall
termination_by (c.rest.length, 0)

theorem block_sound (c : Cursor) {r : Read c (List Stmt)} (h : c.block = .ok r) :
    ∃ us, c.Passes (mark '\x7b' :: (us ++ [mark '\x7d'])) r.next ∧ Statements us r.value := by
  rw [block] at h
  obtain ⟨start, hstart, h⟩ := bind_eq_ok_iff.mp h
  obtain ⟨body, hbody, h⟩ := bind_eq_ok_iff.mp h
  cases h
  have := start.shorter
  obtain ⟨us, hus, hss⟩ := blockRest_sound start.next hbody
  exact ⟨us, (passes_of_expect hstart).cons hus, hss⟩
termination_by (c.rest.length, 0)

theorem blockRest_sound (c : Cursor) {r : Read c (List Stmt)} (h : c.blockRest = .ok r) :
    ∃ us, c.Passes (us ++ [mark '\x7d']) r.next ∧ Statements us r.value := by
  rw [blockRest] at h
  split at h
  · obtain ⟨stop, hstop, h⟩ := bind_eq_ok_iff.mp h
    cases h
    exact ⟨[], passes_of_expect hstop, .nil⟩
  · obtain ⟨first, hfirst, h⟩ := bind_eq_ok_iff.mp h
    obtain ⟨others, hothers, h⟩ := bind_eq_ok_iff.mp h
    cases h
    have := first.shorter
    obtain ⟨us, hus, hs⟩ := statement_sound c hfirst
    obtain ⟨vs, hvs, hss⟩ := blockRest_sound first.next hothers
    refine ⟨us ++ vs, ?_, .cons hs hss⟩
    rw [List.append_assoc]
    exact hus.append hvs
termination_by (c.rest.length, 2)

end

/-! ## Completeness: what is derived is read

A derivation fixes where each rule ends, while the reader finds out by looking one token ahead.
For an expression the two agree if no arithmetic operator follows. -/

theorem arithmetic?_complete {op : Operator} (ho : op ∈ Operator.arithmetic)
    (h : c.Passes [sign op.symbol] d) :
    ∃ r : Read c Operator, c.arithmetic? = some r ∧ r.value = op ∧ r.next = d := by
  obtain ⟨s, hs, ht, hd⟩ := exists_readKind .operand h
  refine ⟨⟨op, s.next, s.shorter⟩, ?_, rfl, hd⟩
  rw [arithmetic?, readIf?_of_readIf hs, Option.bind_eq_bind, Option.bind_some, ht,
    Operator.ofSymbol?_eq_some_iff.mpr rfl, Option.bind_eq_bind, Option.bind_some,
    if_pos (Operator.mem_arithmetic.mp ho)]

theorem arithmetic?_eq_none {s : Shape} {us : List Shape} (h : c.Passes (s :: us) d)
    (hs : ∀ op ∈ Operator.arithmetic, s ≠ sign op.symbol) : c.arithmetic? = none := by
  cases hr : c.arithmetic? with
  | none => rfl
  | some r =>
      obtain ⟨ho, hp⟩ := arithmetic?_eq_some hr
      exact absurd (h.head_eq hp) (hs _ ho)

theorem mark_ne_sign {mark' : Char} {symbol : String} : mark mark' ≠ sign symbol := by
  intro h
  cases (Prod.mk.inj h).1

theorem operand_complete {us : List Shape} {e : Expr} (h : Operand us e) (hp : c.Passes us d) :
    ∃ r : Read c Expr, c.operand = .ok r ∧ r.value = e ∧ r.next = d := by
  cases h with
  | @number text n hn =>
      obtain ⟨s, hs, ht, hd⟩ := exists_readKind .operand hp
      refine ⟨⟨.literal n, s.next, s.shorter⟩, ?_, rfl, hd⟩
      rw [operand, readIf?_of_readIf hs]
      dsimp only
      rw [ht, Integer.read?_eq_some_iff.mpr hn]
  | name x =>
      obtain ⟨s, hs, ht, hd⟩ := exists_readKind .operand hp
      refine ⟨⟨.identifier x, s.next, s.shorter⟩, ?_, rfl, hd⟩
      have hnone : c.readIf? (·.kind == .number) = none :=
        hp.readIf?_eq_none fun t ht => by
          rw [(Prod.mk.inj ht).1]; rfl
      rw [operand, hnone]
      dsimp only
      rw [hs, ← ht]
      rfl

theorem expression_complete {us : List Shape} {e : Expr} (h : Expression us e)
    (hp : c.Passes us d) (hd : d.arithmetic? = none) :
    ∃ r : Read c Expr, c.expression = .ok r ∧ r.value = e ∧ r.next = d := by
  cases h with
  | operand h =>
      obtain ⟨r, hr, hv, rfl⟩ := operand_complete h hp
      refine ⟨r, bind_eq_ok_iff.mpr ⟨r, hr, ?_⟩, hv, rfl⟩
      rw [hd]
      rfl
  | binary hl ho hr =>
      obtain ⟨c₁, hp₁, hp⟩ := passes_append_iff.mp hp
      obtain ⟨c₂, hp₂, hp₃⟩ := passes_cons_iff.mp hp
      obtain ⟨left, hleft, rfl, rfl⟩ := operand_complete hl hp₁
      obtain ⟨op, hop, rfl, rfl⟩ := arithmetic?_complete ho hp₂
      obtain ⟨right, hright, rfl, rfl⟩ := operand_complete hr hp₃
      refine ⟨⟨.binary op.value left.value right.value, right.next, ?_⟩,
        bind_eq_ok_iff.mpr ⟨left, hleft, ?_⟩, rfl, rfl⟩
      · exact Nat.lt_trans right.shorter (Nat.lt_trans op.shorter left.shorter)
      · rw [hop]
        exact bind_eq_ok_iff.mpr ⟨right, hright, rfl⟩

theorem declaration_complete {x : String} {us : List Shape} {e : Expr} (he : Expression us e)
    (hp : c.Passes (word .declare :: (.identifier, x) :: sign "=" :: (us ++ [mark ';'])) d) :
    ∃ r : Read c Stmt, c.declaration = .ok r ∧ r.value = .declare x e ∧ r.next = d := by
  have hlt := hp.shorter
  obtain ⟨c₁, hp₁, hp⟩ := passes_cons_iff.mp hp
  obtain ⟨c₂, hp₂, hp⟩ := passes_cons_iff.mp hp
  obtain ⟨c₃, hp₃, hp⟩ := passes_cons_iff.mp hp
  obtain ⟨c₄, hp₄, hp₅⟩ := passes_append_iff.mp hp
  have hfollow : c₄.arithmetic? = none := arithmetic?_eq_none hp₅ fun _ _ => mark_ne_sign
  cases hp₁.skip_eq
  obtain ⟨name, hname, rfl, rfl⟩ := exists_readKind (.someToken .identifier) hp₂
  obtain ⟨equals, hequals, rfl⟩ := exists_expect hp₃
  obtain ⟨value, hvalue, rfl, rfl⟩ := expression_complete he hp₄ hfollow
  obtain ⟨stop, hstop, rfl⟩ := exists_expect hp₅
  refine ⟨⟨.declare name.value.text value.value, stop.next, hlt⟩, ?_, rfl, rfl⟩
  exact bind_eq_ok_iff.mpr ⟨name, hname, bind_eq_ok_iff.mpr ⟨equals, hequals,
    bind_eq_ok_iff.mpr ⟨value, hvalue, bind_eq_ok_iff.mpr ⟨stop, hstop, rfl⟩⟩⟩⟩

theorem debugStatement_complete {x : String}
    (hp : c.Passes [word .debug, (.identifier, x), mark ';'] d) :
    ∃ r : Read c Stmt, c.debugStatement = .ok r ∧ r.value = .debug x ∧ r.next = d := by
  have hlt := hp.shorter
  obtain ⟨c₁, hp₁, hp⟩ := passes_cons_iff.mp hp
  obtain ⟨c₂, hp₂, hp₃⟩ := passes_cons_iff.mp hp
  cases hp₁.skip_eq
  obtain ⟨name, hname, rfl, rfl⟩ := exists_readKind (.someToken .identifier) hp₂
  obtain ⟨stop, hstop, rfl⟩ := exists_expect hp₃
  refine ⟨⟨.debug name.value.text, stop.next, hlt⟩, ?_, rfl, rfl⟩
  exact bind_eq_ok_iff.mpr ⟨name, hname, bind_eq_ok_iff.mpr ⟨stop, hstop, rfl⟩⟩

/-- A conditional is read up to its block, which stands behind the second expression. -/
theorem conditionalHead_complete {ls rs : List Shape} {l r : Expr} (hl : Expression ls l)
    (hr : Expression rs r) (hp : c.Passes (word .when :: (ls ++ sign "is" :: rs)) d)
    (hd : d.arithmetic? = none) :
    ∃ h : Read c Expr, c.conditionalHead = .ok h ∧ h.value = .binary .is l r ∧ h.next = d := by
  have hlt := hp.shorter
  obtain ⟨c₁, hp₁, hp⟩ := passes_cons_iff.mp hp
  obtain ⟨c₂, hp₂, hp⟩ := passes_append_iff.mp hp
  have hfollow : c₂.arithmetic? = none := arithmetic?_eq_none hp (by decide)
  obtain ⟨c₃, hp₃, hp₄⟩ := passes_cons_iff.mp hp
  cases hp₁.skip_eq
  obtain ⟨left, hleft, rfl, rfl⟩ := expression_complete hl hp₂ hfollow
  obtain ⟨is, his, rfl⟩ := exists_expect hp₃
  obtain ⟨right, hright, rfl, rfl⟩ := expression_complete hr hp₄ hd
  refine ⟨⟨.binary .is left.value right.value, right.next, hlt⟩, ?_, rfl, rfl⟩
  exact bind_eq_ok_iff.mpr ⟨left, hleft, bind_eq_ok_iff.mpr ⟨is, his,
    bind_eq_ok_iff.mpr ⟨right, hright, rfl⟩⟩⟩

/-- Where a statement begins, a block does not end. -/
theorem not_close_of_statement {us vs : List Shape} {s : Option Stmt} (hs : Statement us s)
    (hp : c.Passes (us ++ vs) d) : ¬ (c.isAtEnd || c.checkMark '\x7d') = true := by
  obtain ⟨t, ws, rfl, ht⟩ := hs.head
  rw [List.cons_append] at hp
  rw [hp.isAtEnd_eq, Bool.false_or, hp.checkMark_iff rfl]
  intro hclose
  rcases ht with rfl | ⟨k, rfl⟩
  · exact absurd hclose (by decide)
  · cases (Prod.mk.inj hclose).1

/-- The tests that tell statements apart, where a statement begins with a keyword. -/
theorem checks_of_word {k : Keyword} {us : List Shape} (hp : c.Passes (word k :: us) d) :
    ¬ c.checkMark ';' = true ∧ ∀ l, c.checkKeyword l = true ↔ l = k := by
  constructor
  · rw [hp.checkMark_iff rfl]
    intro h
    cases (Prod.mk.inj h).1
  · intro l
    rw [hp.checkKeyword_iff]
    constructor
    · intro h
      exact (Keyword.word_injective (Prod.mk.inj h).2).symm
    · rintro rfl
      rfl

mutual

theorem statement_complete : ∀ {us : List Shape} {s : Option Stmt} {c d : Cursor},
    Statement us s → c.Passes us d →
      ∃ r : Read c (Option Stmt), c.statement = .ok r ∧ r.value = s ∧ r.next = d
  | _, _, c, d, .empty, hp => by
      have hmark : c.checkMark ';' = true := (hp.checkMark_iff rfl).mpr rfl
      refine ⟨⟨none, c.skip, length_skip_lt hmark⟩, ?_, rfl, hp.skip_eq⟩
      rw [statement, dif_pos hmark]
  | _, _, c, d, .declare he, hp => by
      obtain ⟨r, hr, hv, rfl⟩ := declaration_complete he hp
      refine ⟨⟨some r.value, r.next, r.shorter⟩, ?_, congrArg some hv, rfl⟩
      obtain ⟨hsemi, hkeyword⟩ := checks_of_word hp
      rw [statement, dif_neg hsemi, if_pos ((hkeyword .declare).mpr rfl)]
      exact bind_eq_ok_iff.mpr ⟨r, hr, rfl⟩
  | _, _, c, d, .debug x, hp => by
      obtain ⟨r, hr, hv, rfl⟩ := debugStatement_complete hp
      refine ⟨⟨some r.value, r.next, r.shorter⟩, ?_, congrArg some hv, rfl⟩
      obtain ⟨hsemi, hkeyword⟩ := checks_of_word hp
      rw [statement, dif_neg hsemi, if_neg (mt (hkeyword .declare).mp nofun),
        if_pos ((hkeyword .debug).mpr rfl)]
      exact bind_eq_ok_iff.mpr ⟨r, hr, rfl⟩
  | _, _, c, d, .when hl hr hss, hp => by
      obtain ⟨hsemi, hkeyword⟩ := checks_of_word hp
      have hlt := hp.shorter
      rw [← List.cons_append, ← List.cons_append, ← List.append_assoc] at hp
      obtain ⟨b, hhead, hblock⟩ := passes_append_iff.mp hp
      have hfollow : b.arithmetic? = none := arithmetic?_eq_none hblock fun _ _ => mark_ne_sign
      obtain ⟨b', hopen, hrest⟩ := passes_cons_iff.mp hblock
      obtain ⟨condition, hcondition, hv, rfl⟩ := conditionalHead_complete hl hr hhead hfollow
      obtain ⟨start, hstart, rfl⟩ := exists_expect hopen
      obtain ⟨body, hbody, rfl, rfl⟩ := blockRest_complete hss hrest
      have hread : condition.next.block
          = .ok ⟨body.value, body.next, Nat.lt_trans body.shorter start.shorter⟩ := by
        rw [block]
        exact bind_eq_ok_iff.mpr ⟨start, hstart, bind_eq_ok_iff.mpr ⟨body, hbody, rfl⟩⟩
      have hconditional : c.conditional = .ok ⟨.when condition.value body.value, body.next, hlt⟩ := by
        rw [conditional]
        exact bind_eq_ok_iff.mpr ⟨condition, hcondition, bind_eq_ok_iff.mpr ⟨_, hread, rfl⟩⟩
      refine ⟨⟨some (.when condition.value body.value), body.next, hlt⟩, ?_, ?_, rfl⟩
      · rw [statement, dif_neg hsemi, if_neg (mt (hkeyword .declare).mp nofun),
          if_neg (mt (hkeyword .debug).mp nofun), if_pos ((hkeyword .when).mpr rfl)]
        exact bind_eq_ok_iff.mpr ⟨_, hconditional, rfl⟩
      · rw [hv]

theorem blockRest_complete : ∀ {us : List Shape} {ss : List Stmt} {c d : Cursor},
    Statements us ss → c.Passes (us ++ [mark '\x7d']) d →
      ∃ r : Read c (List Stmt), c.blockRest = .ok r ∧ r.value = ss ∧ r.next = d
  | _, _, c, d, .nil, hp => by
      obtain ⟨stop, hstop, rfl⟩ := exists_expect hp
      refine ⟨⟨[], stop.next, stop.shorter⟩, ?_, rfl, rfl⟩
      have hclose : c.checkMark '\x7d' = true := (hp.checkMark_iff rfl).mpr rfl
      rw [blockRest, if_pos (by rw [hclose, Bool.or_true])]
      exact bind_eq_ok_iff.mpr ⟨stop, hstop, rfl⟩
  | _, _, c, d, .cons hs hss, hp => by
      rw [List.append_assoc] at hp
      have hopen := not_close_of_statement hs hp
      obtain ⟨b, hpass, hrest⟩ := passes_append_iff.mp hp
      obtain ⟨first, hfirst, rfl, rfl⟩ := statement_complete hs hpass
      obtain ⟨others, hothers, rfl, rfl⟩ := blockRest_complete hss hrest
      refine ⟨⟨first.value.toList ++ others.value, others.next, ?_⟩, ?_, rfl, rfl⟩
      · exact Nat.lt_trans others.shorter first.shorter
      · rw [blockRest, if_neg hopen]
        exact bind_eq_ok_iff.mpr ⟨first, hfirst, bind_eq_ok_iff.mpr ⟨others, hothers, rfl⟩⟩

end

/-! ## Statement after statement

The outermost loop reads statements until no token is left.  `Run` is that loop without the test
for the end, so that an accepted list is seen to be read to its end and not merely accepted. -/

/-- `c.Run ss d`: reading statement after statement leads from `c` to `d` and leaves `ss`. -/
inductive Run : Cursor → List Stmt → Cursor → Prop
  | refl (c : Cursor) : Run c [] c
  | step {c d : Cursor} {r : Read c (Option Stmt)} {ss : List Stmt} : c.statement = .ok r →
      Run r.next ss d → Run c (r.value.toList ++ ss) d

theorem run_of_statements (c : Cursor) {ss : List Stmt} (h : c.statements = .ok ss) :
    ∃ d, c.Run ss d ∧ d.rest = [] := by
  rw [statements] at h
  split at h
  · next hend =>
      cases h
      exact ⟨c, .refl c, isAtEnd_iff.mp hend⟩
  · obtain ⟨first, hfirst, h⟩ := bind_eq_ok_iff.mp h
    obtain ⟨others, hothers, h⟩ := bind_eq_ok_iff.mp h
    cases h
    have := first.shorter
    obtain ⟨d, hrun, hd⟩ := run_of_statements first.next hothers
    exact ⟨d, .step hfirst hrun, hd⟩
termination_by c.rest.length

/-- After a run, what is left to read is what is left at its end. -/
theorem Run.statements_eq {ss : List Stmt} (h : c.Run ss d) :
    c.statements = d.statements.map (ss ++ ·) := by
  induction h with
  | refl c =>
      cases c.statements with
      | error e => rfl
      | ok p => rfl
  | @step c d r ss hr _ ih =>
      have hopen : ¬ c.isAtEnd = true := by
        intro hend
        have hlt := r.shorter
        rw [isAtEnd_iff.mp hend] at hlt
        exact Nat.not_lt_zero _ hlt
      rw [statements, if_neg hopen, hr]
      show (r.next.statements >>= _) = _
      rw [ih]
      cases d.statements with
      | error e => rfl
      | ok p => exact congrArg Except.ok (List.append_assoc ..).symm

theorem statements_of_run {ss : List Stmt} (h : c.Run ss d) (hd : d.rest = []) :
    c.statements = .ok ss := by
  rw [h.statements_eq, statements, if_pos (isAtEnd_iff.mpr hd)]
  exact congrArg Except.ok (List.append_nil ss)

theorem run_sound {ss : List Stmt} (h : c.Run ss d) : ∃ us, c.Passes us d ∧ Statements us ss := by
  induction h with
  | refl c => exact ⟨[], .refl c, .nil⟩
  | step hr _ ih =>
      obtain ⟨us, hus, hs⟩ := statement_sound _ hr
      obtain ⟨vs, hvs, hss⟩ := ih
      exact ⟨us ++ vs, hus.append hvs, .cons hs hss⟩

theorem run_complete : ∀ {us : List Shape} {ss : List Stmt} {c d : Cursor},
    Statements us ss → c.Passes us d → c.Run ss d
  | _, _, c, d, .nil, hp => by
      cases passes_nil_iff.mp hp
      exact .refl c
  | _, _, c, d, .cons hs hss, hp => by
      obtain ⟨b, hpass, hrest⟩ := passes_append_iff.mp hp
      obtain ⟨r, hr, rfl, rfl⟩ := statement_complete hs hpass
      exact .step hr (run_complete hss hrest)

/-- Reading all tokens of a list passes over their shapes to the end of the list. -/
theorem passes_ofTokens_iff {ts : List Token} {us : List Shape} {d : Cursor} :
    (ofTokens ts).Passes us d ∧ d.rest = [] ↔
      us = ts.map Token.shape ∧ d = ⟨[], finishOf ts⟩ := by
  constructor
  · rintro ⟨⟨hf, ts', rfl, hr⟩, hd⟩
    rw [hd, List.append_nil] at hr
    exact ⟨congrArg _ hr.symm, Cursor.ext hd hf⟩
  · rintro ⟨rfl, rfl⟩
    exact ⟨⟨rfl, ts, rfl, (List.append_nil ts).symm⟩, rfl⟩

end Cursor

/-! ## The program of a list of tokens -/

namespace Program

theorem run_of_ofTokens {ts : List Token} {p : Program} (h : ofTokens ts = .ok p) :
    (Cursor.ofTokens ts).Run p ⟨[], Cursor.finishOf ts⟩ := by
  obtain ⟨d, hrun, hd⟩ := Cursor.run_of_statements _ h
  obtain ⟨us, hus, -⟩ := Cursor.run_sound hrun
  obtain ⟨-, rfl⟩ := Cursor.passes_ofTokens_iff.mp ⟨hus, hd⟩
  exact hrun

theorem derives_of_ofTokens {ts : List Token} {p : Program} (h : ofTokens ts = .ok p) :
    Derives (ts.map Token.shape) p := by
  obtain ⟨us, hus, hss⟩ := Cursor.run_sound (run_of_ofTokens h)
  obtain ⟨rfl, -⟩ := Cursor.passes_ofTokens_iff.mp ⟨hus, rfl⟩
  exact hss

theorem ofTokens_of_derives {ts : List Token} {p : Program} (h : Derives (ts.map Token.shape) p) :
    ofTokens ts = .ok p := by
  have hp := (@Cursor.passes_ofTokens_iff ts _ _).mpr ⟨rfl, rfl⟩
  exact Cursor.statements_of_run (Cursor.run_complete h hp.1) hp.2

/-- A list of tokens reads as a program exactly if its shapes derive the program; the shapes of a
list derive at most one; and a list that is accepted is read statement by statement to its end. -/
theorem ofTokens_eq_ok_iff (ts : List Token) :
    (∀ p, ofTokens ts = .ok p ↔ Derives (ts.map Token.shape) p) ∧
      (∀ p q, Derives (ts.map Token.shape) p → Derives (ts.map Token.shape) q → p = q) ∧
      (∀ p, ofTokens ts = .ok p →
        (Cursor.ofTokens ts).Run p ⟨[], Cursor.finishOf ts⟩) := by
  refine ⟨fun p => ⟨derives_of_ofTokens, ofTokens_of_derives⟩, fun p q hp hq => ?_,
    fun p => run_of_ofTokens⟩
  have h := (ofTokens_of_derives hp).symm.trans (ofTokens_of_derives hq)
  exact Except.ok.inj h

/-- `if a is +7 { ; de a; }`, with the place of every token left blank; no source gives the third
of its operands. -/
theorem ofTokens_signed_condition :
    ofTokens [⟨.keyword, "if", .origin⟩, ⟨.identifier, "a", .origin⟩, ⟨.operator, "is", .origin⟩,
        ⟨.number, "+7", .origin⟩, ⟨.punctuation, "\x7b", .origin⟩, ⟨.punctuation, ";", .origin⟩,
        ⟨.keyword, "de", .origin⟩, ⟨.identifier, "a", .origin⟩, ⟨.punctuation, ";", .origin⟩,
        ⟨.punctuation, "\x7d", .origin⟩]
      = .ok [.when (.binary .is (.identifier "a") (.literal 7)) [.debug "a"]] := by
  refine ((ofTokens_eq_ok_iff _).1 _).mpr ?_
  have hseven : Integer.Numeral "+7".toList (7 : Int64).toInt :=
    Integer.read?_eq_some_iff.mp (by decide)
  have hbody : Statements [mark ';', word .debug, (.identifier, "a"), mark ';'] [.debug "a"] :=
    .cons .empty (.cons (.debug "a") .nil)
  exact .cons (.when (.operand (.name "a")) (.operand (.number hseven)) hbody) .nil

end Program

end FlatScript
