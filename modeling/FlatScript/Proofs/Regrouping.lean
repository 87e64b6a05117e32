import FlatScript.Proofs.RoundTrip

/-!
# What a layout reads as

The layout of a program that no source can spell may still be a source, of another program: an
expression below an operator is written without parentheses, so its operators are grouped anew
when they are read.  This can happen in conditions only, since everywhere else a source has room
for a single operator.

Main statement, `program_layout_regrouped`: a layout that reads as a program is the layout of that
program too, and the program is the one that was written exactly if each of its conditions, at any
depth, was a comparison.
-/

namespace FlatScript

open Grammar

/-! ## Tokens say how an expression is written -/

/-- The text of the tokens of an expression: behind an operand stands an operator between blanks,
anywhere else an operator is a sign. -/
def spell : Bool → List Shape → String
  | _, [] => ""
  | true, u :: us => " " ++ u.2 ++ " " ++ spell false us
  | false, u :: us => u.2 ++ spell (u.1 != .operator) us

theorem spell_integer (n : Int64) (us : List Shape) :
    spell false (Integer.shapes n ++ us) = Integer.text n ++ spell true us := by
  rw [Integer.shapes, Integer.text]
  cases n.toInt with
  | ofNat m => rfl
  | negSucc m =>
      show "-" ++ (toString (m + 1) ++ spell true us) = "-" ++ toString (m + 1) ++ spell true us
      rw [String.append_assoc]

theorem spell_shapes (e : Expr) : ∀ us, spell false (e.shapes ++ us) = e.text ++ spell true us := by
  induction e with
  | literal n => exact spell_integer n
  | identifier x => exact fun us => rfl
  | binary op l r hl hr =>
      intro us
      rw [Expr.shapes, List.append_assoc, hl, List.cons_append, spell, hr, Expr.text]
      simp only [sign, String.append_assoc]

theorem text_eq_of_shapes {e f : Expr} (h : e.shapes = f.shapes) : e.text = f.text := by
  have he := spell_shapes e []
  rw [h, spell_shapes f []] at he
  simpa [spell] using he.symm

/-! ## Tokens of a flat expression say which expression it is -/

section Flat

variable {us ls rs : List Shape} {e f l r : Expr}

theorem length_shapes_pos (e : Expr) : 0 < e.shapes.length := by
  cases e with
  | literal n =>
      rw [Expr.shapes, Integer.shapes]
      cases n.toInt <;> exact Nat.succ_pos _
  | identifier x => exact Nat.one_pos
  | binary op l r =>
      rw [Expr.shapes, List.length_append, List.length_cons]
      omega

theorem Grammar.Operand.length_eq (h : Operand us f) : us.length = 1 := by
  cases h <;> rfl

theorem eq_of_operand (h : Operand us f) (hus : e.shapes = us) : f = e := by
  have hlength := h.length_eq
  rw [← hus] at hlength
  cases e with
  | literal n =>
      rw [Expr.shapes, Integer.shapes] at hus hlength
      cases hn : n.toInt with
      | ofNat m =>
          rw [hn] at hus
          subst hus
          cases h with
          | number hv =>
              have := Integer.eq_of_numeral_toString hv
              rw [Int64.toInt_inj.mp (this.trans hn.symm)]
      | negSucc m =>
          rw [hn] at hlength
          cases hlength
  | identifier x =>
      subst hus
      cases h with
      | name => rfl
  | binary op l r =>
      have hl := length_shapes_pos l
      have hr := length_shapes_pos r
      rw [Expr.shapes, List.length_append, List.length_cons] at hlength
      omega

theorem symbol_injective {op op' : Operator} (h : op.symbol = op'.symbol) : op = op' := by
  have hop := Operator.ofSymbol?_eq_some_iff.mpr h
  rw [Operator.ofSymbol?_eq_some_iff.mpr (Eq.refl op'.symbol)] at hop
  exact (Option.some.inj hop).symm

/-- The tokens of an expression derive no other expression: with one operator at most there is
nothing to group. -/
theorem eq_of_expression (h : Expression us f) (hus : e.shapes = us) : f = e := by
  cases h with
  | operand h => exact eq_of_operand h hus
  | binary hl hop hr =>
      have hleft := hl.length_eq
      have hright := hr.length_eq
      have hlength := congrArg List.length hus
      rw [List.length_append, List.length_cons, hleft, hright] at hlength
      cases e with
      | literal n =>
          rw [Expr.shapes, Integer.shapes] at hlength
          cases hn : n.toInt <;>
            · rw [hn] at hlength
              cases hlength
      | identifier x => cases hlength
      | binary op' l' r' =>
          have hl' := length_shapes_pos l'
          have hr' := length_shapes_pos r'
          rw [Expr.shapes, List.length_append, List.length_cons] at hlength
          rw [Expr.shapes] at hus
          obtain ⟨hls, hrest⟩ := List.append_inj hus (by omega)
          obtain ⟨hsign, hrs⟩ := List.cons.inj hrest
          rw [eq_of_operand hl hls, eq_of_operand hr hrs,
            symbol_injective (Prod.mk.inj hsign).2]

end Flat

/-! ## Conditions -/

section Conditions

variable {us ls rs : List Shape} {e f l r : Expr}

theorem not_punctuation_of_shapes (e : Expr) : ∀ u ∈ e.shapes, u.1 ≠ .punctuation := by
  induction e with
  | literal n =>
      rw [Expr.shapes, Integer.shapes]
      cases n.toInt with
      | ofNat m => simp
      | negSucc m => simp [sign]
  | identifier x => simp [Expr.shapes]
  | binary op l r hl hr =>
      refine List.forall_mem_append.mpr ⟨hl, List.forall_mem_cons.mpr ⟨?_, hr⟩⟩
      simp [sign]

theorem number_of_shapes (e : Expr) :
    ∀ text, (.number, text) ∈ e.shapes → ∃ m : Nat, text = toString m := by
  induction e with
  | literal n =>
      intro text h
      rw [Expr.shapes, Integer.shapes] at h
      cases hn : n.toInt with
      | ofNat m =>
          rw [hn, List.mem_singleton] at h
          exact ⟨m, (Prod.mk.inj h).2⟩
      | negSucc m =>
          simp [hn, sign] at h
          exact ⟨m + 1, h⟩
  | identifier x => simp [Expr.shapes]
  | binary op l r hl hr =>
      intro text h
      rcases List.mem_append.mp h with h | h
      · exact hl text h
      · rcases List.mem_cons.mp h with h | h
        · cases h
        · exact hr text h

/-- An operand whose number is written as integers are has the tokens of its expression. -/
theorem Grammar.Operand.shapes_eq (h : Operand us f)
    (hus : ∀ text, (.number, text) ∈ us → ∃ m : Nat, text = toString m) : us = f.shapes := by
  cases h with
  | @number text n hn =>
      obtain ⟨m, rfl⟩ := hus text List.mem_cons_self
      have hm : n.toInt = .ofNat m := Integer.eq_of_numeral_toString hn
      rw [Expr.shapes, Integer.shapes, hm]
  | name x => rfl

theorem Grammar.Expression.shapes_eq (h : Expression us f)
    (hus : ∀ text, (.number, text) ∈ us → ∃ m : Nat, text = toString m) : us = f.shapes := by
  cases h with
  | operand h => exact h.shapes_eq hus
  | binary hl hop hr =>
      rw [Expr.shapes, ← hl.shapes_eq fun text h => hus text (List.mem_append_left _ h),
        ← hr.shapes_eq fun text h => hus text (List.mem_append_right _ (List.mem_cons_of_mem _ h))]

theorem Grammar.Operand.kind (h : Operand us f) :
    ∀ u ∈ us, u ≠ sign "is" ∧ u.1 ≠ .punctuation := by
  cases h <;> simp [sign]

/-- No expression that is read is a comparison, or has punctuation in it. -/
theorem Grammar.Expression.kind (h : Expression us f) :
    ∀ u ∈ us, u ≠ sign "is" ∧ u.1 ≠ .punctuation := by
  cases h with
  | operand h => exact h.kind
  | @binary ls rs l r op hl hop hr =>
      have hsign : sign op.symbol ≠ sign "is" := by
        intro his
        cases @symbol_injective op .is (Prod.mk.inj his).2
        cases Operator.mem_arithmetic.mp hop
      have hkind : (sign op.symbol).1 ≠ .punctuation := by
        simp [sign]
      exact List.forall_mem_append.mpr
        ⟨hl.kind, List.forall_mem_cons.mpr ⟨⟨hsign, hkind⟩, hr.kind⟩⟩

/-- What the tokens of a condition are read as is written as the condition is. -/
theorem text_of_comparison (hl : Expression ls l) (hr : Expression rs r)
    (h : e.shapes = ls ++ sign "is" :: rs) : (Expr.binary .is l r).text = e.text := by
  have hnumber := number_of_shapes e
  rw [h] at hnumber
  refine (text_eq_of_shapes ?_).symm
  rw [h, Expr.shapes, ← hl.shapes_eq fun text h => hnumber text (List.mem_append_left _ h),
    ← hr.shapes_eq fun text h => hnumber text (List.mem_append_right _ (List.mem_cons_of_mem _ h))]
  rfl

/-- It is the condition itself exactly if that was a comparison. -/
theorem comparison_eq_iff (hl : Expression ls l) (hr : Expression rs r)
    (h : e.shapes = ls ++ sign "is" :: rs) :
    .binary .is l r = e ↔ ∃ l' r', e = .binary .is l' r' := by
  constructor
  · rintro rfl
    exact ⟨l, r, rfl⟩
  · rintro ⟨l', r', rfl⟩
    have hls : sign "is" ∉ ls := fun hmem => (hl.kind _ hmem).1 rfl
    have hrs : sign "is" ∉ rs := fun hmem => (hr.kind _ hmem).1 rfl
    obtain ⟨hleft, -, hright⟩ := (List.append_cons_inj_of_notMem hls hrs).mp h.symm
    rw [eq_of_expression hl hleft.symm, eq_of_expression hr hright.symm]

end Conditions

/-! ## Statements -/

/-- All conditions of the statement, at any depth, are comparisons. -/
inductive Comparing : Stmt → Prop
  | declare (x : String) (e : Expr) : Comparing (.declare x e)
  | debug (x : String) : Comparing (.debug x)
  | when {l r : Expr} {body : List Stmt} : (∀ s ∈ body, Comparing s) →
      Comparing (.when (.binary .is l r) body)

/-- What a statement reads as: it is written in the same lines, and is the same statement exactly
if the conditions in it are comparisons. -/
structure ReadsAs (s t : Stmt) : Prop where
  lines : ∀ level, Stmt.layoutLines level t = Stmt.layoutLines level s
  eq_iff : t = s ↔ Comparing s

section Statements

variable {p q : Program}

theorem layoutLines_of_readsAs (h : List.Forall₂ ReadsAs p q) (level : Nat) :
    Program.layoutLines level q = Program.layoutLines level p := by
  induction h with
  | nil => rfl
  | cons hs _ ih => rw [Program.layoutLines, Program.layoutLines, hs.lines, ih]

theorem eq_iff_of_readsAs (h : List.Forall₂ ReadsAs p q) : q = p ↔ ∀ s ∈ p, Comparing s := by
  induction h with
  | nil => simp
  | cons hs _ ih => rw [List.cons.injEq, hs.eq_iff, ih, List.forall_mem_cons]

theorem readsAs_declare (x : String) (e : Expr) : ReadsAs (.declare x e) (.declare x e) :=
  ⟨fun _ => rfl, ⟨fun _ => .declare x e, fun _ => rfl⟩⟩

theorem readsAs_debug (x : String) : ReadsAs (.debug x) (.debug x) :=
  ⟨fun _ => rfl, ⟨fun _ => .debug x, fun _ => rfl⟩⟩

theorem readsAs_when {c l r : Expr} (htext : (Expr.binary .is l r).text = c.text)
    (hcondition : .binary .is l r = c ↔ ∃ l' r', c = .binary .is l' r')
    (hbody : List.Forall₂ ReadsAs p q) :
    ReadsAs (.when c p) (.when (.binary .is l r) q) := by
  constructor
  · intro level
    have hlines := layoutLines_of_readsAs hbody (level + 1)
    cases hbody with
    | nil => rw [Stmt.layoutLines, Stmt.layoutLines, htext]
    | cons hs hss =>
        rw [Program.layoutLines, Program.layoutLines] at hlines
        rw [Stmt.layoutLines, Stmt.layoutLines, htext, hlines]
  · rw [Stmt.when.injEq, hcondition, eq_iff_of_readsAs hbody]
    constructor
    · rintro ⟨⟨l', r', rfl⟩, h⟩
      exact .when h
    · intro h
      cases h with
      | when h => exact ⟨⟨_, _, rfl⟩, h⟩

/-- Lists that are split by the same separator, where neither first part has one, are split in the
same place. -/
theorem append_cons_inj {α : Type} {a : α} {xs ys zs ws : List α} (hx : a ∉ xs) (hy : a ∉ ys)
    (h : xs ++ a :: zs = ys ++ a :: ws) : xs = ys ∧ zs = ws := by
  induction xs generalizing ys with
  | nil =>
      cases ys with
      | nil => exact ⟨rfl, (List.cons.inj h).2⟩
      | cons y ys => exact absurd (List.cons.inj h).1 (List.ne_of_not_mem_cons hy)
  | cons x xs ih =>
      cases ys with
      | nil => exact absurd (List.cons.inj h).1.symm (List.ne_of_not_mem_cons hx)
      | cons y ys =>
          obtain ⟨rfl, htail⟩ := List.cons.inj h
          obtain ⟨rfl, hrest⟩ := ih (List.not_mem_of_not_mem_cons hx)
            (List.not_mem_of_not_mem_cons hy) htail
          exact ⟨rfl, hrest⟩

theorem word_injective {k k' : Keyword} (h : word k = word k') : k = k' :=
  Keyword.word_injective (Prod.mk.inj h).2

/-- Behind the statements of a program nothing follows, or the brace that closes them. -/
def Ends (us : List Shape) : Prop := ∀ u ∈ us.head?, u = mark '\x7d'

theorem not_ends_append {us vs : List Shape} {t : Option Stmt} (h : Statement us t) :
    ¬ Ends (us ++ vs) := by
  obtain ⟨u, us, rfl, hu⟩ := h.head
  intro hends
  have := hends u rfl
  rcases hu with rfl | ⟨k, rfl⟩
  · revert this
    decide
  · cases this

theorem mark_not_mem_shapes (c : Char) (e : Expr) : mark c ∉ e.shapes :=
  fun h => not_punctuation_of_shapes e _ h rfl

theorem Grammar.Expression.mark_not_mem {us : List Shape} {f : Expr} (h : Expression us f)
    (c : Char) : mark c ∉ us :=
  fun hmem => (h.kind _ hmem).2 rfl

theorem keyword_eq {k : Keyword} {s : Stmt} {us ws : List Shape}
    (h : word k :: us = s.shapes ++ ws) : k = s.keyword := by
  obtain ⟨vs, hvs⟩ := s.exists_shapes
  rw [hvs] at h
  exact word_injective (List.cons.inj h).1

theorem readsAs_of_declare {us vs ws : List Shape} {x : String} {f : Expr} {s : Stmt}
    (hf : Expression us f)
    (h : word .declare :: (.identifier, x) :: sign "=" :: (us ++ mark ';' :: vs)
      = s.shapes ++ ws) : vs = ws ∧ ReadsAs s (.declare x f) := by
  have hkeyword := keyword_eq h
  cases s with
  | debug y => cases hkeyword
  | when c body => cases hkeyword
  | declare y e =>
      simp only [Stmt.shapes, List.cons_append, List.append_assoc, List.nil_append] at h
      obtain ⟨-, h⟩ := List.cons.inj h
      obtain ⟨hname, h⟩ := List.cons.inj h
      obtain ⟨-, h⟩ := List.cons.inj h
      obtain ⟨hus, hrest⟩ := append_cons_inj (hf.mark_not_mem ';') (mark_not_mem_shapes ';' e) h
      rw [(Prod.mk.inj hname).2, eq_of_expression hf hus.symm]
      exact ⟨hrest, readsAs_declare y e⟩

theorem readsAs_of_debug {vs ws : List Shape} {x : String} {s : Stmt}
    (h : word .debug :: (.identifier, x) :: mark ';' :: vs = s.shapes ++ ws) :
    vs = ws ∧ ReadsAs s (.debug x) := by
  have hkeyword := keyword_eq h
  cases s with
  | declare y e => cases hkeyword
  | when c body => cases hkeyword
  | debug y =>
      obtain ⟨-, h⟩ := List.cons.inj h
      obtain ⟨hname, h⟩ := List.cons.inj h
      obtain ⟨-, hrest⟩ := List.cons.inj h
      rw [(Prod.mk.inj hname).2]
      exact ⟨hrest, readsAs_debug y⟩

/-- The condition is found again up to its braces, and so are the statements between them. -/
theorem readsAs_of_when {ls rs body vs ws : List Shape} {l r : Expr} {q : List Stmt} {s : Stmt}
    (hl : Expression ls l) (hr : Expression rs r)
    (hq : ∀ {p : Program} {ws : List Shape}, body ++ mark '\x7d' :: vs = p.shapes ++ ws →
      Ends ws → mark '\x7d' :: vs = ws ∧ List.Forall₂ ReadsAs p q)
    (h : word .when :: ((ls ++ sign "is" :: rs) ++ mark '\x7b' :: (body ++ mark '\x7d' :: vs))
      = s.shapes ++ ws) :
    vs = ws ∧ ReadsAs s (.when (.binary .is l r) q) := by
  have hkeyword := keyword_eq h
  cases s with
  | declare y e => cases hkeyword
  | debug y => cases hkeyword
  | when c p =>
      simp only [Stmt.shapes, List.cons_append, List.append_assoc, List.nil_append] at h
      obtain ⟨-, h⟩ := List.cons.inj h
      rw [← List.cons_append, ← List.append_assoc] at h
      have hbrace : mark '\x7b' ∉ ls ++ sign "is" :: rs := by
        intro hmem
        rcases List.mem_append.mp hmem with hmem | hmem
        · exact hl.mark_not_mem _ hmem
        · rcases List.mem_cons.mp hmem with hmem | hmem
          · cases hmem
          · exact hr.mark_not_mem _ hmem
      obtain ⟨hcondition, hbody⟩ := append_cons_inj hbrace (mark_not_mem_shapes _ c) h
      obtain ⟨hrest, hpq⟩ := hq hbody fun u hu => (Option.some.inj hu).symm
      refine ⟨(List.cons.inj hrest).2, readsAs_when ?_ ?_ hpq⟩
      · exact text_of_comparison hl hr hcondition.symm
      · exact comparison_eq_iff hl hr hcondition.symm

-- A derivation is laid along the tokens of a program, with anything behind either of them; the rules
-- are told apart by the keyword, and a part ends at its first separator on both sides.

mutual

theorem readsAs_of_statement : ∀ {us : List Shape} {t : Option Stmt}, Statement us t →
    ∀ {s : Stmt} {vs ws : List Shape}, us ++ vs = s.shapes ++ ws →
      ∃ t', t = some t' ∧ vs = ws ∧ ReadsAs s t'
  | _, _, .empty, s, vs, ws, h => by
      obtain ⟨us, hus⟩ := s.exists_shapes
      rw [hus] at h
      cases (List.cons.inj h).1
  | _, _, .declare hf, s, vs, ws, h => by
      refine ⟨_, rfl, readsAs_of_declare hf ?_⟩
      simpa using h
  | _, _, .debug x, s, vs, ws, h => ⟨_, rfl, readsAs_of_debug h⟩
  | _, _, @Statement.when ls rs body l r q hl hr hq, s, vs, ws, h => by
      have hbody {p : Program} {ws : List Shape} (h : body ++ mark '\x7d' :: vs = p.shapes ++ ws)
          (hws : Ends ws) : mark '\x7d' :: vs = ws ∧ List.Forall₂ ReadsAs p q :=
        readsAs_of_statements hq h (fun u hu => (Option.some.inj hu).symm) hws
      refine ⟨_, rfl, readsAs_of_when hl hr hbody ?_⟩
      simpa using h

theorem readsAs_of_statements : ∀ {us : List Shape} {q : List Stmt}, Statements us q →
    ∀ {p : Program} {vs ws : List Shape}, us ++ vs = p.shapes ++ ws → Ends vs → Ends ws →
      vs = ws ∧ List.Forall₂ ReadsAs p q
  | _, _, .nil, [], vs, ws, h, _, _ => ⟨h, .nil⟩
  | _, _, .nil, s :: p, vs, ws, h, hvs, _ => by
      obtain ⟨us, hus⟩ := s.exists_shapes
      rw [List.nil_append, Program.shapes, hus] at h
      subst h
      cases hvs _ rfl
  | _, _, .cons hs hss, [], vs, ws, h, _, hws => by
      rw [List.append_assoc] at h
      subst h
      exact absurd hws (not_ends_append hs)
  | _, _, .cons hs hss, s :: p, vs, ws, h, hvs, hws => by
      rw [List.append_assoc, Program.shapes, List.append_assoc] at h
      obtain ⟨t, rfl, hrest, hst⟩ := readsAs_of_statement hs h
      obtain ⟨hends, hpq⟩ := readsAs_of_statements hss hrest hvs hws
      exact ⟨hends, .cons hst hpq⟩

end

end Statements

/-! ## Programs -/

mutual

/-- With the standard words, names are all that has to be asked for. -/
theorem worded_of_names : ∀ s : Stmt, (∀ x ∈ s.names, IsName .standard x) → Worded .standard s
  | .declare x e, h => by
      obtain ⟨hx, he⟩ := List.forall_mem_cons.mp h
      exact .declare (by decide) hx he
  | .debug x, h => .debug (by decide) (h x (List.mem_singleton_self x))
  | .when c body, h => by
      obtain ⟨hc, hbody⟩ := List.forall_mem_append.mp h
      exact .when (by decide) hc (forall_worded_of_names body hbody)

theorem forall_worded_of_names : ∀ p : Program, (∀ x ∈ p.names, IsName .standard x) →
    ∀ s ∈ p, Worded .standard s
  | [], _ => nofun
  | s :: p, h => by
      obtain ⟨hs, hp⟩ := List.forall_mem_append.mp h
      exact List.forall_mem_cons.mpr ⟨worded_of_names s hs, forall_worded_of_names p hp⟩

end

namespace Script

/-- What a layout reads as has the same layout, and is the program that was written exactly if all
conditions in that are comparisons. -/
theorem program_layout_regrouped {p q : Program} (hnames : ∀ x ∈ p.names, IsName .standard x)
    (hsize : p.layout.utf8ByteSize ≤ maxOffset) (h : program .standard p.layout = .ok q) :
    q.layout = p.layout ∧ (q = p ↔ ∀ s ∈ p, Comparing s) := by
  obtain ⟨ts, hts, hshapes⟩ := (Program.closed_layout (forall_worded_of_names p hnames)).scan hsize
  obtain ⟨ts', hts', hq⟩ := program_eq_ok_iff.mp h
  cases hts.symm.trans hts'
  have hderives : Statements (ts.map Token.shape) q := Program.derives_of_ofTokens hq
  have hends : Ends [] := nofun
  obtain ⟨-, hpq⟩ := readsAs_of_statements hderives (congrArg (· ++ []) hshapes) hends hends
  refine ⟨?_, eq_iff_of_readsAs hpq⟩
  rw [Program.layout, Program.layout, layoutLines_of_readsAs hpq]

/-- A sum with a comparison in it, as a condition, is read as a comparison of a sum. -/
theorem program_layout_regrouped_sum :
    ∃ p q : Program, p.layout = "if a + b is c \x7b\x7d\n" ∧
      (∀ x ∈ p.names, IsName .standard x) ∧ program .standard p.layout = .ok q ∧
      q.layout = p.layout ∧ q ≠ p := by
  let p : Program :=
    [.when (.binary .add (.identifier "a") (.binary .is (.identifier "b") (.identifier "c"))) []]
  let q : Program :=
    [.when (.binary .is (.binary .add (.identifier "a") (.identifier "b")) (.identifier "c")) []]
  have hnames : ∀ x ∈ p.names, IsName .standard x := by decide
  have hlayout : p.layout = "if a + b is c \x7b\x7d\n" := by decide
  have hq : program .standard p.layout = .ok q := by
    rw [hlayout]
    decide +kernel
  obtain ⟨hsame, hiff⟩ := program_layout_regrouped hnames (by decide) hq
  refine ⟨p, q, hlayout, hnames, hq, hsame, fun heq => ?_⟩
  cases hiff.mp heq _ List.mem_cons_self

end Script

end FlatScript
