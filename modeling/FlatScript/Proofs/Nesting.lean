import FlatScript.Proofs.Accounting
import FlatScript.Proofs.Names

/-!
# Indentation and nesting

A layout is made line by line, each line at its level.  Here it is described from outside, as a text
that is moved in: `Text.shifted` puts four spaces before each line of any text and looks at line
feeds alone.  So it tells the lines of a program only if no name has a line feed in it.

* One level more is one shift, line by line (`Program.layoutLines_succ`) and for the text
  (`Program.unlines_layoutLines`).
* A statement that stands below some conditionals has its own lines among those of the program, at
  that level (`Stmt.Within.exists_layoutLines`).

Main statement, `layout_compositional`.
-/

namespace FlatScript

/-! ## Texts that are moved in -/

namespace Text

/-- Characters with four spaces before each line, and before the first one if a line starts there.
Behind a last line feed there is no line. -/
def shiftFrom (starts : Bool) : List Char → List Char
  | [] => []
  | c :: cs => (if starts then [' ', ' ', ' ', ' '] else []) ++ c :: shiftFrom (c == '\n') cs

/-- A text with four spaces before each of its lines. -/
def shifted (s : String) : String := String.ofList (shiftFrom true s.toList)

/-- Some spaces. -/
def blanks (n : Nat) : String := String.ofList (List.replicate n ' ')

/-- Behind the text a line starts. -/
def Ended (s : String) : Prop := s = "" ∨ ∃ t, s = t ++ "\n"

theorem indentation_eq_blanks (level : Nat) : indentation level = blanks (4 * level) := by
  induction level with
  | zero => rfl
  | succ level ih =>
      rw [indentation, ih, Nat.mul_succ, Nat.add_comm, blanks, blanks, ← List.replicate_append_replicate,
        String.ofList_append]
      rfl

theorem not_mem_indentation (level : Nat) : '\n' ∉ (indentation level).toList := by
  rw [indentation_eq_blanks, blanks, String.toList_ofList]
  intro h
  cases List.eq_of_mem_replicate h

theorem ended_unlines (ls : List String) : Ended (unlines ls) := by
  rcases List.eq_nil_or_concat ls with rfl | ⟨ls, l, rfl⟩
  · exact .inl unlines_nil
  · refine .inr ⟨unlines ls ++ l, ?_⟩
    rw [List.concat_eq_append, unlines_append, unlines_cons, unlines_nil, String.append_empty,
      String.append_assoc]

/-- In the middle of a line, nothing is put before the rest of it. -/
theorem shiftFrom_false {cs : List Char} (h : '\n' ∉ cs) (rest : List Char) :
    shiftFrom false (cs ++ '\n' :: rest) = cs ++ '\n' :: shiftFrom true rest := by
  induction cs with
  | nil => rfl
  | cons c cs ih =>
      rw [List.mem_cons, not_or] at h
      have hc : (c == '\n') = false := beq_eq_false_iff_ne.mpr (Ne.symm h.1)
      rw [List.cons_append, shiftFrom, hc, ih h.2]
      rfl

theorem shiftFrom_true {cs : List Char} (h : '\n' ∉ cs) (rest : List Char) :
    shiftFrom true (cs ++ '\n' :: rest)
      = [' ', ' ', ' ', ' '] ++ cs ++ '\n' :: shiftFrom true rest := by
  cases cs with
  | nil => rfl
  | cons c cs =>
      have hrest := shiftFrom_false h rest
      rw [List.cons_append, shiftFrom] at hrest ⊢
      rw [if_neg Bool.false_ne_true, List.nil_append] at hrest
      rw [if_pos rfl, hrest, List.append_assoc, List.cons_append]

theorem shifted_empty : shifted "" = "" := rfl

/-- A line, and a text behind it. -/
theorem shifted_line {l : String} (h : '\n' ∉ l.toList) (s : String) :
    shifted (l ++ "\n" ++ s) = indentStep ++ l ++ "\n" ++ shifted s := by
  have htext : (l ++ "\n" ++ s).toList = l.toList ++ '\n' :: s.toList := by
    rw [String.toList_append, String.toList_append, List.append_assoc]
    rfl
  rw [shifted, htext, shiftFrom_true h, ← String.toList_inj, shifted]
  simp only [String.toList_append, String.toList_ofList, List.append_assoc]
  rfl

/-- Lines are moved in one by one. -/
theorem shifted_unlines {ls : List String} (h : ∀ l ∈ ls, '\n' ∉ l.toList) :
    shifted (unlines ls) = unlines (ls.map (indentStep ++ ·)) := by
  induction ls with
  | nil => rw [List.map_nil, unlines_nil, shifted_empty]
  | cons l ls ih =>
      obtain ⟨hl, hls⟩ := List.forall_mem_cons.mp h
      rw [unlines_cons, shifted_line hl, ih hls, List.map_cons, unlines_cons]

end Text

open Text

/-! ## Levels -/

theorem Expr.not_mem_text {e : Expr} (h : ∀ x ∈ e.names, '\n' ∉ x.toList) :
    '\n' ∉ e.text.toList := by
  induction e with
  | literal n => exact (Value.unbroken_text (.int n)).1
  | identifier x => exact h x (List.mem_singleton_self x)
  | binary op left right ihl ihr =>
      obtain ⟨hleft, hright⟩ := List.forall_mem_append.mp h
      have hop : '\n' ∉ op.symbol.toList := by cases op <;> decide
      simp [Expr.text, ihl hleft, ihr hright, hop]

mutual

theorem Stmt.layoutLines_succ (level : Nat) : ∀ s : Stmt,
    Stmt.layoutLines (level + 1) s = (Stmt.layoutLines level s).map (indentStep ++ ·)
  | .declare x e => by simp [Stmt.layoutLines, indentation, String.append_assoc]
  | .debug x => by simp [Stmt.layoutLines, indentation, String.append_assoc]
  | .when c [] => by simp [Stmt.layoutLines, indentation, String.append_assoc]
  | .when c (s :: ss) => by
      have hs := Stmt.layoutLines_succ (level + 1) s
      have hss := Program.layoutLines_succ (level + 1) ss
      simp [Stmt.layoutLines, indentation, String.append_assoc, hs, hss]

/-- One level more moves every line in by one step. -/
theorem Program.layoutLines_succ (level : Nat) : ∀ p : Program,
    Program.layoutLines (level + 1) p = (Program.layoutLines level p).map (indentStep ++ ·)
  | [] => rfl
  | s :: p => by
      rw [Program.layoutLines, Program.layoutLines, Stmt.layoutLines_succ level s,
        Program.layoutLines_succ level p, List.map_append]

end

mutual

theorem Stmt.not_mem_layoutLines (level : Nat) : ∀ {s : Stmt},
    (∀ x ∈ s.names, '\n' ∉ x.toList) → ∀ l ∈ Stmt.layoutLines level s, '\n' ∉ l.toList
  | .declare x e, h => by
      obtain ⟨hx, he⟩ := List.forall_mem_cons.mp h
      simp [Stmt.layoutLines, Keyword.word, not_mem_indentation, hx, Expr.not_mem_text he]
  | .debug x, h => by
      have hx : '\n' ∉ x.toList := h x (List.mem_singleton_self x)
      simp [Stmt.layoutLines, Keyword.word, not_mem_indentation, hx]
  | .when c [], h => by
      obtain ⟨hc, -⟩ := List.forall_mem_append.mp h
      simp [Stmt.layoutLines, Keyword.word, not_mem_indentation, Expr.not_mem_text hc]
  | .when c (s :: ss), h => by
      obtain ⟨hc, hbody⟩ := List.forall_mem_append.mp h
      obtain ⟨hs, hss⟩ := List.forall_mem_append.mp hbody
      rw [Stmt.layoutLines, List.forall_mem_cons, List.forall_mem_append, List.forall_mem_append]
      refine ⟨?_, ⟨Stmt.not_mem_layoutLines (level + 1) hs,
        Program.not_mem_layoutLines (level + 1) hss⟩, ?_⟩
      · simp [Keyword.word, not_mem_indentation, Expr.not_mem_text hc]
      · simp [not_mem_indentation]

/-- Names without line feeds leave the lines whole. -/
theorem Program.not_mem_layoutLines (level : Nat) : ∀ {p : Program},
    (∀ x ∈ p.names, '\n' ∉ x.toList) → ∀ l ∈ Program.layoutLines level p, '\n' ∉ l.toList
  | [], _ => nofun
  | s :: p, h => by
      obtain ⟨hs, hp⟩ := List.forall_mem_append.mp h
      exact List.forall_mem_append.mpr
        ⟨Stmt.not_mem_layoutLines level hs, Program.not_mem_layoutLines level hp⟩

end

namespace Program

variable {p : Program}

theorem names_subset_of_mem {s : Stmt} (h : s ∈ p) : s.names ⊆ p.names := by
  obtain ⟨us, vs, rfl⟩ := List.append_of_mem h
  rw [names_append, names]
  exact List.subset_append_of_subset_right _ (List.subset_append_left _ _)

theorem layoutLines_append (level : Nat) (p q : Program) :
    layoutLines level (p ++ q) = layoutLines level p ++ layoutLines level q := by
  induction p with
  | nil => rfl
  | cons s p ih => rw [List.cons_append, layoutLines, layoutLines, ih, List.append_assoc]

theorem layoutLines_singleton (level : Nat) (s : Stmt) :
    layoutLines level [s] = s.layoutLines level := by
  rw [layoutLines, layoutLines, List.append_nil]

theorem exists_layoutLines_of_mem {s : Stmt} (h : s ∈ p) (level : Nat) :
    ∃ above below, layoutLines level p = above ++ s.layoutLines level ++ below := by
  obtain ⟨us, vs, rfl⟩ := List.append_of_mem h
  refine ⟨layoutLines level us, layoutLines level vs, ?_⟩
  rw [layoutLines_append, layoutLines, List.append_assoc]

/-- At a level, the text of a program is its layout, moved in as often. -/
theorem unlines_layoutLines (h : ∀ x ∈ p.names, '\n' ∉ x.toList) (level : Nat) :
    unlines (layoutLines level p) = shifted^[level] p.layout := by
  induction level with
  | zero => rfl
  | succ level ih =>
      rw [layoutLines_succ, ← shifted_unlines (not_mem_layoutLines level h), ih,
        Function.iterate_succ_apply']

end Program

namespace Stmt

/-- The lines of a conditional: its head, its body one level deeper, and a brace. -/
theorem layoutLines_when (level : Nat) (c : Expr) {body : Program} (h : body ≠ []) :
    layoutLines level (.when c body)
      = (indentation level ++ Keyword.when.word ++ " " ++ c.text ++ " \x7b")
        :: (Program.layoutLines (level + 1) body ++ [indentation level ++ "\x7d"]) := by
  obtain ⟨s, ss, rfl⟩ := List.exists_cons_of_ne_nil h
  rw [layoutLines, Program.layoutLines]

theorem unlines_layoutLines_when (level : Nat) (c : Expr) {body : Program} (h : body ≠ []) :
    unlines (layoutLines level (.when c body)) = indentation level ++ "if " ++ c.text ++ " \x7b\n"
      ++ unlines (Program.layoutLines (level + 1) body) ++ indentation level ++ "\x7d\n" := by
  have hif : "if " = Keyword.when.word ++ " " := rfl
  have hopen : " \x7b\n" = " \x7b" ++ "\n" := rfl
  have hclose : "\x7d\n" = "\x7d" ++ "\n" := rfl
  rw [layoutLines_when level c h, unlines_cons, unlines_append, unlines_cons, unlines_nil, hif, hopen,
    hclose]
  simp only [String.append_assoc, String.append_empty]

/-- The first line of a statement begins with the indentation of its level and the keyword. -/
theorem exists_layoutLines_cons (level : Nat) (s : Stmt) :
    ∃ more ls, layoutLines level s
      = (indentation level ++ s.keyword.word ++ " " ++ more) :: ls := by
  cases s with
  | declare x e =>
      exact ⟨x ++ " = " ++ e.text ++ ";", [], by simp [layoutLines, keyword, String.append_assoc]⟩
  | debug x => exact ⟨x ++ ";", [], by simp [layoutLines, keyword, String.append_assoc]⟩
  | when c body =>
      cases body with
      | nil =>
          exact ⟨c.text ++ " \x7b\x7d", [], by simp [layoutLines, keyword, String.append_assoc]⟩
      | cons s ss =>
          refine ⟨c.text ++ " \x7b", Program.layoutLines (level + 1) (s :: ss)
            ++ [indentation level ++ "\x7d"], ?_⟩
          rw [layoutLines_when level c (List.cons_ne_nil s ss), keyword]
          simp only [String.append_assoc]

theorem exists_unlines_layoutLines (level : Nat) (s : Stmt) :
    ∃ rest, unlines (layoutLines level s) = indentation level ++ s.keyword.word ++ " " ++ rest := by
  obtain ⟨more, ls, h⟩ := s.exists_layoutLines_cons level
  refine ⟨more ++ "\n" ++ unlines ls, ?_⟩
  rw [h, unlines_cons]
  simp only [String.append_assoc]

/-! ## Statements inside of others -/

/-- `s.Within d p`: the statement stands in the program, inside of `d` conditionals. -/
inductive Within (s : Stmt) : Nat → Program → Prop
  | here {p : Program} : s ∈ p → Within s 0 p
  | inside {d : Nat} {c : Expr} {body p : Program} : .when c body ∈ p → Within s d body →
      Within s (d + 1) p

variable {s : Stmt} {p : Program} {d : Nat}

theorem Within.names_subset (h : s.Within d p) : s.names ⊆ p.names := by
  induction h with
  | here hs => exact Program.names_subset_of_mem hs
  | inside hwhen _ ih =>
      refine List.Subset.trans (List.Subset.trans ih ?_) (Program.names_subset_of_mem hwhen)
      exact List.subset_append_right _ _

theorem Within.ne_nil (h : s.Within d p) : p ≠ [] := by
  cases h with
  | here hs => exact List.ne_nil_of_mem hs
  | inside hwhen _ => exact List.ne_nil_of_mem hwhen

/-- The lines of a statement are among those of the program, at the level of the statement. -/
theorem Within.exists_layoutLines (h : s.Within d p) (level : Nat) :
    ∃ above below, Program.layoutLines level p = above ++ s.layoutLines (level + d) ++ below := by
  induction h generalizing level with
  | here hs => exact Program.exists_layoutLines_of_mem hs level
  | @inside d c body p hwhen hbody ih =>
      obtain ⟨above, below, hp⟩ := Program.exists_layoutLines_of_mem hwhen level
      obtain ⟨above', below', hlines⟩ := ih (level + 1)
      refine ⟨above ++ (indentation level ++ Keyword.when.word ++ " " ++ c.text ++ " \x7b") :: above',
        below' ++ (indentation level ++ "\x7d") :: below, ?_⟩
      rw [hp, layoutLines_when level c hbody.ne_nil, hlines, Nat.add_right_comm level 1 d]
      simp [Nat.add_assoc]

end Stmt

/-! ## Programs -/

/-- The layout of statements is that of each of them, one behind the other.  A body is written
between the line of its condition and a brace, with four spaces before each of its lines.  So each
statement stands in lines of its own, moved in by four spaces for each conditional around it, and
with a body it ends in a brace that is moved in as far. -/
theorem layout_compositional :
    (∀ p q : Program, Program.layout (p ++ q) = p.layout ++ q.layout) ∧
    (∀ (c : Expr) (body : Program), body ≠ [] → (∀ x ∈ body.names, '\n' ∉ x.toList) →
      Program.layout [.when c body]
        = "if " ++ c.text ++ " \x7b\n" ++ shifted body.layout ++ "\x7d\n") ∧
    (∀ (p : Program) (s : Stmt) (d : Nat), (∀ x ∈ p.names, '\n' ∉ x.toList) → s.Within d p →
      ∃ before rest behind, p.layout = before ++ shifted^[d] (Program.layout [s]) ++ behind ∧
        Ended before ∧
        shifted^[d] (Program.layout [s]) = blanks (4 * d) ++ s.keyword.word ++ " " ++ rest ∧
        ∀ (c : Expr) (body : Program), s = .when c body → body ≠ [] → shifted^[d] (Program.layout [s])
          = blanks (4 * d) ++ "if " ++ c.text ++ " \x7b\n" ++ shifted^[d + 1] body.layout
            ++ blanks (4 * d) ++ "\x7d\n") := by
  refine ⟨fun p q => ?_, fun c body hne hbody => ?_, fun p s d hp hs => ?_⟩
  · rw [Program.layout, Program.layoutLines_append, unlines_append]
    rfl
  · rw [Program.layout, Program.layoutLines_singleton, Stmt.unlines_layoutLines_when 0 c hne,
      Program.unlines_layoutLines hbody]
    simp [indentation]
  · have hnames : ∀ x ∈ s.names, '\n' ∉ x.toList := fun x hx => hp x (hs.names_subset hx)
    have hlines (level : Nat) : shifted^[level] (Program.layout [s]) = unlines (s.layoutLines level) := by
      rw [← Program.layoutLines_singleton, Program.unlines_layoutLines]
      rwa [Program.names, Program.names, List.append_nil]
    obtain ⟨above, below, hp'⟩ := hs.exists_layoutLines 0
    obtain ⟨rest, hrest⟩ := s.exists_unlines_layoutLines d
    refine ⟨unlines above, rest, unlines below, ?_, ended_unlines above, ?_, ?_⟩
    · rw [Program.layout, hp', unlines_append, unlines_append, hlines, Nat.zero_add]
    · rw [hlines, hrest, indentation_eq_blanks]
    · rintro c body rfl hne
      rw [hlines, Stmt.unlines_layoutLines_when d c hne, indentation_eq_blanks,
        Program.unlines_layoutLines (List.forall_mem_append.mp hnames).2]

/-- A conditional in a conditional, and a statement behind it that is moved in less again. -/
theorem layout_compositional_nested :
    let inner : Program :=
      [.when (.binary .is (.identifier "a") (.literal 1)) [.debug "b"], .debug "c"]
    inner ≠ [] ∧ (∀ x ∈ inner.names, '\n' ∉ x.toList) ∧
    Program.layout [.when (.identifier "d") inner]
      = "if d \x7b\n    if a is 1 \x7b\n        de b;\n    \x7d\n    de c;\n\x7d\n" ∧
    Stmt.Within (.debug "b") 1 inner ∧
    ∃ before behind, inner.layout = before ++ "    de b;\n" ++ behind ∧ Ended before := by
  intro inner
  have hne : inner ≠ [] := List.cons_ne_nil _ _
  have hnames : ∀ x ∈ inner.names, '\n' ∉ x.toList := by decide
  have hwithin : Stmt.Within (.debug "b") 1 inner :=
    .inside List.mem_cons_self (.here List.mem_cons_self)
  obtain ⟨-, hwhen, hplace⟩ := layout_compositional
  obtain ⟨before, -, behind, hlayout, hbefore, -⟩ := hplace inner (.debug "b") 1 hnames hwithin
  refine ⟨hne, hnames, ?_, hwithin, before, behind, hlayout, hbefore⟩
  rw [hwhen (.identifier "d") inner hne hnames]
  decide

end FlatScript
