import FlatScript.Program.Layout
import FlatScript.Proofs.Names
import FlatScript.Proofs.Spelling

/-!
# The tokens of a layout

The layout of a program is put together from pieces of text, and scanned piece by piece.  It never
lets an open piece meet a word, so all of it is closed, and its tokens can be told from the program
alone: `Program.shapes` lists their kinds and texts.  That is so for programs that no source can
spell as well, as long as their words are scanned as what they stand for.
-/

namespace FlatScript

open Grammar

/-! ## Shapes -/

/-- The tokens of an integer; a minus sign is a token of its own. -/
def Integer.shapes (n : Int64) : List Shape :=
  match n.toInt with
  | .ofNat m => [(.number, toString m)]
  | .negSucc m => [sign "-", (.number, toString (m + 1))]

/-- The tokens of an expression. -/
def Expr.shapes : Expr → List Shape
  | .literal n => Integer.shapes n
  | .identifier x => [(.identifier, x)]
  | .binary op left right => left.shapes ++ sign op.symbol :: right.shapes

mutual

/-- The tokens of a statement. -/
def Stmt.shapes : Stmt → List Shape
  | .declare x value =>
    word .declare :: (.identifier, x) :: sign "=" :: (value.shapes ++ [mark ';'])
  | .debug x => [word .debug, (.identifier, x), mark ';']
  | .when condition body =>
    word .when :: (condition.shapes ++ mark '\x7b' :: (Program.shapes body ++ [mark '\x7d']))

/-- The tokens of statements. -/
def Program.shapes : Program → List Shape
  | [] => []
  | stmt :: rest => Stmt.shapes stmt ++ Program.shapes rest

end

/-- The keyword that a statement begins with. -/
def Stmt.keyword : Stmt → Keyword
  | .declare .. => .declare
  | .debug _ => .debug
  | .when .. => .when

theorem Stmt.exists_shapes (s : Stmt) : ∃ us, s.shapes = word s.keyword :: us := by
  cases s <;> exact ⟨_, rfl⟩

/-- The keywords of a statement are reserved, and its names are scanned as identifiers. -/
inductive Worded (K : Reserved) : Stmt → Prop
  | declare {x : String} {e : Expr} : K.isReserved Keyword.declare.word = true → IsName K x →
      (∀ y ∈ e.names, IsName K y) → Worded K (.declare x e)
  | debug {x : String} : K.isReserved Keyword.debug.word = true → IsName K x →
      Worded K (.debug x)
  | when {e : Expr} {body : List Stmt} : K.isReserved Keyword.when.word = true →
      (∀ y ∈ e.names, IsName K y) → (∀ s ∈ body, Worded K s) → Worded K (.when e body)

/-! ## Expressions -/

section Expressions

variable {K : Reserved}

theorem open_integer (n : Int64) : Open K (Integer.text n) (Integer.shapes n) := by
  rw [Integer.text, Integer.shapes]
  cases n.toInt with
  | ofNat m => exact open_number (isDigitRun_toString m)
  | negSucc m => exact (closed_sign '-' rfl).open (open_number (isDigitRun_toString (m + 1)))

theorem closed_operator (op : Operator) : Closed K (" " ++ op.symbol ++ " ") [sign op.symbol] := by
  have hmark (c : Char) (hc : isOperatorMark c = true) :
      Closed K (" " ++ String.singleton c ++ " ") [sign (String.singleton c)] :=
    (closed_space.append (closed_sign c hc)).append closed_space
  cases op with
  | add => exact hmark '+' rfl
  | sub => exact hmark '-' rfl
  | mul => exact hmark '*' rfl
  | div => exact hmark '/' rfl
  | is => exact (closed_space.open open_is).append closed_space ' ' [] rfl rfl

/-- No parentheses are written, so the tokens of the parts stand side by side. -/
theorem open_expr {e : Expr} (h : ∀ x ∈ e.names, IsName K x) : Open K e.text e.shapes := by
  induction e with
  | literal n => exact open_integer n
  | identifier x => exact open_name (h x (List.mem_singleton_self x))
  | binary op l r hl hr =>
      obtain ⟨hleft, hright⟩ := List.forall_mem_append.mp h
      have hop := (hl hleft).append (closed_operator op) ' ' (op.symbol ++ " ").toList
        (by simp) rfl
      have h := hop.open (hr hright)
      rw [Expr.text, Expr.shapes]
      simpa [String.append_assoc] using h

end Expressions

/-! ## Lines -/

namespace Text

theorem unlines_nil : unlines [] = "" :=
  String.join_nil

theorem unlines_cons (line : String) (lines : List String) :
    unlines (line :: lines) = line ++ "\n" ++ unlines lines := by
  rw [unlines, List.map_cons, String.join_cons]
  rfl

theorem unlines_append (lines lines' : List String) :
    unlines (lines ++ lines') = unlines lines ++ unlines lines' := by
  rw [unlines, List.map_append, String.join_append]
  rfl

end Text

section Lines

variable {K : Reserved} {us vs : List Shape}

theorem Closed.line {line : String} (h : Closed K line us) : Closed K (Text.unlines [line]) us := by
  have hline := h.append closed_newline
  rw [Text.unlines_cons, Text.unlines_nil]
  simpa using hline

/-- The beginning of every statement. -/
theorem closed_keyword (level : Nat) {k : Keyword} (h : K.isReserved k.word = true) :
    Closed K (Text.indentation level ++ k.word ++ " ") [word k] := by
  have h := ((closed_indentation level).open (open_keyword h)).append closed_space ' ' [] rfl rfl
  simpa using h

theorem closed_equals : Closed K " = " [sign "="] := by
  have htext : " " ++ String.singleton '=' ++ " " = " = " := by decide
  have h := (closed_space.append (closed_sign '=' rfl)).append (@closed_space K)
  rw [htext] at h
  exact h

/-- A declaration, without the end of its line. -/
theorem closed_declaration (level : Nat) {x : String} {e : Expr}
    (hk : K.isReserved Keyword.declare.word = true) (hx : IsName K x)
    (he : ∀ y ∈ e.names, IsName K y) :
    Closed K (Text.indentation level ++ Keyword.declare.word ++ " " ++ x ++ " = " ++ e.text ++ ";")
      (Stmt.shapes (.declare x e)) := by
  have hname := ((closed_keyword level hk).open (open_name hx)).append closed_equals
    ' ' ['=', ' '] rfl rfl
  have h := (hname.open (open_expr he)).append (closed_mark ';' rfl) ';' [] rfl rfl
  rw [Stmt.shapes]
  simpa using h

theorem closed_declare (level : Nat) {x : String} {e : Expr}
    (hk : K.isReserved Keyword.declare.word = true) (hx : IsName K x)
    (he : ∀ y ∈ e.names, IsName K y) :
    Closed K (Text.unlines (Stmt.layoutLines level (.declare x e))) (Stmt.shapes (.declare x e)) := by
  rw [Stmt.layoutLines]
  exact (closed_declaration level hk hx he).line

theorem closed_debug (level : Nat) {x : String} (hk : K.isReserved Keyword.debug.word = true)
    (hx : IsName K x) :
    Closed K (Text.unlines (Stmt.layoutLines level (.debug x))) (Stmt.shapes (.debug x)) := by
  have h := ((closed_keyword level hk).open (open_name hx)).append (closed_mark ';' rfl)
    ';' [] rfl rfl
  rw [Stmt.layoutLines, Stmt.shapes]
  refine Closed.line ?_
  simpa using h

theorem closed_braces : Closed K " \x7b\x7d" [mark '\x7b', mark '\x7d'] := by
  have htext : " " ++ String.singleton '\x7b' ++ String.singleton '\x7d' = " \x7b\x7d" := by decide
  have h := (closed_space.append (closed_mark '\x7b' rfl)).append (@closed_mark K '\x7d' rfl)
  rw [htext] at h
  exact h

theorem closed_brace : Closed K " \x7b" [mark '\x7b'] := by
  have htext : " " ++ String.singleton '\x7b' = " \x7b" := by decide
  have h := closed_space.append (@closed_mark K '\x7b' rfl)
  rw [htext] at h
  exact h

/-- An empty body is written on the line of its condition, any other on lines of its own. -/
theorem closed_when (level : Nat) {e : Expr} {body : List Stmt}
    (hk : K.isReserved Keyword.when.word = true) (he : ∀ y ∈ e.names, IsName K y)
    (hlines : Closed K (Text.unlines (Program.layoutLines (level + 1) body))
      (Program.shapes body)) :
    Closed K (Text.unlines (Stmt.layoutLines level (.when e body)))
      (Stmt.shapes (.when e body)) := by
  have hhead := (closed_keyword level hk).open (open_expr he)
  cases body with
  | nil =>
      have h := hhead.append closed_braces ' ' ['\x7b', '\x7d'] rfl rfl
      rw [Stmt.layoutLines, Stmt.shapes, Program.shapes]
      refine Closed.line ?_
      simpa using h
  | cons s ss =>
      have hfirst := (hhead.append closed_brace ' ' ['\x7b'] rfl rfl).line
      have hlast := (@closed_indentation K level).append (closed_mark '\x7d' rfl)
      rw [Program.layoutLines] at hlines
      have h := (hfirst.append hlines).append hlast.line
      rw [Stmt.layoutLines, Stmt.shapes, ← List.singleton_append, Text.unlines_append,
        Text.unlines_append, ← String.append_assoc]
      simpa using h

theorem closed_statements {ss : List Stmt} (level : Nat)
    (hss : ∀ s ∈ ss, Closed K (Text.unlines (Stmt.layoutLines level s)) s.shapes) :
    Closed K (Text.unlines (Program.layoutLines level ss)) (Program.shapes ss) := by
  induction ss with
  | nil =>
      rw [Program.layoutLines, Program.shapes, Text.unlines_nil]
      exact closed_empty
  | cons s ss ih =>
      obtain ⟨hs, hss⟩ := List.forall_mem_cons.mp hss
      rw [Program.layoutLines, Program.shapes, Text.unlines_append]
      exact hs.append (ih hss)

/-- The lines of a statement are scanned as its tokens, at any level. -/
theorem Worded.closed {s : Stmt} (h : Worded K s) : ∀ level,
    Closed K (Text.unlines (Stmt.layoutLines level s)) s.shapes := by
  induction h with
  | declare hk hx he => exact fun level => closed_declare level hk hx he
  | debug hk hx => exact fun level => closed_debug level hk hx
  | when hk he _ ih =>
      intro level
      refine closed_when level hk he (closed_statements (level + 1) ?_)
      intro s hs
      exact ih s hs (level + 1)

end Lines

/-! ## Programs -/

/-- The layout of a program is scanned as its tokens. -/
theorem Program.closed_layout {K : Reserved} {p : Program} (h : ∀ s ∈ p, Worded K s) :
    Closed K p.layout p.shapes :=
  closed_statements 0 fun s hs => (h s hs).closed 0

end FlatScript
