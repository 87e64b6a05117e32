import FlatScript.Program.Size
import FlatScript.Proofs.Canonical
import FlatScript.Proofs.Shapes
import FlatScript.Proofs.Stepping
import Mathlib.Order.MinMax

/-!
# What the outcomes of a run account for

A run leaves three records behind: its outcomes, the bindings and the printed text.  The outcomes
alone determine the other two.  They have the nesting of the program (`Mirrors`), so together with
the program they list its deeds in order (`Program.deeds`); a step changes the session by recording
its deeds (`Step.session_eq`), and so does a run (`Leads.session_eq`).  What is then bound is the
last thing declared, and what is printed is one line for each debug statement that ran.

The printed text can be cut into these lines again if no line ends early.  That depends on the
names, and the names of a source are words.

Main statement, `exec_accounts`.
-/

namespace FlatScript

/-! ## Outcomes with the nesting of a program -/

mutual

/-- The outcome is one that a run of the statement may have, going by its nesting. -/
inductive Stmt.Mirrors : Stmt → Outcome → Prop
  | declare (x : String) (e : Expr) (v : Value) : Stmt.Mirrors (.declare x e) (.value v)
  | debug (x : String) (v : Value) : Stmt.Mirrors (.debug x) (.value v)
  | branch (c : Expr) {body : Program} {os : List Outcome} : Program.Mirrors body os →
      Stmt.Mirrors (.when c body) (.branch os)
  | skipped (c : Expr) (body : Program) : Stmt.Mirrors (.when c body) .skipped

/-- There is one outcome for each statement. -/
inductive Program.Mirrors : Program → List Outcome → Prop
  | nil : Program.Mirrors [] []
  | cons {stmt : Stmt} {o : Outcome} {p : Program} {os : List Outcome} : Stmt.Mirrors stmt o →
      Program.Mirrors p os → Program.Mirrors (stmt :: p) (o :: os)

end

mutual

theorem Stmt.mirrors_of_exec : ∀ {stmt : Stmt} {s s' : Session} {o : Outcome},
    Stmt.exec s stmt = (.ok o, s') → stmt.Mirrors o
  | .declare x e, s, s', o, h => by
      obtain ⟨v, -, rfl, -⟩ := Stmt.exec_declare_eq_ok_iff.mp h
      exact .declare x e v
  | .debug x, s, s', o, h => by
      cases h
      exact .debug x _
  | .when c body, s, s', o, h => by
      obtain ⟨v, -, ⟨-, os, hos, rfl⟩ | ⟨-, rfl, -⟩⟩ := Stmt.exec_when_eq_ok_iff.mp h
      · exact .branch c (Program.mirrors_of_exec hos)
      · exact .skipped c body

theorem Program.mirrors_of_exec : ∀ {p : Program} {s s' : Session} {os : List Outcome},
    Program.exec s p = (.ok os, s') → p.Mirrors os
  | [], s, s', os, h => by
      cases h
      exact .nil
  | stmt :: p, s, s', os, h => by
      obtain ⟨o, t, os', hstmt, hrest, rfl⟩ := Program.exec_cons_eq_ok_iff.mp h
      exact .cons (Stmt.mirrors_of_exec hstmt) (Program.mirrors_of_exec hrest)

end

/-! ## How many outcomes there are -/

mutual

theorem Stmt.Mirrors.size_le : ∀ {stmt : Stmt} {o : Outcome}, stmt.Mirrors o →
    o.count ≤ stmt.count ∧ o.depth ≤ stmt.depth
  | _, _, .declare _ _ _ => ⟨Nat.le_refl 1, Nat.le_refl 1⟩
  | _, _, .debug _ _ => ⟨Nat.le_refl 1, Nat.le_refl 1⟩
  | _, _, .branch _ h => by
      obtain ⟨hcount, hdepth⟩ := h.size_le
      exact ⟨Nat.add_le_add_left hcount 1, Nat.add_le_add_left hdepth 1⟩
  | _, _, .skipped _ _ => ⟨Nat.le_add_right 1 _, Nat.le_add_right 1 _⟩

/-- Outcomes with the nesting of a program are no more than its statements, on no more levels; a
body that is skipped has a single outcome. -/
theorem Program.Mirrors.size_le : ∀ {p : Program} {os : List Outcome}, p.Mirrors os →
    Outcome.countAll os ≤ p.count ∧ Outcome.depthAll os ≤ p.depth
  | _, _, .nil => ⟨Nat.le_refl 0, Nat.le_refl 0⟩
  | _, _, .cons hstmt hrest => by
      obtain ⟨hcount, hdepth⟩ := hstmt.size_le
      obtain ⟨hcount', hdepth'⟩ := hrest.size_le
      exact ⟨Nat.add_le_add hcount hcount', max_le_max hdepth hdepth'⟩

end

/-- A run that succeeds has at most as many outcomes as the program has statements at all levels,
and its outcomes nest no deeper. -/
theorem Program.exec_size_le {p : Program} {s s' : Session} {os : List Outcome}
    (h : exec s p = (.ok os, s')) :
    Outcome.countAll os ≤ p.count ∧ Outcome.depthAll os ≤ p.depth :=
  (mirrors_of_exec h).size_le

/-! ## Deeds -/

mutual

/-- The deeds of a statement with this outcome: none if it was skipped, and those of its body if
that ran. -/
def Stmt.deeds : Stmt → Outcome → List Deed
  | .declare x e, .value v => [(.declare x e, v)]
  | .debug x, .value v => [(.debug x, v)]
  | .when _ body, .branch os => Program.deeds body os
  | _, _ => []

/-- The deeds of a program with these outcomes, in order. -/
def Program.deeds : Program → List Outcome → List Deed
  | stmt :: p, o :: os => Stmt.deeds stmt o ++ Program.deeds p os
  | _, _ => []

end

mutual

theorem Stmt.Mirrors.map_deeds : ∀ {stmt : Stmt} {o : Outcome}, stmt.Mirrors o →
    (stmt.deeds o).map Prod.fst = stmt.trace o ∧ (stmt.deeds o).map Prod.snd = o.leaves
  | _, _, .declare _ _ _ => ⟨rfl, rfl⟩
  | _, _, .debug _ _ => ⟨rfl, rfl⟩
  | _, _, .branch _ h => h.map_deeds
  | _, _, .skipped _ _ => ⟨rfl, rfl⟩

/-- The deeds are the trace, with the leaves of the outcomes. -/
theorem Program.Mirrors.map_deeds : ∀ {p : Program} {os : List Outcome}, p.Mirrors os →
    (p.deeds os).map Prod.fst = p.trace os ∧ (p.deeds os).map Prod.snd = Outcome.leavesAll os
  | _, _, .nil => ⟨rfl, rfl⟩
  | _, _, .cons hstmt hrest => by
      obtain ⟨htrace, hleaves⟩ := hstmt.map_deeds
      obtain ⟨htrace', hleaves'⟩ := hrest.map_deeds
      constructor
      · rw [Program.deeds, List.map_append, htrace, htrace', Program.trace]
      · rw [Program.deeds, List.map_append, hleaves, hleaves', Outcome.leavesAll]

end

namespace Program

variable {p : Program} {s s' : Session} {os : List Outcome}

/-- A run that succeeds leads to its end by the deeds that its outcomes list. -/
theorem leads_deeds (h : exec s p = (.ok os, s')) (rest : Program) :
    Moment.Leads ⟨p ++ rest, s⟩ (p.deeds os) ⟨rest, s'⟩ := by
  obtain ⟨ds, hds, htrace, hleaves⟩ := Moment.leads_of_exec h rest
  obtain ⟨htrace', hleaves'⟩ := (mirrors_of_exec h).map_deeds
  have hdeeds : ds = p.deeds os := by
    rw [List.zip_of_prod htrace hleaves, List.zip_of_prod htrace' hleaves']
  exact hdeeds ▸ hds

end Program

/-! ## What deeds leave behind -/

namespace Deed

/-- The line that a deed prints, if it is a debug statement. -/
def line? : Deed → Option String
  | (.debug x, v) => some (debugLine x v)
  | _ => none

/-- The binding that a deed makes, if it is a declaration. -/
def binding? : Deed → Option Binding
  | (.declare x _, v) => some (x, v)
  | _ => none

/-- The lines that deeds print, in order. -/
def lines (ds : List Deed) : List String := ds.filterMap line?

/-- The bindings that deeds make, in order. -/
def bindings (ds : List Deed) : List Binding := ds.filterMap binding?

end Deed

/-- A session after a deed: what was declared is bound, and what was reported is printed. -/
def Session.record (s : Session) : Deed → Session
  | (.declare x _, v) => s.define x v
  | (.debug x, v) => s.print (debugLine x v)
  | (.when _ _, _) => s

namespace Moment

variable {m n : Moment} {ds : List Deed}

theorem Step.session_eq (h : Step m ds n) : n.session = ds.foldl Session.record m.session := by
  cases h with
  | declare _ => rfl
  | debug => rfl
  | enter _ _ => rfl
  | skip _ _ => rfl

theorem Leads.session_eq (h : Leads m ds n) : n.session = ds.foldl Session.record m.session := by
  induction h with
  | refl m => rfl
  | step hs _ ih => rw [ih, hs.session_eq, List.foldl_append]

end Moment

namespace Session

theorem printer_record (s : Session) (d : Deed) :
    (s.record d).printer = (Deed.lines [d]).foldl (fun printer l => printer.print l) s.printer := by
  obtain ⟨stmt, v⟩ := d
  cases stmt with
  | declare _ _ => rfl
  | debug _ => rfl
  | when _ _ => rfl

/-- Deeds print their lines. -/
theorem printer_foldl_record (ds : List Deed) (s : Session) :
    (ds.foldl record s).printer
      = (Deed.lines ds).foldl (fun printer l => printer.print l) s.printer := by
  induction ds generalizing s with
  | nil => rfl
  | cons d ds ih =>
      rw [List.foldl_cons, ih, printer_record, ← List.foldl_append, Deed.lines, Deed.lines,
        Deed.lines, ← List.filterMap_append]
      rfl

theorem lookup_record (s : Session) (d : Deed) (x : String) :
    (s.record d).env.lookup x = ((Deed.bindings [d]).reverse.lookup x).or (s.env.lookup x) := by
  obtain ⟨stmt, v⟩ := d
  cases stmt with
  | declare y _ =>
      show (s.env.define y v).lookup x = (List.lookup x [(y, v)]).or (s.env.lookup x)
      by_cases hx : x = y
      · subst hx
        rw [Environment.lookup_define_self, List.lookup_cons_self]
        rfl
      · rw [Environment.lookup_define_of_ne _ _ hx, List.lookup_cons, beq_false_of_ne hx]
        rfl
  | debug _ => rfl
  | when _ _ => rfl

/-- After deeds, a name has the value that was bound to it last, if any was. -/
theorem lookup_foldl_record (ds : List Deed) (s : Session) (x : String) :
    (ds.foldl record s).env.lookup x
      = ((Deed.bindings ds).reverse.lookup x).or (s.env.lookup x) := by
  induction ds generalizing s with
  | nil => rfl
  | cons d ds ih =>
      have hbindings : Deed.bindings (d :: ds) = Deed.bindings [d] ++ Deed.bindings ds :=
        List.filterMap_append (l := [d])
      rw [List.foldl_cons, ih, lookup_record, hbindings, List.reverse_append, List.lookup_append,
        Option.or_assoc]

end Session

namespace Printer

/-- Puts a text behind what was captured. -/
def append (text : String) : Printer → Printer
  | capturing captured => .capturing (captured ++ text)
  | silent => .silent

theorem append_empty (p : Printer) : p.append "" = p := by
  cases p with
  | capturing captured => exact congrArg capturing String.append_empty
  | silent => rfl

theorem append_append (p : Printer) (a b : String) : (p.append a).append b = p.append (a ++ b) := by
  cases p with
  | capturing captured => exact congrArg capturing String.append_assoc
  | silent => rfl

theorem print_eq_append (p : Printer) (line : String) : p.print line = p.append (line ++ "\n") := by
  cases p with
  | capturing captured => exact congrArg capturing String.append_assoc
  | silent => rfl

/-- Printed lines are put behind as one text, each with a line feed behind it. -/
theorem foldl_print_eq_append (ls : List String) (p : Printer) :
    ls.foldl (fun printer l => printer.print l) p = p.append (Text.unlines ls) := by
  induction ls generalizing p with
  | nil => rw [Text.unlines_nil, append_empty, List.foldl_nil]
  | cons l ls ih =>
      rw [List.foldl_cons, ih, print_eq_append, append_append, Text.unlines_cons]

end Printer

/-- The deeds on the way print their lines, and nothing else is printed. -/
theorem Moment.Leads.printer_append {m n : Moment} {ds : List Deed} (h : Leads m ds n) :
    n.session.printer = m.session.printer.append (Text.unlines (Deed.lines ds)) := by
  rw [h.session_eq, Session.printer_foldl_record, Printer.foldl_print_eq_append]

/-- What is printed on the way stands behind what was captured before. -/
theorem Moment.Leads.printer_eq {m n : Moment} {ds : List Deed} (h : Leads m ds n) {out : String}
    (hout : m.session.printer = .capturing out) :
    n.session.printer = .capturing (out ++ Text.unlines (Deed.lines ds)) := by
  rw [h.printer_append, hout]
  rfl

/-! ## Lines of a captured text -/

namespace Text

/-- No line ends within the text. -/
def Unbroken (s : String) : Prop := '\n' ∉ s.toList ∧ '\r' ∉ s.toList

instance (s : String) : Decidable (Unbroken s) :=
  inferInstanceAs (Decidable ('\n' ∉ s.toList ∧ '\r' ∉ s.toList))

theorem Unbroken.append {s t : String} (hs : Unbroken s) (ht : Unbroken t) :
    Unbroken (s ++ t) := by
  rw [Unbroken, String.toList_append, List.mem_append, List.mem_append, not_or, not_or]
  exact ⟨⟨hs.1, ht.1⟩, hs.2, ht.2⟩

/-- A text of certain characters is unbroken if line feed and carriage return are none of them. -/
theorem unbroken_of_forall {s : String} {p : Char → Bool} (h : ∀ c ∈ s.toList, p c = true)
    (hfeed : p '\n' = false) (hreturn : p '\r' = false) : Unbroken s := by
  constructor
  · intro hc
    exact absurd (h _ hc) (Bool.eq_false_iff.mp hfeed)
  · intro hc
    exact absurd (h _ hc) (Bool.eq_false_iff.mp hreturn)

/-- An unbroken line ends where its line feed is, and nowhere else. -/
theorem linesOf_line {l : String} (h : Unbroken l) (rest : List Char) :
    linesOf (l.toList ++ '\n' :: rest) = l.toList :: linesOf rest := by
  have hfeed : ∀ c ∈ l.toList, (c != '\n') = true := by
    intro c hc
    rw [bne_iff_ne]
    rintro rfl
    exact h.1 hc
  have htake : (l.toList ++ '\n' :: rest).takeWhile (· != '\n') = l.toList := by
    rw [List.takeWhile_append_of_pos hfeed]
    exact List.append_nil l.toList
  have hdrop : (l.toList ++ '\n' :: rest).dropWhile (· != '\n') = '\n' :: rest :=
    List.dropWhile_append_of_pos hfeed
  have hcut : cutLine (l.toList ++ '\n' :: rest) = (l.toList, some rest) := by
    rw [cutLine, htake, hdrop]
  have hreturn : withoutReturn l.toList = l.toList := by
    refine if_neg fun hlast => ?_
    exact h.2 (List.mem_of_getLast? hlast)
  rw [linesOf]
  split
  · next rest' hrest =>
      show withoutReturn (cutLine (l.toList ++ '\n' :: rest)).1 :: linesOf rest' = _
      rw [hcut] at hrest ⊢
      cases hrest
      rw [hreturn]
  · next hnone =>
      rw [hcut] at hnone
      cases hnone

/-- Unbroken lines are found again in the text that they make. -/
theorem lines_unlines {ls : List String} (h : ∀ l ∈ ls, Unbroken l) : lines (unlines ls) = ls := by
  rw [lines]
  induction ls with
  | nil =>
      rw [unlines_nil, String.toList_empty, linesOf]
      rfl
  | cons l ls ih =>
      obtain ⟨hl, hls⟩ := List.forall_mem_cons.mp h
      have htext : (unlines (l :: ls)).toList = l.toList ++ '\n' :: (unlines ls).toList := by
        rw [unlines_cons, String.toList_append, String.toList_append, List.append_assoc]
        rfl
      rw [htext, linesOf_line hl, List.map_cons, ih hls, String.ofList_toList]

end Text

/-! ## Printed lines are unbroken -/

open Text (Unbroken)

theorem IsWord.unbroken {x : String} (h : IsWord x) : Unbroken x := by
  obtain ⟨c, cs, hx, hc, hcs⟩ := h
  refine @Text.unbroken_of_forall x isWordChar ?_ (by decide) (by decide)
  rw [hx]
  exact List.forall_mem_cons.mpr ⟨isWordChar_iff.mpr (.inl hc), hcs⟩

/-- Whether a character may stand in a numeral. -/
def Integer.isNumeralChar (c : Char) : Bool := c.isDigit || c == '+' || c == '-'

theorem Integer.Numeral.isNumeralChar {cs : List Char} {v : Int} (h : Numeral cs v) :
    ∀ c ∈ cs, Integer.isNumeralChar c = true := by
  have hdigit {c : Char} (hc : c.isDigit = true) : Integer.isNumeralChar c = true := by
    rw [Integer.isNumeralChar, hc]
    rfl
  cases h with
  | plain _ hds => exact fun c hc => hdigit (hds c hc)
  | plus _ hds => exact List.forall_mem_cons.mpr ⟨rfl, fun c hc => hdigit (hds c hc)⟩
  | minus _ hds => exact List.forall_mem_cons.mpr ⟨rfl, fun c hc => hdigit (hds c hc)⟩

theorem Value.unbroken_text (v : Value) : Unbroken v.text := by
  cases v with
  | int n =>
      exact Text.unbroken_of_forall (Integer.numeral_text n).isNumeralChar (by decide) (by decide)
  | bool b => cases b <;> decide
  | absent => decide

theorem unbroken_debugLine {x : String} (hx : IsWord x) (v : Value) :
    Unbroken (debugLine x v) := by
  have hequals : Unbroken " = " := by decide
  exact (hx.unbroken.append hequals).append v.unbroken_text

/-! ## Debug statements of a source -/

theorem Program.flat_eq_flatMap (p : Program) : p.flat = p.flatMap Stmt.flat := by
  induction p with
  | nil => rfl
  | cons stmt p ih => rw [Program.flat, ih, List.flatMap_cons]

theorem CanonicalStmt.isName_of_debug {K : Reserved} {stmt : Stmt} (h : CanonicalStmt K stmt) :
    ∀ x, .debug x ∈ stmt.flat → IsName K x := by
  induction h with
  | declare _ _ _ =>
      intro x hx
      cases List.mem_singleton.mp hx
  | debug _ hname =>
      intro x hx
      cases List.mem_singleton.mp hx
      exact hname
  | @when l r body _ _ _ _ ih =>
      intro x hx
      have hflat : (Stmt.when (.binary .is l r) body).flat = body.flatMap Stmt.flat :=
        Program.flat_eq_flatMap body
      rw [hflat, List.mem_flatMap] at hx
      obtain ⟨stmt, hstmt, hx⟩ := hx
      exact ih stmt hstmt x hx

namespace Program

variable {p : Program} {os : List Outcome}

theorem Mirrors.mem_flat (h : p.Mirrors os) {d : Deed} (hd : d ∈ p.deeds os) : d.1 ∈ p.flat := by
  have htrace : d.1 ∈ p.trace os := h.map_deeds.1 ▸ List.mem_map_of_mem hd
  exact (trace_sublist_flat p os).subset htrace

/-- No line that the program of a source prints holds a line end. -/
theorem Mirrors.unbroken_lines (h : p.Mirrors os) {K : Reserved} (hp : p.Canonical K) :
    ∀ l ∈ Deed.lines (p.deeds os), Unbroken l := by
  intro l hl
  obtain ⟨⟨stmt, v⟩, hd, hline⟩ := List.mem_filterMap.mp hl
  have hflat := h.mem_flat hd
  rw [flat_eq_flatMap, List.mem_flatMap] at hflat
  obtain ⟨t, ht, hstmt⟩ := hflat
  cases stmt with
  | declare _ _ => cases hline
  | debug x =>
      cases hline
      exact unbroken_debugLine ((hp t ht).isName_of_debug x hstmt).1 v
  | when _ _ => cases hline

/-- The outcomes of a run that succeeds have the nesting of the program, and the deeds that they
list account for everything that can be seen of the run.  One line for each debug statement among
them is printed behind what was printed before, and each name is bound to what it was declared as
last, or as before if it was not.  If the program was read from a source, the captured lines are
these lines. -/
theorem exec_accounts {s s' : Session} (h : exec s p = (.ok os, s')) :
    p.Mirrors os ∧
      (∀ out, s.printer = .capturing out →
        s'.printer = .capturing (out ++ Text.unlines (Deed.lines (p.deeds os)))) ∧
      (∀ x, s'.env.lookup x
        = ((Deed.bindings (p.deeds os)).reverse.lookup x).or (s.env.lookup x)) ∧
      (∀ K source, Script.program K source = .ok p → s.printer = .fresh →
        s'.printer.lines = Deed.lines (p.deeds os)) := by
  have hmirrors := mirrors_of_exec h
  have hleads := leads_deeds h []
  have hprinter : ∀ out, s.printer = .capturing out →
      s'.printer = .capturing (out ++ Text.unlines (Deed.lines (p.deeds os))) :=
    fun _ hout => hleads.printer_eq hout
  have hsession : s' = (p.deeds os).foldl Session.record s := hleads.session_eq
  refine ⟨hmirrors, hprinter, ?_, ?_⟩
  · intro x
    rw [hsession, Session.lookup_foldl_record]
  · intro K source hp hfresh
    have hunbroken := hmirrors.unbroken_lines (Script.canonical_of_program hp)
    rw [hprinter "" hfresh, Printer.lines, Printer.output, String.empty_append,
      Text.lines_unlines hunbroken]

/-- `ye a = 1; if a is 1 { ye a = 2; de a; if a is 1 { de b; } } de b;` prints two lines and
leaves `a` bound to what the body declared. -/
theorem exec_accounts_redeclared :
    ∃ s', exec (.start .fresh) [.declare "a" (.literal 1),
        .when (.binary .is (.identifier "a") (.literal 1)) [.declare "a" (.literal 2), .debug "a",
          .when (.binary .is (.identifier "a") (.literal 1)) [.debug "b"]], .debug "b"]
          = (.ok [.value (.int 1), .branch [.value (.int 2), .value (.int 2), .skipped],
              .value .absent], s') ∧
      s'.printer = .capturing "a = 2\nb = Undefined\n" ∧
      s'.env.lookup "a" = some (.int 2) ∧ s'.env.lookup "b" = none ∧
      s'.printer.lines = ["a = 2", "b = Undefined"] := by
  have h : exec (.start .fresh) [.declare "a" (.literal 1),
      .when (.binary .is (.identifier "a") (.literal 1)) [.declare "a" (.literal 2), .debug "a",
        .when (.binary .is (.identifier "a") (.literal 1)) [.debug "b"]], .debug "b"]
        = (.ok [.value (.int 1), .branch [.value (.int 2), .value (.int 2), .skipped],
            .value .absent], _) := rfl
  have hsource : Script.program .standard
      "ye a = 1; if a is 1 \x7b ye a = 2; de a; if a is 1 \x7b de b; \x7d \x7d de b;"
        = .ok [.declare "a" (.literal 1),
          .when (.binary .is (.identifier "a") (.literal 1)) [.declare "a" (.literal 2), .debug "a",
            .when (.binary .is (.identifier "a") (.literal 1)) [.debug "b"]], .debug "b"] := by
    decide +kernel
  obtain ⟨-, hprinter, hlookup, hlines⟩ := exec_accounts h
  exact ⟨_, h, hprinter "" rfl, hlookup "a", hlookup "b", hlines _ _ hsource rfl⟩

end Program

end FlatScript
