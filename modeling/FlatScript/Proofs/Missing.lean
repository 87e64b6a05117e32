import FlatScript.Proofs.Feeding
import FlatScript.Proofs.Framing
import FlatScript.Proofs.Location
import FlatScript.Proofs.RoundTrip
import FlatScript.Proofs.Typing

/-!
# Declaring a name that is missing

A script that fails for a name which is not bound is offered a statement that declares it, to be put
in front of the script.  The offer is of use for three reasons.

* The name stands in the script as an identifier (`Statements.mem_identifiers`), so it is one in the
  offered statement too, which is read as a declaration as long as its places fit into spans
  (`program_declarationFor`).
* The offered statement ends in a punctuation mark, so the script behind it is read as before.
* No name goes out of scope, so whatever the longer run does now, it cannot fail for this name
  (`exec_ne_unbound`).

Main statement, `run_declarationFor`.  The offer is eight bytes longer than the name, and there is a
script whose name is too long for it (`run_declarationFor_too_long`).
-/

namespace FlatScript

open Grammar

/-! ## Names among the tokens -/

namespace Grammar

theorem Operand.mem_identifiers {us : List Shape} {e : Expr} (h : Operand us e) :
    ∀ x ∈ e.names, (.identifier, x) ∈ us := by
  cases h with
  | number _ => nofun
  | name y =>
      intro x hx
      cases List.mem_singleton.mp hx
      exact List.mem_singleton_self _

theorem Expression.mem_identifiers {us : List Shape} {e : Expr} (h : Expression us e) :
    ∀ x ∈ e.names, (.identifier, x) ∈ us := by
  cases h with
  | operand h => exact h.mem_identifiers
  | binary hl hop hr =>
      intro x hx
      rcases List.mem_append.mp hx with hx | hx
      · exact List.mem_append_left _ (hl.mem_identifiers x hx)
      · exact List.mem_append_right _ (List.mem_cons_of_mem _ (hr.mem_identifiers x hx))

mutual

theorem Statement.mem_identifiers : ∀ {us : List Shape} {s : Option Stmt}, Statement us s →
    ∀ x ∈ Program.names s.toList, (.identifier, x) ∈ us
  | _, _, .empty => nofun
  | _, _, .declare he => by
      intro x hx
      simp only [Option.toList, Program.names, Stmt.names, List.append_nil, List.mem_cons] at hx
      rcases hx with rfl | hx
      · simp
      · simp [he.mem_identifiers x hx]
  | _, _, .debug y => by
      intro x hx
      simp only [Option.toList, Program.names, Stmt.names, List.append_nil,
        List.mem_singleton] at hx
      simp [hx]
  | _, _, .when hl hr hss => by
      intro x hx
      simp only [Option.toList, Program.names, Stmt.names, Expr.names, List.append_nil,
        List.mem_append] at hx
      rcases hx with (hx | hx) | hx
      · simp [hl.mem_identifiers x hx]
      · simp [hr.mem_identifiers x hx]
      · simp [hss.mem_identifiers x hx]

/-- The names of a program stand among its tokens as identifiers. -/
theorem Statements.mem_identifiers : ∀ {us : List Shape} {ss : List Stmt}, Statements us ss →
    ∀ x ∈ Program.names ss, (.identifier, x) ∈ us
  | _, _, .nil => nofun
  | _, _, .cons hs hss => by
      intro x hx
      rw [Program.names_append] at hx
      rcases List.mem_append.mp hx with hx | hx
      · exact List.mem_append_left _ (hs.mem_identifiers x hx)
      · exact List.mem_append_right _ (hss.mem_identifiers x hx)

end

end Grammar

namespace Script

variable {K : Reserved} {source x : String} {p : Program}

/-- Each name of a program stands in its source as an identifier. -/
theorem name_of_program (h : program K source = .ok p) (hx : x ∈ p.names) :
    IsName K x ∧ x.utf8ByteSize ≤ source.utf8ByteSize := by
  obtain ⟨ts, hts, hp⟩ := program_eq_ok_iff.mp h
  have hmem : (.identifier, x) ∈ ts.map Token.shape :=
    (Program.derives_of_ofTokens hp).mem_identifiers x hx
  refine ⟨isName_of_scannable (scannable_of_scan hts _ hmem), ?_⟩
  obtain ⟨t, ht, hshape⟩ := List.mem_map.mp hmem
  obtain ⟨-, rfl⟩ := Prod.mk.inj hshape
  obtain ⟨behind, before, hsource, -⟩ := Token.covers_of_scan hts t ht
  rw [Text.utf8ByteSize_eq source, hsource, Text.byteLength_append, Text.byteLength_append,
    Text.utf8ByteSize_eq]
  omega

/-! ## Sources -/

/-- Tokens end where a span can tell; only blanks may stand further on. -/
theorem size_of_scan {ts : List Token} (hts : Token.scan K source = .ok ts) :
    Text.byteLength (withoutBlanks source.toList) ≤ maxOffset := by
  obtain ⟨hnil, hlast⟩ := Token.blank_of_scan hts
  rcases List.eq_nil_or_concat ts with rfl | ⟨us, t, rfl⟩
  · have hblank := @withoutBlanks_append [] source.toList (hnil rfl)
    rw [List.nil_append] at hblank
    rw [hblank]
    exact Nat.zero_le _
  · obtain ⟨behind, ht, hbehind⟩ := hlast t (by simp)
    obtain ⟨cls, hfits, -⟩ := LexemeClass.exists_fits_of_scannable
      (scannable_of_scan hts _ (List.mem_map_of_mem (by simp : t ∈ us.concat t)))
    rw [ht.byteLength_withoutBlanks hfits.ne_nil hfits.not_isBlank hbehind]
    exact t.span.stop_le

/-- A source in which more than blanks stands where no span can tell is not scanned. -/
theorem exists_lexError_of_size (h : maxOffset < Text.byteLength (withoutBlanks source.toList)) :
    ∃ e, program K source = .error (.lex e) := by
  cases hts : Token.scan K source with
  | ok ts => exact absurd (size_of_scan hts) (Nat.not_le_of_lt h)
  | error e => exact ⟨e, program_eq_error_iff.mpr (.inl ⟨e, hts, rfl⟩)⟩

/-- Of a script that fails in its run, there is a program that fails. -/
theorem exec_of_run_error {s : Session} {e : EvalError}
    (h : (run K s source).1 = .error (.eval e)) :
    ∃ p s', program K source = .ok p ∧ Program.exec s p = (.error e, s') := by
  cases hp : program K source with
  | error problem =>
      rw [run_of_program_error hp] at h
      cases h
      rcases program_eq_error_iff.mp hp with ⟨_, -, h⟩ | ⟨_, _, -, -, h⟩
      · cases h
      · cases h
  | ok p =>
      obtain ⟨e', he, heq⟩ := (run_eq_error_iff hp).mp (Prod.ext h rfl)
      cases heq
      exact ⟨p, _, rfl, he⟩

end Script

/-! ## The statement that is offered -/

namespace Problem

variable {K : Reserved} {x : String}

theorem utf8ByteSize_declarationFor (x : String) :
    (declarationFor x).utf8ByteSize = x.utf8ByteSize + 8 := by
  have htext : declarationFor x = "ye " ++ x ++ " = 0;" := rfl
  have hleft : "ye ".utf8ByteSize = 3 := rfl
  have hright : " = 0;".utf8ByteSize = 5 := rfl
  rw [htext, String.utf8ByteSize_append, String.utf8ByteSize_append, hleft, hright]
  omega

theorem withoutBlanks_declarationFor (x : String) :
    withoutBlanks (declarationFor x).toList = (declarationFor x).toList := by
  have htext : (declarationFor x).toList = "ye ".toList ++ x.toList ++ " = 0".toList ++ [';'] := by
    show ("ye " ++ x ++ " = 0;").toList = _
    simp
  rw [htext]
  exact List.rdropWhile_concat_neg _ _ _ (by decide)

/-- The statement is laid out as all declarations are. -/
theorem closed_declarationFor (hk : K.isReserved Keyword.declare.word = true) (hx : IsName K x) :
    Closed K (declarationFor x) (Program.shapes [.declare x (.literal 0)]) := by
  have hleft : Text.indentation 0 ++ Keyword.declare.word ++ " " = "ye " := by decide
  have hright : " = " ++ ((Expr.literal 0).text ++ ";") = " = 0;" := by decide
  have h := closed_declaration 0 hk hx (e := .literal 0) nofun
  rw [hleft, String.append_assoc, String.append_assoc, hright] at h
  rw [Program.shapes, Program.shapes, List.append_nil]
  exact h

/-- The statement offered for a name is its declaration, if its places fit into spans. -/
theorem program_declarationFor (hk : K.isReserved Keyword.declare.word = true) (hx : IsName K x)
    (hsize : (declarationFor x).utf8ByteSize ≤ maxOffset) :
    Script.program K (declarationFor x) = .ok [.declare x (.literal 0)] := by
  have hliteral : CanonicalOperand K (.literal 0) := .literal (by decide)
  have hstmt : CanonicalStmt K (.declare x (.literal 0)) := .declare hk hx (.operand hliteral)
  exact Script.program_of_closed (closed_declarationFor hk hx)
    (List.forall_mem_singleton.mpr hstmt) hsize

/-- If they do not, it is not even scanned. -/
theorem program_declarationFor_of_lt (hsize : maxOffset < (declarationFor x).utf8ByteSize) :
    ∃ e, Script.program K (declarationFor x) = .error (.lex e) := by
  refine Script.exists_lexError_of_size ?_
  rwa [withoutBlanks_declarationFor, ← Text.utf8ByteSize_eq]

end Problem

/-! ## Runs -/

namespace Moment

variable {m n : Moment} {ds : List Deed} {x : String}

/-- What is left to do mentions no new names. -/
theorem Leads.todo_names_subset (h : Leads m ds n) : n.todo.names ⊆ m.todo.names := by
  -- a run is a simulation of itself, for all the names of its program
  obtain ⟨-, -, -, hn⟩ := (Environment.AgreeOn.simulation m.todo.names).leads h
    (t := m.session) (fun _ _ => rfl) (List.Subset.refl _)
  exact hn

theorem Fails.unbound (h : m.Fails (.unboundIdentifier x)) : x ∈ m.todo.names ∧ x ∉ m.names := by
  cases h with
  | declare he =>
      obtain ⟨hx, hnot⟩ := Expr.unbound_of_eval he
      exact ⟨List.mem_append_left _ (List.mem_cons_of_mem _ hx), hnot⟩
  | condition hc =>
      obtain ⟨hx, hnot⟩ := Expr.unbound_of_eval hc
      exact ⟨List.mem_append_left _ (List.mem_append_left _ hx), hnot⟩

end Moment

namespace Program

variable {p : Program} {s s' : Session} {x : String}

/-- A name that a run fails for is mentioned in the program, and is not bound at the start. -/
theorem unbound_of_exec (h : exec s p = (.error (.unboundIdentifier x), s')) :
    x ∈ p.names ∧ x ∉ s.env.names := by
  obtain ⟨ds, m, hds, -, hfails⟩ := fails_of_exec h
  obtain ⟨hx, hnot⟩ := hfails.unbound
  exact ⟨hds.todo_names_subset hx, fun hbound => hnot (hds.names_subset hbound)⟩

/-- Behind the declaration of a name no run fails for the name. -/
theorem exec_ne_unbound (x : String) (n : Int64) (p : Program) (s : Session) :
    (exec s (.declare x (.literal n) :: p)).1 ≠ .error (.unboundIdentifier x) := by
  intro h
  have h := Program.exec_cons_eq_error_iff.mp (Prod.ext h rfl :
    exec s (.declare x (.literal n) :: p) = (.error (.unboundIdentifier x), _))
  rcases h with hdeclare | ⟨o, t, hdeclare, hrest⟩
  · cases hdeclare
  · obtain ⟨v, -, -, rfl⟩ := Stmt.exec_declare_eq_ok_iff.mp hdeclare
    exact (unbound_of_exec hrest).2 (Environment.mem_names_define.mpr (.inl rfl))

end Program

/-! ## Names that are too long -/

/-- A row of one letter is a name, whatever is reserved. -/
theorem isName_row {K : Reserved} {n : Nat} (hn : 0 < n) :
    IsName K (String.ofList (List.replicate n 'n')) := by
  obtain ⟨k, rfl⟩ := Nat.exists_eq_add_one.mpr hn
  have htext : (String.ofList (List.replicate (k + 1) 'n')).toList = 'n' :: List.replicate k 'n' :=
    String.toList_ofList
  have hne : ∀ s : String, s.toList.head? ≠ some 'n' →
      s ≠ String.ofList (List.replicate (k + 1) 'n') := by
    rintro s hs rfl
    rw [htext] at hs
    exact hs rfl
  refine ⟨⟨'n', _, htext, rfl, ?_⟩, (hne "is" (by decide)).symm, ?_⟩
  · intro c hc
    rw [List.eq_of_mem_replicate hc]
    rfl
  · rw [Reserved.isReserved_eq_false_iff]
    rintro ⟨keyword, -, hword⟩
    refine hne keyword.word ?_ hword
    cases keyword with
    | declare => decide
    | debug => decide
    | when => decide

theorem utf8ByteSize_row (n : Nat) :
    (String.ofList (List.replicate n 'n')).utf8ByteSize = n := by
  have hascii : ∀ c ∈ List.replicate n 'n', c.toNat < 128 := by
    intro c hc
    rw [List.eq_of_mem_replicate hc]
    decide
  rw [Text.utf8ByteSize_eq, String.toList_ofList, Text.byteLength_ascii hascii,
    List.length_replicate]

namespace Script

variable {x : String}

theorem utf8ByteSize_copy (x : String) :
    ("ye a=" ++ x ++ ";").utf8ByteSize = x.utf8ByteSize + 6 := by
  have hleft : "ye a=".utf8ByteSize = 5 := rfl
  have hright : ";".utf8ByteSize = 1 := rfl
  rw [String.utf8ByteSize_append, String.utf8ByteSize_append, hleft, hright]
  omega

/-- A declaration that copies a name. -/
theorem program_copy (hx : IsName .standard x) (hsize : x.utf8ByteSize + 6 ≤ maxOffset) :
    program .standard ("ye a=" ++ x ++ ";") = .ok [.declare "a" (.identifier x)] := by
  have hname : IsName .standard "a" := by decide
  have hkeyword := @closed_keyword .standard 0 .declare (by decide)
  have hhead := (hkeyword.open (open_name hname)).append (closed_sign '=' rfl) '=' [] rfl rfl
  have hleft : Text.indentation 0 ++ Keyword.declare.word ++ " " ++ "a" ++ String.singleton '='
      = "ye a=" := by decide
  rw [hleft] at hhead
  have hclosed := (hhead.open (open_name hx)).append (closed_mark ';' rfl) ';' [] rfl rfl
  have hstmt : CanonicalStmt .standard (.declare "a" (.identifier x)) :=
    .declare (by decide) hname (.operand (.name hx))
  exact program_of_closed hclosed (List.forall_mem_singleton.mpr hstmt)
    ((utf8ByteSize_copy x).trans_le hsize)

/-- A source can hold a name that is too long for the statement that is offered. -/
theorem run_copy_of_long (hx : IsName .standard x) (hsize : x.utf8ByteSize + 6 ≤ maxOffset)
    (hlong : maxOffset < x.utf8ByteSize + 8) :
    (run .standard (.start .fresh) ("ye a=" ++ x ++ ";")).1
        = .error (.eval (.unboundIdentifier x)) ∧
      ∃ e, program .standard ("ye " ++ x ++ " = 0;") = .error (.lex e) := by
  constructor
  · have hexec : Program.exec (.start .fresh) [.declare "a" (.identifier x)]
        = (.error (.unboundIdentifier x), .start .fresh) :=
      Program.exec_cons_eq_error_iff.mpr (.inl (Stmt.exec_declare_eq_error_iff.mpr ⟨rfl, rfl⟩))
    exact congrArg Prod.fst
      ((run_eq_error_iff (program_copy hx hsize)).mpr ⟨_, hexec, rfl⟩)
  · refine Problem.program_declarationFor_of_lt ?_
    rw [Problem.utf8ByteSize_declarationFor]
    exact hlong

end Script

/-! ## Scripts -/

namespace Script

variable {source x : String} {s : Session}

/-- A script that fails for a name is offered the declaration of the name.  The offer is a program,
unless the name is so long that its places do not fit into spans, which takes a script within eight
bytes of their limit; then it is not even scanned.  In front of the script, it leaves the statements
of the script as they were, and the run may still fail, but not for this name. -/
theorem run_declarationFor
    (h : (run .standard s source).1 = .error (.eval (.unboundIdentifier x))) :
    ∃ offer, offer = "ye " ++ x ++ " = 0;" ∧
      (Problem.eval (.unboundIdentifier x)).diagnostic.suggestions
        = ["declare it first: `" ++ offer ++ "`"] ∧
      (offer.utf8ByteSize ≤ maxOffset → program .standard offer = .ok [.declare x (.literal 0)]) ∧
      (maxOffset < offer.utf8ByteSize → ∃ e, program .standard offer = .error (.lex e)) ∧
      offer.utf8ByteSize ≤ source.utf8ByteSize + 8 ∧
      ((offer ++ source).utf8ByteSize ≤ maxOffset →
        ∃ p, program .standard source = .ok p ∧
          program .standard (offer ++ source) = .ok (.declare x (.literal 0) :: p) ∧
          ∀ problem, (run .standard s (offer ++ source)).1 = .error problem →
            ∃ e, problem = .eval e ∧ e ≠ .unboundIdentifier x) := by
  obtain ⟨p, s', hp, hexec⟩ := exec_of_run_error h
  obtain ⟨hname, hlength⟩ := name_of_program hp (Program.unbound_of_exec hexec).1
  have hoffer := @Problem.program_declarationFor .standard x (by decide) hname
  refine ⟨Problem.declarationFor x, rfl, rfl, hoffer, Problem.program_declarationFor_of_lt, ?_, ?_⟩
  · rw [Problem.utf8ByteSize_declarationFor]
    exact Nat.add_le_add_right hlength 8
  · intro hsize
    rw [String.utf8ByteSize_append] at hsize
    have hboth : program .standard (Problem.declarationFor x ++ source)
        = .ok (.declare x (.literal 0) :: p) :=
      program_append_of_ok hsize (hoffer (Nat.le_of_add_right_le hsize)) hp
    refine ⟨p, hp, hboth, ?_⟩
    intro problem hproblem
    obtain ⟨e, he, rfl⟩ := (run_eq_error_iff hboth).mp (Prod.ext hproblem rfl)
    refine ⟨e, rfl, ?_⟩
    rintro rfl
    exact Program.exec_ne_unbound x 0 p s (congrArg Prod.fst he)

/-- With `b` declared, the script goes further and fails for another reason. -/
theorem run_declarationFor_division :
    (run .standard (.start .fresh) "ye a = b; ye c = a / b;").1
        = .error (.eval (.unboundIdentifier "b")) ∧
      (Problem.eval (.unboundIdentifier "b")).diagnostic.suggestions
        = ["declare it first: `ye b = 0;`"] ∧
      program .standard "ye b = 0;" = .ok [.declare "b" (.literal 0)] ∧
      (run .standard (.start .fresh) "ye b = 0;ye a = b; ye c = a / b;").1
        = .error (.eval .divisionByZero) ∧
      ∀ e, (run .standard (.start .fresh) "ye b = 0;ye a = b; ye c = a / b;").1
        = .error (.eval e) → e ≠ .unboundIdentifier "b" := by
  have hp : program .standard "ye a = b; ye c = a / b;"
      = .ok [.declare "a" (.identifier "b"),
          .declare "c" (.binary .div (.identifier "a") (.identifier "b"))] := by
    decide +kernel
  have h : (run .standard (.start .fresh) "ye a = b; ye c = a / b;").1
      = .error (.eval (.unboundIdentifier "b")) :=
    congrArg Prod.fst ((run_eq_error_iff hp).mpr ⟨_, rfl, rfl⟩)
  obtain ⟨offer, rfl, hsuggestions, hoffer, -, -, hrun⟩ := run_declarationFor h
  obtain ⟨p, hp', hboth, hsafe⟩ := hrun (by decide)
  cases hp.symm.trans hp'
  have hdivision : (run .standard (.start .fresh) "ye b = 0;ye a = b; ye c = a / b;").1
      = .error (.eval .divisionByZero) :=
    congrArg Prod.fst ((run_eq_error_iff hboth).mpr ⟨_, rfl, rfl⟩)
  refine ⟨h, hsuggestions, hoffer (by decide), hdivision, ?_⟩
  intro e he
  obtain ⟨_, heq, hne⟩ := hsafe _ he
  cases heq
  exact hne

/-- With a name of all but eight of the bytes that spans can tell, the script is within bounds and
fails for the name, and what is offered is not even scanned. -/
theorem run_declarationFor_too_long :
    let x := String.ofList (List.replicate 4294967288 'n')
    ("ye a=" ++ x ++ ";").utf8ByteSize ≤ maxOffset ∧
      (run .standard (.start .fresh) ("ye a=" ++ x ++ ";")).1
        = .error (.eval (.unboundIdentifier x)) ∧
      (Problem.eval (.unboundIdentifier x)).diagnostic.suggestions
        = ["declare it first: `" ++ ("ye " ++ x ++ " = 0;") ++ "`"] ∧
      ∃ e, program .standard ("ye " ++ x ++ " = 0;") = .error (.lex e) := by
  have hlength := utf8ByteSize_row 4294967288
  have hname : IsName .standard (String.ofList (List.replicate 4294967288 'n')) :=
    isName_row (by decide)
  generalize String.ofList (List.replicate 4294967288 'n') = x at hlength hname
  intro y
  have hsize : x.utf8ByteSize + 6 ≤ maxOffset := by
    rw [hlength]
    decide
  have hlong : maxOffset < x.utf8ByteSize + 8 := by
    rw [hlength]
    decide
  obtain ⟨hrun, hoffer⟩ := run_copy_of_long hname hsize hlong
  exact ⟨(utf8ByteSize_copy x).trans_le hsize, hrun, rfl, hoffer⟩

end Script

end FlatScript
