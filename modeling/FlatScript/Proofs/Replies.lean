import FlatScript.CommandLine
import FlatScript.Proofs.Accounting
import FlatScript.Proofs.Carets
import FlatScript.Proofs.Typing

/-!
# What a reply can be relied on for

A caller goes by the exit code and by what stands on the two streams, so these have to agree with
each other and with what becomes of the source.  Three things are said here without the way the
reply is made: which arguments are misused (`Misused`), when a task can be done (`Task.Succeeds`),
and what a run that cannot be done has printed by then (`Falters`).  `Task.Promise` puts them
together for the reply to a task.

Main statement, `respond_promise`.
-/

namespace FlatScript.CommandLine

/-! ## Arguments -/

/-- The commands that take no notice of what follows them. -/
def bareWords : List String := ["help", "--help", "-h", "version", "--version", "-V"]

/-- The commands that take one operand. -/
def operandWords : List String := ["run", "check", "lex", "parse", "fmt", "explain"]

/-- The arguments ask for nothing. -/
inductive Misused : List String → Prop
  | noCommand : Misused []
  | unknownCommand {word : String} {operands : List String} : word ∉ bareWords →
      word ∉ operandWords → Misused (word :: operands)
  | operands {word : String} {operands : List String} : word ∈ operandWords →
      operands.length ≠ 1 → Misused (word :: operands)

variable {args operands : List String} {word path : String} {task : Task}

theorem mem_bareWords : word ∈ bareWords ↔ word ∈ helpWords ∨ word ∈ versionWords :=
  List.mem_append (s := helpWords) (t := versionWords)

theorem Task.word_mem_operandWords (task : Task) : task.word ∈ operandWords := by
  cases task <;> decide

theorem eq_of_mem_operandWords (h : word ∈ operandWords) :
    (∃ task : Task, word = task.word) ∨ word = explainWord := by
  have hwords : operandWords = Task.all.map Task.word ++ [explainWord] := rfl
  rw [hwords, List.mem_append, List.mem_map, List.mem_singleton] at h
  rcases h with ⟨task, -, rfl⟩ | rfl
  · exact .inl ⟨task, rfl⟩
  · exact .inr rfl

namespace Command

theorem ofArgs_bare (h : word ∈ bareWords) (operands : List String) :
    ofArgs (word :: operands) = .ok .help ∨ ofArgs (word :: operands) = .ok .version := by
  unfold ofArgs
  dsimp only
  by_cases hhelp : word ∈ helpWords
  · exact .inl (if_pos hhelp)
  · have hversion := (mem_bareWords.mp h).resolve_left hhelp
    rw [if_neg hhelp, if_pos hversion]
    exact .inr rfl

theorem ofArgs_task (task : Task) (operands : List String) :
    ofArgs (task.word :: operands) = match operands with
      | [path] => .ok (.process task path)
      | _ => .error (.taskOperands task) := by
  cases task <;> rfl

theorem ofArgs_explain (operands : List String) :
    ofArgs (explainWord :: operands) = match operands with
      | [code] => .ok (.explain code)
      | _ => .error .explainOperands :=
  rfl

theorem ofArgs_operand (h : word ∈ operandWords) : ∃ (ask : String → Command) (misuse : Misuse),
    ∀ operands, ofArgs (word :: operands) = match operands with
      | [operand] => .ok (ask operand)
      | _ => .error misuse := by
  rcases eq_of_mem_operandWords h with ⟨task, rfl⟩ | rfl
  · exact ⟨_, _, ofArgs_task task⟩
  · exact ⟨_, _, ofArgs_explain⟩

theorem ofArgs_unknown (hbare : word ∉ bareWords) (hoperand : word ∉ operandWords)
    (operands : List String) : ofArgs (word :: operands) = .error (.unknownCommand word) := by
  obtain ⟨hhelp, hversion⟩ := not_or.mp (mem_bareWords.not.mp hbare)
  have hexplain : word ≠ explainWord := by
    rintro rfl
    exact hoperand (by decide)
  have htask : Task.all.find? (·.word == word) = none := by
    rw [List.find?_eq_none]
    intro task _ hword
    exact hoperand (beq_iff_eq.mp hword ▸ task.word_mem_operandWords)
  unfold ofArgs
  dsimp only
  rw [if_neg hhelp, if_neg hversion, if_neg hexplain, htask]

/-- A task is asked for by its word and one path, and in no other way. -/
theorem ofArgs_eq_process_iff :
    ofArgs args = .ok (.process task path) ↔ args = [task.word, path] := by
  constructor
  · intro h
    cases args with
    | nil => cases h
    | cons word operands =>
        by_cases hbare : word ∈ bareWords
        · rcases ofArgs_bare hbare operands with hhelp | hversion
          · cases hhelp.symm.trans h
          · cases hversion.symm.trans h
        by_cases hoperand : word ∈ operandWords
        · rcases eq_of_mem_operandWords hoperand with ⟨task', rfl⟩ | rfl
          · rw [ofArgs_task] at h
            split at h
            · cases h
              rfl
            · cases h
          · rw [ofArgs_explain] at h
            split at h
            · cases h
            · cases h
        · cases (ofArgs_unknown hbare hoperand operands).symm.trans h
  · rintro rfl
    rw [ofArgs_task]

theorem exists_ofArgs_eq_error_iff : (∃ misuse, ofArgs args = .error misuse) ↔ Misused args := by
  constructor
  · rintro ⟨misuse, h⟩
    cases args with
    | nil => exact .noCommand
    | cons word operands =>
        by_cases hbare : word ∈ bareWords
        · rcases ofArgs_bare hbare operands with hhelp | hversion
          · cases hhelp.symm.trans h
          · cases hversion.symm.trans h
        by_cases hoperand : word ∈ operandWords
        · obtain ⟨ask, misuse', hask⟩ := ofArgs_operand hoperand
          refine .operands hoperand fun hlength => ?_
          obtain ⟨operand, rfl⟩ := List.length_eq_one_iff.mp hlength
          cases (hask [operand]).symm.trans h
        · exact .unknownCommand hbare hoperand
  · intro h
    cases h with
    | noCommand => exact ⟨_, rfl⟩
    | unknownCommand hbare hoperand => exact ⟨_, ofArgs_unknown hbare hoperand _⟩
    | operands hoperand hlength =>
        obtain ⟨ask, misuse, hask⟩ := ofArgs_operand hoperand
        rw [hask]
        split
        · exact absurd rfl hlength
        · exact ⟨_, rfl⟩

end Command

/-! ## Sources -/

/-- Bytes are read as a text if they are the bytes of that text. -/
theorem fromUTF8?_eq_some_iff {bytes : ByteArray} {source : String} :
    String.fromUTF8? bytes = some source ↔ bytes = source.toUTF8 := by
  unfold String.fromUTF8?
  constructor
  · intro h
    split at h
    · cases h
      rfl
    · cases h
  · rintro rfl
    exact dif_pos source.isValidUTF8

namespace Inputs

variable {inputs : Inputs} {path source : String}

/-- The bytes at a path. -/
def bytes (inputs : Inputs) (path : String) : Except ReadError ByteArray :=
  if path = stdinPath then .ok inputs.stdin else inputs.file path

/-- The text of bytes. -/
def asText (bytes : ByteArray) : Except ReadError String :=
  match String.fromUTF8? bytes with
  | some source => .ok source
  | none => .error .notText

theorem asText_eq_ok_iff {bytes : ByteArray} :
    asText bytes = .ok source ↔ bytes = source.toUTF8 := by
  rw [asText, ← fromUTF8?_eq_some_iff]
  split
  · next h => rw [h, Except.ok.injEq, Option.some.injEq]
  · next h =>
      rw [h]
      exact iff_of_false nofun nofun

theorem read_eq_bind : inputs.read path = inputs.bytes path >>= asText := by
  unfold read bytes
  split <;> rfl

/-- A text is read at a path if its bytes are there. -/
theorem read_eq_ok_iff : inputs.read path = .ok source ↔ inputs.bytes path = .ok source.toUTF8 := by
  rw [read_eq_bind, bind_eq_ok_iff]
  constructor
  · rintro ⟨bytes, hbytes, htext⟩
    rw [hbytes, asText_eq_ok_iff.mp htext]
  · intro h
    exact ⟨_, h, asText_eq_ok_iff.mpr rfl⟩

end Inputs

/-! ## Tasks -/

/-- A run of the source ends with the problem, and has printed the lines before: none if there is no
program, and otherwise those of the deeds done up to the expression that fails. -/
inductive Falters (source : String) : Problem → List String → Prop
  | unread {problem : Problem} : Script.program .standard source = .error problem →
      Falters source problem []
  | fails {p : Program} {ds : List Deed} {m : Moment} {e : EvalError} :
      Script.program .standard source = .ok p → Moment.Leads ⟨p, .start .fresh⟩ ds m →
      m.Fails e → Falters source (.eval e) (Deed.lines ds)

/-- A run falters with one problem only, and at one point. -/
theorem Falters.unique {source : String} {problem problem' : Problem} {ls ls' : List String}
    (h : Falters source problem ls) (h' : Falters source problem' ls') :
    problem = problem' ∧ ls = ls' := by
  cases h with
  | unread hp =>
      cases h' with
      | unread hp' =>
          cases hp.symm.trans hp'
          exact ⟨rfl, rfl⟩
      | fails hp' _ _ => cases hp.symm.trans hp'
  | fails hp hds hfails =>
      cases h' with
      | unread hp' => cases hp.symm.trans hp'
      | fails hp' hds' hfails' =>
          cases hp.symm.trans hp'
          -- neither moment has a next step, so neither lies behind the other
          obtain ⟨fs, hfs, rfl⟩ := hds.onward hds' fun _ _ => hfails'.not_step
          cases hfs with
          | refl _ =>
              obtain rfl := hfails.unique hfails'
              exact ⟨rfl, by rw [List.append_nil]⟩
          | step hs _ => exact absurd hs hfails.not_step

namespace Task

variable {task : Task} {source : String} {problem : Problem}

/-- A task can be done on a source: there are tokens for `lex`, and a program for the others, which
for `run` succeeds when it is run. -/
def Succeeds (source : String) : Task → Prop
  | run => ∃ p os s, Script.program .standard source = .ok p ∧
      Program.exec (.start .fresh) p = (.ok os, s)
  | lex => ∃ ts, Script.tokens .standard source = .ok ts
  | _ => ∃ p, Script.program .standard source = .ok p

/-- A source without a program is the same problem to every task that needs one. -/
theorem output_of_program_error (hp : Script.program .standard source = .error problem)
    (h : task ≠ lex) (path : String) : task.output path source = ("", some problem) := by
  cases task with
  | run =>
      rw [output, Script.run_of_program_error hp]
      rfl
  | check => rw [output, hp]
  | lex => exact absurd rfl h
  | parse => rw [output, hp]
  | fmt => rw [output, hp]

/-- A task that can be done meets no problem. -/
theorem output_of_succeeds (h : task.Succeeds source) (path : String) :
    (task.output path source).2 = none := by
  cases task with
  | run =>
      obtain ⟨p, os, s, hp, hexec⟩ := h
      rw [output, (Script.run_eq_ok_iff hp).mpr hexec]
  | check | parse | fmt =>
      obtain ⟨p, hp⟩ := h
      rw [output, hp]
  | lex =>
      obtain ⟨ts, hts⟩ := h
      rw [output, hts]

/-- A run that cannot be done falters, and what it has printed is there with the problem. -/
theorem output_of_falters (h : ¬ run.Succeeds source) (path : String) :
    ∃ problem ls, Falters source problem ls ∧
      run.output path source = (Text.unlines ls, some problem) := by
  cases hp : Script.program .standard source with
  | error problem => exact ⟨problem, [], .unread hp, output_of_program_error hp (by decide) path⟩
  | ok p =>
      rcases hexec : Program.exec (.start .fresh) p with ⟨e | os, s⟩
      · obtain ⟨ds, m, hds, rfl, hfails⟩ := Program.fails_of_exec hexec
        refine ⟨.eval e, Deed.lines ds, .fails hp hds hfails, ?_⟩
        rw [output, (Script.run_eq_error_iff hp).mpr ⟨e, hexec, rfl⟩]
        dsimp only
        rw [hds.printer_eq rfl, Printer.output, String.empty_append]
      · exact absurd ⟨p, os, s, hp, hexec⟩ h

/-- A task that cannot be done meets a problem, and if it is not a run it prints nothing else. -/
theorem output_of_not_succeeds (h : ¬ task.Succeeds source) (path : String) :
    ∃ text problem, task.output path source = (text, some problem) ∧ (task ≠ run → text = "") := by
  cases task with
  | run =>
      obtain ⟨problem, ls, -, houtput⟩ := output_of_falters h path
      exact ⟨_, problem, houtput, fun hrun => absurd rfl hrun⟩
  | check | parse | fmt =>
      cases hp : Script.program .standard source with
      | error problem =>
          exact ⟨"", problem, output_of_program_error hp (by decide) path, fun _ => rfl⟩
      | ok p => exact absurd ⟨p, hp⟩ h
  | lex =>
      cases hts : Script.tokens .standard source with
      | error problem =>
          rw [output, hts]
          exact ⟨"", problem, rfl, fun _ => rfl⟩
      | ok ts => exact absurd ⟨ts, hts⟩ h

theorem Succeeds.check (h : run.Succeeds source) : Succeeds source .check := by
  obtain ⟨p, -, -, hp, -⟩ := h
  exact ⟨p, hp⟩

theorem Succeeds.lex (h : Succeeds source .check) : Succeeds source .lex := by
  obtain ⟨p, hp⟩ := h
  obtain ⟨ts, hts, -⟩ := Script.program_eq_ok_iff.mp hp
  exact ⟨ts, mapError_eq_ok_iff.mpr hts⟩

end Task

/-! ## Replies -/

/-- What the reply to a task can be relied on for if there is a text at the path. -/
structure Task.Answered (task : Task) (onTerminal : Bool) (path source : String) (reply : Reply) :
    Prop where
  succeeds : reply.exit = 0 ↔ task.Succeeds source
  /-- A run has printed up to the point where it falters. -/
  falters : task = .run → reply.exit = 1 →
    ∃ problem ls, Falters source problem ls ∧ reply.stdout = Text.unlines ls ∧
      reply.stderr = report onTerminal path source problem
  /-- What is said of a source without a program is the same for all tasks that need one. -/
  diagnostic : task ≠ .lex → ∀ problem, Script.program .standard source = .error problem →
    reply.stderr = report onTerminal path source problem

/-- What the reply to a task can be relied on for. -/
structure Task.Promise (task : Task) (inputs : Inputs) (onTerminal : Bool) (path : String)
    (reply : Reply) : Prop where
  exit : reply.exit = 0 ∨ reply.exit = 1
  stderr : reply.stderr = "" ↔ reply.exit = 0
  unreadable : (∀ source : String, inputs.bytes path ≠ .ok source.toUTF8) →
    reply.exit = 1 ∧ reply.stdout = ""
  readable : ∀ source : String, inputs.bytes path = .ok source.toUTF8 →
    task.Answered onTerminal path source reply

section Replies

variable {inputs : Inputs} {args : List String} {path source text : String} {task : Task}
  {problem : Problem} {onTerminal : Bool}

theorem report_ne_empty (onTerminal : Bool) (path source : String) (problem : Problem) :
    report onTerminal path source problem ≠ "" := by
  intro h
  rw [report, Exhibit.render, List.flatMap_singleton, Exhibit.pieces, List.append_assoc,
    List.append_assoc, List.append_assoc, List.cons_append, Piece.renderAll_cons] at h
  refine absurd (String.append_eq_empty_iff.mp h).1 ?_
  cases onTerminal with
  | false => decide
  | true => decide

theorem taskReply_of_none (h : (task.output path source).2 = none) :
    taskReply task path (.ok source) onTerminal = ⟨0, (task.output path source).1, ""⟩ := by
  rw [taskReply]
  rcases houtput : task.output path source with ⟨text, _ | problem⟩
  · rfl
  · rw [houtput] at h
    cases h

theorem taskReply_of_some (h : task.output path source = (text, some problem)) :
    taskReply task path (.ok source) onTerminal
      = ⟨1, text, report onTerminal path source problem⟩ := by
  rw [taskReply, h]
  rfl

theorem taskReply_exit (task : Task) (path : String) (contents : Except ReadError String)
    (onTerminal : Bool) :
    ((taskReply task path contents onTerminal).exit = 0 ∨
        (taskReply task path contents onTerminal).exit = 1) ∧
      ((taskReply task path contents onTerminal).stderr = "" ↔
        (taskReply task path contents onTerminal).exit = 0) := by
  cases contents with
  | error e =>
      refine ⟨.inr rfl, iff_of_false (fun h => ?_) Nat.one_ne_zero⟩
      simp only [taskReply, String.append_eq_empty_iff] at h
      exact absurd h.1.1.1.1 (by decide)
  | ok source =>
      rcases houtput : task.output path source with ⟨text, _ | problem⟩
      · rw [taskReply_of_none (by rw [houtput])]
        exact ⟨.inl rfl, iff_of_true rfl rfl⟩
      · rw [taskReply_of_some houtput]
        have hne := report_ne_empty onTerminal path source problem
        exact ⟨.inr rfl, iff_of_false hne Nat.one_ne_zero⟩

theorem taskReply_exit_eq_zero_iff (task : Task) (onTerminal : Bool) (path source : String) :
    (taskReply task path (.ok source) onTerminal).exit = 0 ↔ task.Succeeds source := by
  by_cases h : task.Succeeds source
  · rw [taskReply_of_none (Task.output_of_succeeds h path)]
    exact iff_of_true rfl h
  · obtain ⟨text, problem, houtput, -⟩ := Task.output_of_not_succeeds h path
    rw [taskReply_of_some houtput]
    exact iff_of_false Nat.one_ne_zero h

theorem not_succeeds_of_exit (h : (taskReply task path (.ok source) onTerminal).exit = 1) :
    ¬ task.Succeeds source := by
  rw [← taskReply_exit_eq_zero_iff task onTerminal path, h]
  exact Nat.one_ne_zero

theorem taskReply_answered (task : Task) (onTerminal : Bool) (path source : String) :
    task.Answered onTerminal path source (taskReply task path (.ok source) onTerminal) := by
  refine ⟨taskReply_exit_eq_zero_iff task onTerminal path source, ?_, ?_⟩
  · rintro rfl hexit
    obtain ⟨problem, ls, hfalters, houtput⟩ :=
      Task.output_of_falters (not_succeeds_of_exit hexit) path
    rw [taskReply_of_some houtput]
    exact ⟨problem, ls, hfalters, rfl, rfl⟩
  · intro hlex problem hp
    rw [taskReply_of_some (Task.output_of_program_error hp hlex path)]

theorem taskReply_promise (task : Task) (inputs : Inputs) (onTerminal : Bool) (path : String) :
    task.Promise inputs onTerminal path (taskReply task path (inputs.read path) onTerminal) := by
  obtain ⟨hexit, hstderr⟩ := taskReply_exit task path (inputs.read path) onTerminal
  refine ⟨hexit, hstderr, ?_, ?_⟩
  · intro hnone
    cases hread : inputs.read path with
    | error e => exact ⟨rfl, rfl⟩
    | ok source => exact absurd (Inputs.read_eq_ok_iff.mp hread) (hnone source)
  · intro source hbytes
    rw [Inputs.read_eq_ok_iff.mpr hbytes]
    exact taskReply_answered task onTerminal path source

/-- Only a run prints before a problem. -/
theorem taskReply_stdout {contents : Except ReadError String} (htask : task ≠ .run)
    (hexit : (taskReply task path contents onTerminal).exit = 1) :
    (taskReply task path contents onTerminal).stdout = "" := by
  cases contents with
  | error e => rfl
  | ok source =>
      obtain ⟨text, problem, houtput, htext⟩ :=
        Task.output_of_not_succeeds (not_succeeds_of_exit hexit) path
      rw [taskReply_of_some houtput]
      exact htext htask

theorem respond_task (task : Task) (path : String) (inputs : Inputs) (onTerminal : Bool) :
    respond [task.word, path] inputs onTerminal
      = taskReply task path (inputs.read path) onTerminal := by
  rw [respond, Command.ofArgs_task]

/-- A task is done exactly if there is a text at its path on which it can be done. -/
theorem respond_exit_eq_zero_iff (task : Task) (path : String) (inputs : Inputs)
    (onTerminal : Bool) :
    (respond [task.word, path] inputs onTerminal).exit = 0 ↔
      ∃ source : String, inputs.bytes path = .ok source.toUTF8 ∧ task.Succeeds source := by
  rw [respond_task]
  cases hread : inputs.read path with
  | error e =>
      refine iff_of_false Nat.one_ne_zero ?_
      rintro ⟨source, hbytes, -⟩
      cases hread.symm.trans (Inputs.read_eq_ok_iff.mpr hbytes)
  | ok source =>
      rw [taskReply_exit_eq_zero_iff]
      constructor
      · intro h
        exact ⟨source, Inputs.read_eq_ok_iff.mp hread, h⟩
      · rintro ⟨source', hbytes, h⟩
        cases hread.symm.trans (Inputs.read_eq_ok_iff.mpr hbytes)
        exact h

theorem explainReply_cases (code : String) :
    (explainReply code).exit = 0 ∨
      ((explainReply code).exit = 1 ∧ (explainReply code).stdout = "") := by
  unfold explainReply
  split
  · exact .inl rfl
  · exact .inr ⟨rfl, rfl⟩

theorem respond_exit_eq_two_iff (args : List String) (inputs : Inputs) (onTerminal : Bool) :
    (respond args inputs onTerminal).exit = 2 ↔ Misused args := by
  have hsmall {n : Nat} (h : n = 0 ∨ n = 1) : n ≠ 2 := by omega
  rw [← Command.exists_ofArgs_eq_error_iff, respond]
  cases hargs : Command.ofArgs args with
  | error misuse => exact iff_of_true rfl ⟨misuse, rfl⟩
  | ok command =>
      refine iff_of_false ?_ nofun
      cases command with
      | help | version => exact hsmall (.inl rfl)
      | explain code => exact hsmall ((explainReply_cases code).imp_right And.left)
      | process task path => exact hsmall (taskReply_exit task path (inputs.read path) onTerminal).1

theorem respond_stdout_of_misused (h : Misused args) :
    (respond args inputs onTerminal).stdout = "" := by
  obtain ⟨misuse, hargs⟩ := Command.exists_ofArgs_eq_error_iff.mpr h
  rw [respond, hargs]

theorem respond_stdout_of_problem (hexit : (respond args inputs onTerminal).exit = 1)
    (hrun : ∀ path, args ≠ [Task.run.word, path]) :
    (respond args inputs onTerminal).stdout = "" := by
  unfold respond at hexit ⊢
  cases hargs : Command.ofArgs args with
  | error misuse => rfl
  | ok command =>
      rw [hargs] at hexit
      cases command with
      | help | version => cases hexit
      | explain code =>
          rcases explainReply_cases code with h | ⟨-, h⟩
          · cases h.symm.trans hexit
          · exact h
      | process task path =>
          refine taskReply_stdout ?_ hexit
          rintro rfl
          exact hrun path (Command.ofArgs_eq_process_iff.mp hargs)

/-- The exit code is 2 for misused arguments and for no others, and then nothing is printed.  With 1
nothing is printed either, but for a run.  Every reply to a task keeps its promise, and what can be
run can be checked, and what can be checked can be scanned. -/
theorem respond_promise (inputs : Inputs) (onTerminal : Bool) :
    (∀ args, ((respond args inputs onTerminal).exit = 2 ↔ Misused args) ∧
      (Misused args → (respond args inputs onTerminal).stdout = "") ∧
      ((respond args inputs onTerminal).exit = 1 → (∀ path, args ≠ ["run", path]) →
        (respond args inputs onTerminal).stdout = "")) ∧
    ∀ path, (∀ task : Task, task.Promise inputs onTerminal path
        (respond [task.word, path] inputs onTerminal)) ∧
      ((respond ["run", path] inputs onTerminal).exit = 0 →
        (respond ["check", path] inputs onTerminal).exit = 0) ∧
      ((respond ["check", path] inputs onTerminal).exit = 0 →
        (respond ["lex", path] inputs onTerminal).exit = 0) := by
  have hdone (task : Task) (path : String) := respond_exit_eq_zero_iff task path inputs onTerminal
  refine ⟨fun args => ?_, fun path => ⟨fun task => ?_, fun hrun => ?_, fun hcheck => ?_⟩⟩
  · exact ⟨respond_exit_eq_two_iff args inputs onTerminal, respond_stdout_of_misused,
      respond_stdout_of_problem⟩
  · rw [respond_task]
    exact taskReply_promise task inputs onTerminal path
  · obtain ⟨source, hbytes, h⟩ := (hdone .run path).mp hrun
    exact (hdone .check path).mpr ⟨source, hbytes, h.check⟩
  · obtain ⟨source, hbytes, h⟩ := (hdone .check path).mp hcheck
    exact (hdone .lex path).mpr ⟨source, hbytes, h.lex⟩

/-- `de a; ye b = a;` on standard input can be checked, and a run of it prints one line and then
meets a problem.  A run of two sources is misused. -/
theorem respond_promise_unbound :
    ∃ inputs : Inputs, inputs.stdin = "de a; ye b = a;".toUTF8 ∧
      (respond ["run", "-"] inputs).exit = 1 ∧
      (respond ["run", "-"] inputs).stdout = "a = Undefined\n" ∧
      (respond ["run", "-"] inputs).stderr
        = report false "-" "de a; ye b = a;" (.eval (.unboundIdentifier "a")) ∧
      (respond ["check", "-"] inputs).exit = 0 ∧
      (respond ["run", "-", "-"] inputs).exit = 2 := by
  let inputs : Inputs := ⟨"de a; ye b = a;".toUTF8, fun _ => .error .notFound⟩
  obtain ⟨hargs, hpaths⟩ := respond_promise inputs false
  obtain ⟨hpromise, -⟩ := hpaths "-"
  have hbytes : inputs.bytes "-" = .ok "de a; ye b = a;".toUTF8 := rfl
  have hprogram : Script.program .standard "de a; ye b = a;"
      = .ok [.debug "a", .declare "b" (.identifier "a")] := by
    decide +kernel
  have hsucceeds : ¬ Task.run.Succeeds "de a; ye b = a;" := by
    rintro ⟨p, os, s, hp, hexec⟩
    cases hprogram.symm.trans hp
    cases hexec
  have hanswered := (hpromise .run).readable _ hbytes
  have hexit := (hpromise .run).exit.resolve_left (mt hanswered.succeeds.mp hsucceeds)
  obtain ⟨problem, ls, hfalters, hstdout, hstderr⟩ := hanswered.falters rfl hexit
  obtain ⟨rfl, rfl⟩ := hfalters.unique
    (.fails hprogram Moment.Step.debug.leads (.declare rfl))
  have hcheck := ((hpromise .check).readable _ hbytes).succeeds.mpr ⟨_, hprogram⟩
  have hmisused := (hargs ["run", "-", "-"]).1.mpr (.operands (by decide) (by decide))
  exact ⟨inputs, rfl, hexit, hstdout, hstderr, hcheck, hmisused⟩

end Replies

end FlatScript.CommandLine
