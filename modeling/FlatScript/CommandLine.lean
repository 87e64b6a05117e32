import FlatScript.Program.Layout
import FlatScript.Program.Outline
import FlatScript.Report.Exhibit
import FlatScript.Script

/-!
# The command line

The arguments name a command, most commands name a source, and the reply is an exit code with
what goes to the two output streams.  All of it is a function of the arguments, of what reading a
source gives, and of whether errors go to a terminal; nothing here performs input or output.

Arguments are texts: a program that is started with bytes that are no text ends before it looks at a
command.
-/

namespace FlatScript.CommandLine

/-! ## Arguments -/

/-- What is done with a source. -/
inductive Task where
  | run
  | check
  | lex
  | parse
  | fmt
deriving DecidableEq

namespace Task

/-- The word that asks for a task. -/
def word : Task → String
  | run => "run"
  | check => "check"
  | lex => "lex"
  | parse => "parse"
  | fmt => "fmt"

/-- Every task. -/
def all : List Task := [run, check, lex, parse, fmt]

end Task

/-- What the arguments ask for. -/
inductive Command where
  | help
  | version
  | explain (code : String)
  | process (task : Task) (path : String)
deriving DecidableEq

/-- Why the arguments ask for nothing. -/
inductive Misuse where
  | noCommand
  | unknownCommand (word : String)
  /-- A task without exactly one path. -/
  | taskOperands (task : Task)
  /-- A look-up without exactly one code. -/
  | explainOperands
deriving DecidableEq

/-- The words that ask for help. -/
def helpWords : List String := ["help", "--help", "-h"]

/-- The words that ask for the version. -/
def versionWords : List String := ["version", "--version", "-V"]

/-- The word that asks for an explanation. -/
def explainWord : String := "explain"

namespace Command

/-- Reads arguments.  Help and version take no notice of further arguments; every other command
takes exactly one. -/
def ofArgs : List String → Except Misuse Command
  | [] => .error .noCommand
  | word :: operands =>
    if word ∈ helpWords then .ok .help
    else if word ∈ versionWords then .ok .version
    else if word = explainWord then
      match operands with
      | [code] => .ok (.explain code)
      | _ => .error .explainOperands
    else match Task.all.find? (·.word == word) with
      | none => .error (.unknownCommand word)
      | some task =>
        match operands with
        | [path] => .ok (.process task path)
        | _ => .error (.taskOperands task)

end Command

/-! ## Sources -/

/-- Why a source cannot be read. -/
inductive ReadError where
  /-- There is nothing at the path. -/
  | notFound
  | permissionDenied
  /-- The path goes on behind a file. -/
  | notDirectory
  /-- There is a directory at the path. -/
  | isDirectory
  | nameTooLong
  /-- Anything else that the operating system says, with its number. -/
  | system (description : String) (number : Nat)
  /-- The bytes are no text. -/
  | notText
deriving DecidableEq

namespace ReadError

/-- The error that the operating system gives a number. -/
def ofNumber (number : Nat) (description : String) : ReadError :=
  match number with
  | 2 => notFound
  | 13 => permissionDenied
  | 20 => notDirectory
  | 21 => isDirectory
  | 36 => nameTooLong
  | number => system description number

/-- What the operating system says, with its number. -/
def systemText (description : String) (number : Nat) : String :=
  s!"{description} (os error {number})"

/-- The text that reports the error. -/
def message : ReadError → String
  | notFound => systemText "No such file or directory" 2
  | permissionDenied => systemText "Permission denied" 13
  | notDirectory => systemText "Not a directory" 20
  | isDirectory => systemText "Is a directory" 21
  | nameTooLong => systemText "File name too long" 36
  | system description number => systemText description number
  | notText => "stream did not contain valid UTF-8"

end ReadError

/-- What sources can be read from. -/
structure Inputs where
  stdin : ByteArray
  file : String → Except ReadError ByteArray

/-- The path that stands for standard input. -/
def stdinPath : String := "-"

namespace Inputs

/-- The text at a path. -/
def read (inputs : Inputs) (path : String) : Except ReadError String := do
  let bytes ← if path = stdinPath then .ok inputs.stdin else inputs.file path
  match String.fromUTF8? bytes with
  | some source => .ok source
  | none => .error .notText

end Inputs

/-! ## Replies -/

/-- What a command leaves behind. -/
structure Reply where
  exit : Nat
  stdout : String
  stderr : String
deriving DecidableEq

/-- The exit code of a problem. -/
def exitProblem : Nat := 1

/-- The exit code of a misuse. -/
def exitMisuse : Nat := 2

/-- The text that explains the commands. -/
def usage : String := Text.unlines [
  "ye - a tiny declare, debug and compare language",
  "",
  "Usage: ye <command> <file.ye | ->",
  "",
  "Commands:",
  "  run      Evaluate a program; `de` lines go to stdout",
  "  check    Lex and parse without evaluating",
  "  lex      Print the token stream",
  "  parse    Print the syntax tree",
  "  fmt      Print the program in canonical form",
  "  explain  Describe an error code, e.g. `ye explain E1001`",
  "  help     Show this message",
  "  version  Show the version",
  "",
  "A path of `-` reads standard input.",
  "",
  "Environment:",
  "  YE_LOG        tracing filter, e.g. YE_LOG=ye_parse=trace (falls back to RUST_LOG)",
  "  YE_LOG_TREE   set to 1 for indented span-tree output"]

namespace Misuse

/-- The text that reports a misuse. -/
def message : Misuse → String
  | noCommand => usage
  | unknownCommand word => s!"error: unknown command '{word}'\n\n" ++ usage
  | taskOperands task => s!"Usage: ye {task.word} <file.ye | ->\n"
  | explainOperands => "Usage: ye explain <code>\n"

end Misuse

/-- The reply to a code that is looked up. -/
def explainReply (text : String) : Reply :=
  match Code.ofText? text with
  | some code =>
    ⟨0, s!"{code.text} ({code.stage.name} error)\n\n{code.explanation}\n", ""⟩
  | none => ⟨exitProblem, "", Text.unlines [
      s!"error: unknown error code '{text}'",
      "",
      "Codes have the format EXXXX, where X is a digit.",
      "Examples: E0001, E1001, E6003"]⟩

namespace Task

/-- What a task prints for a source, and the problem it meets, if it meets one.  Only a run prints
before it meets a problem. -/
def output (task : Task) (path source : String) : String × Option Problem :=
  match task with
  | run =>
    match Script.run .standard (.start .fresh) source with
    | (.ok _, s) => (s.printer.output, none)
    | (.error p, s) => (s.printer.output, some p)
  | check =>
    match Script.program .standard source with
    | .ok p => (s!"OK: {path} ({p.length} statements)\n", none)
    | .error p => ("", some p)
  | lex =>
    match Script.tokens .standard source with
    | .ok ts => (Text.unlines (ts.map Token.located), none)
    | .error p => ("", some p)
  | parse =>
    match Script.program .standard source with
    | .ok p => (p.outline (.indented 0) ++ "\n", none)
    | .error p => ("", some p)
  | fmt =>
    match Script.program .standard source with
    | .ok p => (p.layout, none)
    | .error p => ("", some p)

end Task

/-- A problem as it is reported: with its source and path, and painted on a terminal. -/
def report (onTerminal : Bool) (path source : String) (p : Problem) : String :=
  let shown := if path = stdinPath then "<stdin>" else path
  Exhibit.render ⟨some source, some shown⟩ (ColourMode.auto.applies onTerminal) [p.diagnostic]

/-- The reply to a task. -/
def taskReply (task : Task) (path : String) (contents : Except ReadError String)
    (onTerminal : Bool) : Reply :=
  match contents with
  | .error e => ⟨exitProblem, "", s!"error: cannot read '{path}': {e.message}\n"⟩
  | .ok source =>
    match task.output path source with
    | (text, none) => ⟨0, text, ""⟩
    | (text, some p) => ⟨exitProblem, text, report onTerminal path source p⟩

/-- The reply to arguments, where errors may go to a terminal. -/
def respond (args : List String) (inputs : Inputs) (onTerminal : Bool := false) : Reply :=
  match Command.ofArgs args with
  | .error misuse => ⟨exitMisuse, "", misuse.message⟩
  | .ok .help => ⟨0, "", usage⟩
  | .ok .version => ⟨0, "ye 0.1.0\n", ""⟩
  | .ok (.explain code) => explainReply code
  | .ok (.process task path) => taskReply task path (inputs.read path) onTerminal

end FlatScript.CommandLine
