import FlatScript.CommandLine

/-!
# The program

Reads what the arguments call for, and writes the reply.
-/

namespace FlatScript

open CommandLine

/-- The error behind a number; some numbers come negated, as 32-bit words. -/
def readErrorOfCode (code : UInt32) (description : String) : ReadError :=
  .ofNumber code.toInt32.toInt.natAbs description

/-- Why a file cannot be read. -/
def readErrorOf : IO.Error → ReadError
  | .noFileOrDirectory _ code details => readErrorOfCode code details
  | .permissionDenied _ code details => readErrorOfCode code details
  | .inappropriateType _ code details => readErrorOfCode code details
  | .invalidArgument _ code details => readErrorOfCode code details
  | .noSuchThing _ code details => readErrorOfCode code details
  | .resourceExhausted _ code details => readErrorOfCode code details
  | .otherError code details => readErrorOfCode code details
  | e => .system (toString e) 0

/-- Reads a stream to its end. -/
partial def readAll (stream : IO.FS.Stream) (before : ByteArray) : IO ByteArray := do
  let bytes ← stream.read 65536
  if bytes.isEmpty then return before else readAll stream (before ++ bytes)

/-- Reads what a command needs. -/
def gather : Command → IO Inputs
  | .process _ path => do
    if path = stdinPath then
      let bytes ← readAll (← IO.getStdin) .empty
      return ⟨bytes, fun _ => .error .notFound⟩
    else
      match ← (IO.FS.readBinFile path).toBaseIO with
      | .ok bytes => return ⟨.empty, fun _ => .ok bytes⟩
      | .error e => return ⟨.empty, fun _ => .error (readErrorOf e)⟩
  | _ => return ⟨.empty, fun _ => .error .notFound⟩

end FlatScript

/-- Answers one command line. -/
def main (args : List String) : IO UInt32 := do
  let command := FlatScript.CommandLine.Command.ofArgs args
  let inputs ← FlatScript.gather (command.toOption.getD .help)
  let stderr ← IO.getStderr
  let reply := FlatScript.CommandLine.respond args inputs (← stderr.isTty)
  (← IO.getStdout).putStr reply.stdout
  stderr.putStr reply.stderr
  return reply.exit.toUInt32
