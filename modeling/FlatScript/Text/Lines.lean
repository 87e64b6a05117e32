/-!
# Lines of a captured text

A line feed ends a line, and a carriage return right before it belongs to the ending.  Text behind
the last line feed is a line too, unless it is empty.
-/

namespace FlatScript.Text

/-- A line without the carriage return at its end, if it has one there. -/
def withoutReturn (line : List Char) : List Char :=
  if line.getLast? = some '\r' then line.dropLast else line

/-- The characters before the first line feed, and those behind it, if there is one. -/
def cutLine (cs : List Char) : List Char × Option (List Char) :=
  (cs.takeWhile (· != '\n'),
    match cs.dropWhile (· != '\n') with
    | [] => none
    | _ :: rest => some rest)

/-- Less is left behind a line feed than there was before it. -/
theorem length_cutLine_lt {cs rest : List Char} (h : (cutLine cs).2 = some rest) :
    rest.length < cs.length := by
  unfold cutLine at h
  have hle := (List.dropWhile_sublist (fun c => c != '\n') (l := cs)).length_le
  split at h
  · cases h
  · next c r hr =>
    cases h
    rw [hr, List.length_cons] at hle
    exact hle

/-- The lines of a text, without their endings. -/
def linesOf (cs : List Char) : List (List Char) :=
  match h : (cutLine cs).2 with
  | some rest =>
    have := length_cutLine_lt h
    withoutReturn (cutLine cs).1 :: linesOf rest
  | none => if cs.isEmpty then [] else [cs]
termination_by cs.length

/-- The lines of a captured text. -/
def lines (s : String) : List String := (linesOf s.toList).map String.ofList

end FlatScript.Text
