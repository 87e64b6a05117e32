import FlatScript.Proofs.Utf8
import FlatScript.Source.LineTable
import Mathlib.Data.List.DropRight
import Mathlib.Data.Option.Basic

/-!
# Lines and columns of a place

A place in a source is given by the characters before it and the characters behind it.  The line
it lies on is cut in two there: the part after the last line feed before the place, and the part
up to the first line feed behind it.  The line table answers with these parts, although it works
with byte offsets throughout.
-/

namespace FlatScript

namespace Text

/-- A piece of characters is the slice between its ends. -/
theorem slice?_append (before piece behind : List Char) :
    slice? (before ++ (piece ++ behind)) (byteLength before) (byteLength before + byteLength piece)
      = some piece := by
  have hstop : charIndex? (before ++ (piece ++ behind)) (byteLength before + byteLength piece)
      = some (before ++ piece).length := by
    rw [← List.append_assoc, ← byteLength_append]
    exact charIndex?_append (before ++ piece) behind
  simp only [slice?, Nat.le_add_right, guard_true, charIndex?_append, hstop, Option.bind_eq_bind,
    Option.pure_def, Option.bind_some]
  rw [← List.append_assoc, List.take_left, List.drop_left]

theorem slice?_prefix (before behind : List Char) :
    slice? (before ++ behind) 0 (byteLength before) = some before := by
  have := slice?_append [] before behind
  rwa [byteLength_nil, Nat.zero_add, List.nil_append] at this

/-- The characters before a place are told by its offset. -/
theorem eq_of_slice? {cs before behind : List Char} {offset : Nat} (piece : List Char)
    (hslice : slice? cs 0 offset = some piece) (h : cs = before ++ behind)
    (hoffset : byteLength before = offset) : piece = before := by
  rw [h, ← hoffset, slice?_prefix] at hslice
  exact (Option.some.inj hslice).symm

/-- The characters of the last line that stand before the end. -/
def lastLine (cs : List Char) : List Char := cs.rtakeWhile (· != '\n')

/-- The characters of the first line, without the line feed. -/
def firstLine (cs : List Char) : List Char := cs.takeWhile (· != '\n')

/-- The lines that are ended before the last one. -/
def endedLines (cs : List Char) : List Char := cs.rdropWhile (· != '\n')

theorem endedLines_append_lastLine (cs : List Char) : endedLines cs ++ lastLine cs = cs :=
  List.rdropWhile_append_rtakeWhile

theorem endedLines_newline (cs : List Char) : endedLines (cs ++ ['\n']) = cs ++ ['\n'] :=
  List.rdropWhile_concat_neg _ _ _ (by decide)

theorem endedLines_concat {c : Char} (h : c ≠ '\n') (cs : List Char) :
    endedLines (cs ++ [c]) = endedLines cs :=
  List.rdropWhile_concat_pos _ _ _ (bne_iff_ne.mpr h)

/-- The first line goes on through characters that are no line feeds. -/
theorem firstLine_append {cs : List Char} (h : '\n' ∉ cs) (ds : List Char) :
    firstLine (cs ++ ds) = cs ++ firstLine ds := by
  refine List.takeWhile_append_of_pos fun c hc => ?_
  rw [bne_iff_ne]
  rintro rfl
  exact h hc

theorem not_mem_firstLine (cs : List Char) : '\n' ∉ firstLine cs := by
  intro h
  have := List.mem_takeWhile_imp h
  cases this

theorem not_mem_lastLine (cs : List Char) : '\n' ∉ lastLine cs := by
  intro h
  have := List.mem_rtakeWhile_imp h
  cases this

/-- Behind the first line nothing follows, or the line feed that ends it. -/
theorem firstLine_cases (cs : List Char) :
    cs = firstLine cs ∨ ∃ rest, cs = firstLine cs ++ '\n' :: rest := by
  induction cs with
  | nil => exact .inl rfl
  | cons c cs ih =>
      by_cases hc : c = '\n'
      · subst hc
        exact .inr ⟨cs, rfl⟩
      · have hfirst : firstLine (c :: cs) = c :: firstLine cs :=
          List.takeWhile_cons_of_pos (bne_iff_ne.mpr hc)
        rw [hfirst]
        rcases ih with ih | ⟨rest, ih⟩
        · exact .inl (congrArg (c :: ·) ih)
        · exact .inr ⟨rest, congrArg (c :: ·) ih⟩

end Text

namespace LineTable

open Text

variable {o n : Nat} {source : String} {before behind cs ds : List Char}

/-! ## Where lines start -/

theorem startsFrom_append (o : Nat) (cs ds : List Char) :
    startsFrom o (cs ++ ds) = startsFrom o cs ++ startsFrom (o + byteLength cs) ds := by
  induction cs generalizing o with
  | nil => rfl
  | cons c cs ih =>
      rw [List.cons_append, startsFrom, startsFrom, ih, byteLength_cons, Nat.add_assoc]
      split <;> rfl

/-- Lines start behind characters, so at the beginning none of these does. -/
theorem bounds_of_mem_startsFrom (h : n ∈ startsFrom o cs) :
    o < n ∧ n ≤ o + byteLength cs := by
  induction cs generalizing o with
  | nil => cases h
  | cons c cs ih =>
      have hc := c.utf8Size_pos
      rw [byteLength_cons]
      rw [startsFrom] at h
      split at h
      · rcases List.mem_cons.mp h with rfl | h
        · omega
        · have := ih h
          omega
      · have := ih h
        omega

theorem length_startsFrom (o : Nat) (cs : List Char) :
    (startsFrom o cs).length = cs.count '\n' := by
  induction cs generalizing o with
  | nil => rfl
  | cons c cs ih =>
      rw [startsFrom, List.count_cons]
      split
      · rw [List.length_cons, ih]
      · rw [ih, Nat.add_zero]

theorem startsFrom_cons {c : Char} (h : c ≠ '\n') (o : Nat) (cs : List Char) :
    startsFrom o (c :: cs) = startsFrom (o + c.utf8Size) cs :=
  if_neg (mt eq_of_beq h)

/-- The last line starts behind the lines that are ended. -/
theorem getLast?_startsFrom (o : Nat) (cs : List Char) :
    (o :: startsFrom o cs).getLast? = some (o + byteLength (endedLines cs)) := by
  induction cs using List.reverseRecOn with
  | nil => rfl
  | append_singleton cs c ih =>
      rw [startsFrom_append, ← List.cons_append]
      by_cases hc : c = '\n'
      · subst hc
        rw [endedLines_newline, byteLength_append, ← Nat.add_assoc]
        exact List.getLast?_concat
      · rw [startsFrom_cons hc, endedLines_concat hc]
        show (_ ++ []).getLast? = _
        rw [List.append_nil]
        exact ih

theorem startsFrom_eq_nil (o : Nat) (h : '\n' ∉ cs) : startsFrom o cs = [] :=
  List.eq_nil_of_length_eq_zero (by rw [length_startsFrom, List.count_eq_zero_of_not_mem h])

/-- The next line starts behind the line feed that ends this one. -/
theorem head?_startsFrom (o : Nat) (h : '\n' ∉ cs) (rest : List Char) :
    (startsFrom o (cs ++ '\n' :: rest)).head? = some (o + byteLength (cs ++ ['\n'])) := by
  rw [startsFrom_append, startsFrom_eq_nil o h, byteLength_append, ← Nat.add_assoc]
  rfl

/-- The line of an offset is told by the entries up to it. -/
theorem lineOf_eq_length {t : LineTable} {offset : Nat} {upTo further : List Nat}
    (h : t.starts = upTo ++ further) (hupTo : ∀ n ∈ upTo, n ≤ offset)
    (hfurther : ∀ n ∈ further, offset < n) : t.lineOf offset = upTo.length := by
  have hall : upTo.countP (· ≤ offset) = upTo.length :=
    List.countP_eq_length.mpr fun n hn => decide_eq_true (hupTo n hn)
  have hnone : further.countP (· ≤ offset) = 0 := by
    refine List.countP_eq_zero.mpr fun n hn => ?_
    rw [decide_eq_true_iff]
    exact Nat.not_le_of_lt (hfurther n hn)
  rw [lineOf, h, List.countP_append, hall, hnone, Nat.add_zero]

/-! ## The table of a source -/

section OfSource

variable (h : source.toList = before ++ behind)

include h

/-- The lines that start up to a place, and the lines that start behind it. -/
theorem starts_ofSource : (ofSource source).starts
    = (0 :: startsFrom 0 before) ++ startsFrom (byteLength before) behind := by
  rw [ofSource, h, startsFrom_append, Nat.zero_add]
  rfl

theorem lineOf_ofSource :
    (ofSource source).lineOf (byteLength before) = before.count '\n' + 1 := by
  have hlength : (0 :: startsFrom 0 before).length = before.count '\n' + 1 := by
    rw [List.length_cons, length_startsFrom]
  rw [← hlength]
  refine lineOf_eq_length (starts_ofSource h) ?_ ?_
  · intro n hn
    rcases List.mem_cons.mp hn with rfl | hn
    · exact Nat.zero_le _
    · have := bounds_of_mem_startsFrom hn
      omega
  · intro n hn
    exact (bounds_of_mem_startsFrom hn).1

/-- The line of a place starts behind the lines that are ended before it. -/
theorem startOf?_ofSource : (ofSource source).startOf? (before.count '\n' + 1)
    = some (byteLength (endedLines before)) := by
  have hlength : (0 :: startsFrom 0 before).length = before.count '\n' + 1 := by
    rw [List.length_cons, length_startsFrom]
  rw [startOf?, if_neg (Nat.succ_ne_zero _), starts_ofSource h, Nat.add_sub_cancel,
    List.getElem?_append_left (by omega), ← Nat.zero_add (byteLength _), ← getLast?_startsFrom,
    List.getLast?_eq_getElem?, hlength, Nat.add_sub_cancel]

/-- The line behind a place starts where the first line does that starts behind it. -/
theorem startOf?_succ_ofSource : (ofSource source).startOf? (before.count '\n' + 1 + 1)
    = (startsFrom (byteLength before) behind).head? := by
  have hlength : (0 :: startsFrom 0 before).length = before.count '\n' + 1 := by
    rw [List.length_cons, length_startsFrom]
  rw [startOf?, if_neg (Nat.succ_ne_zero _), starts_ofSource h, Nat.add_sub_cancel,
    List.getElem?_append_right hlength.le, hlength, Nat.sub_self, List.head?_eq_getElem?]

/-- The characters from the start of the line of a place on, up to some end. -/
theorem slice?_line {line rest : List Char} (hbehind : behind = line ++ rest) :
    slice? source.toList (byteLength (endedLines before)) (byteLength before + byteLength line)
      = some (lastLine before ++ line) := by
  have hbefore := endedLines_append_lastLine before
  have hsource : source.toList = endedLines before ++ ((lastLine before ++ line) ++ rest) := by
    rw [h, hbehind, List.append_assoc, ← List.append_assoc (endedLines before), hbefore]
  have hlength : byteLength before
      = byteLength (endedLines before) + byteLength (lastLine before) := by
    rw [← byteLength_append, hbefore]
  rw [hsource, hlength, Nat.add_assoc, ← byteLength_append]
  exact slice?_append (endedLines before) (lastLine before ++ line) rest

/-- A column counts the characters of the line that stand before the place. -/
theorem position_ofSource : (ofSource source).position source (byteLength before)
    = (before.count '\n' + 1, (lastLine before).length + 1) := by
  have hle : byteLength before ≤ source.utf8ByteSize := by
    rw [utf8ByteSize_eq, h, byteLength_append]
    exact Nat.le_add_right _ _
  have hslice := slice?_line h (List.nil_append behind).symm
  rw [byteLength_nil, Nat.add_zero, List.append_nil] at hslice
  rw [position, lineOf_ofSource h, startOf?_ofSource h, Nat.min_eq_left hle]
  dsimp only [Option.getD_some]
  rw [hslice]

end OfSource

/-! ## The text of a line -/

theorem trimmed_concat {c : Char} (h : c = '\n' ∨ c = '\r') (cs : List Char) :
    trimmed (cs ++ [c]) = trimmed cs := by
  rw [trimmed, List.reverse_append]
  rcases h with rfl | rfl <;> rfl

theorem trimmed_eq_self (h : ∀ c ∈ cs.getLast?, c ≠ '\n' ∧ c ≠ '\r') : trimmed cs = cs := by
  refine List.rdropWhile_eq_self_iff.mpr fun hne => ?_
  obtain ⟨hn, hr⟩ := h _ (List.getLast_mem_getLast? hne)
  rw [Bool.or_eq_true, beq_iff_eq, beq_iff_eq, not_or]
  exact ⟨hn, hr⟩

theorem trimmed_prefix (cs : List Char) : trimmed cs <+: cs :=
  List.rdropWhile_prefix (fun c => c == '\n' || c == '\r') cs

theorem trimmed_eq_nil_iff : trimmed cs = [] ↔ ∀ c ∈ cs, c = '\n' ∨ c = '\r' := by
  simp [trimmed]

/-- Where something is left of the end, nothing is trimmed before it. -/
theorem trimmed_append_of_ne_nil (h : trimmed ds ≠ []) : trimmed (cs ++ ds) = cs ++ trimmed ds := by
  rw [trimmed, Ne, List.reverse_eq_nil_iff, ← List.isEmpty_iff] at h
  rw [trimmed, trimmed, List.reverse_append, List.dropWhile_append, if_neg h, List.reverse_append,
    List.reverse_reverse]

theorem trimmed_append_of_eq_nil (h : trimmed ds = []) : trimmed (cs ++ ds) = trimmed cs := by
  rw [trimmed, List.reverse_eq_nil_iff, ← List.isEmpty_iff] at h
  rw [trimmed, trimmed, List.reverse_append, List.dropWhile_append, if_pos h]

/-- Only what stands behind the last character that does not end a line is trimmed. -/
theorem trimmed_append (h : ∀ c ∈ cs.getLast?, c ≠ '\n' ∧ c ≠ '\r') (ds : List Char) :
    trimmed (cs ++ ds) = cs ++ trimmed ds := by
  by_cases hds : trimmed ds = []
  · rw [trimmed_append_of_eq_nil hds, trimmed_eq_self h, hds, List.append_nil]
  · exact trimmed_append_of_ne_nil hds

/-- The text of the line of a place: its part before the place and its part behind it, up to the
characters that end it. -/
theorem lineText?_ofSource (h : source.toList = before ++ behind) :
    (ofSource source).lineText? source (before.count '\n' + 1)
      = some (String.ofList (trimmed (lastLine before ++ firstLine behind))) := by
  rw [lineText?, startOf?_ofSource h, startOf?_succ_ofSource h]
  rcases firstLine_cases behind with hbehind | ⟨rest, hbehind⟩
  · -- the last line, which ends with the source
    have hnext : startsFrom (byteLength before) behind = [] :=
      startsFrom_eq_nil _ (hbehind ▸ not_mem_firstLine behind)
    have hsize : source.utf8ByteSize = byteLength before + byteLength (firstLine behind) := by
      rw [utf8ByteSize_eq, h, byteLength_append, ← hbehind]
    have hslice := slice?_line h (hbehind.trans (List.append_nil _).symm)
    simp only [Option.bind_eq_bind, Option.bind_some, hnext, List.head?_nil, Option.getD_none,
      hsize, hslice]
    rfl
  · -- a line that the slice ends together with its line feed
    have hnext : (startsFrom (byteLength before) behind).head?
        = some (byteLength before + byteLength (firstLine behind ++ ['\n'])) := by
      have := head?_startsFrom (byteLength before) (not_mem_firstLine behind) rest
      rwa [← hbehind] at this
    have hslice := slice?_line h (hbehind.trans (List.append_cons _ _ _))
    simp only [Option.bind_eq_bind, Option.bind_some, hnext, Option.getD_some, hslice,
      Option.pure_def]
    rw [← List.append_assoc, trimmed_concat (.inl rfl)]

end LineTable

end FlatScript
