import FlatScript.Proofs.Lines
import FlatScript.Source.Span

/-!
# The line and the column of an offset

A line table is searched for an offset, which may stand in it or between two of its entries.  Since
the entries ascend strictly, both kinds of answers tell the same thing: how many lines start at or
before the offset (`Finds.lineFound_eq`).  And these are the first line and those behind a line feed
before the offset, since a line feed is a byte of its own and no byte of any other character is one
(`countP_startsFrom`).  So the line is known for each offset, be it inside a character or past the
end of the source.

Main statement, `position_exact`.
-/

namespace FlatScript

/-! ## Line feeds among bytes -/

namespace Text

/-- The byte of a line feed. -/
def newlineByte : UInt8 := 10

theorem le_toNat_of_mem {c : Char} (h : 128 ≤ c.toNat) {b : UInt8}
    (hb : b ∈ String.utf8EncodeChar c) : 128 ≤ b.toNat := by
  have hc : ¬ c.val.toNat ≤ 0x7f := Nat.not_le_of_lt h
  rw [String.utf8EncodeChar, if_neg hc] at hb
  split at hb
  · simp only [List.mem_cons, List.not_mem_nil, or_false] at hb
    rcases hb with rfl | rfl <;> exact le_toNat_lead (by decide) (by decide) (by decide)
  · split at hb
    · simp only [List.mem_cons, List.not_mem_nil, or_false] at hb
      rcases hb with rfl | rfl | rfl <;> exact le_toNat_lead (by decide) (by decide) (by decide)
    · simp only [List.mem_cons, List.not_mem_nil, or_false] at hb
      rcases hb with rfl | rfl | rfl | rfl <;>
        exact le_toNat_lead (by decide) (by decide) (by decide)

/-- Among the bytes of a character there is that of a line feed only if it is one. -/
theorem newlineByte_mem_iff {c : Char} : newlineByte ∈ String.utf8EncodeChar c ↔ c = '\n' := by
  constructor
  · intro h
    by_cases hc : c.toNat < 128
    · rw [utf8EncodeChar_ascii hc] at h
      rw [← ofUInt8_ofNat hc, ← List.mem_singleton.mp h]
      rfl
    · exact absurd (le_toNat_of_mem (Nat.le_of_not_lt hc) h) (by decide)
  · rintro rfl
    decide

end Text

namespace LineTable

open Text

variable {o n i offset : Nat} {source : String} {cs : List Char} {t : LineTable}

/-- The lines that start up to an offset, and the line feeds before it. -/
theorem countP_startsFrom (o offset : Nat) (cs : List Char) :
    (startsFrom o cs).countP (· ≤ offset) = ((encode cs).take (offset - o)).count newlineByte := by
  induction cs generalizing o with
  | nil => simp [startsFrom, encode]
  | cons c cs ih =>
      have hrest : offset - (o + c.utf8Size) = offset - o - c.utf8Size := Nat.sub_add_eq ..
      rw [encode_cons, List.take_append, List.count_append, String.length_utf8EncodeChar, ← hrest]
      by_cases hc : c = '\n'
      · subst hc
        rw [startsFrom, if_pos (beq_self_eq_true '\n'), List.countP_cons, ih, Nat.add_comm]
        congr 1
        by_cases ho : o < offset
        · have hle : o + ('\n' : Char).utf8Size ≤ offset := ho
          have htake : (String.utf8EncodeChar '\n').take (offset - o) = [newlineByte] :=
            List.take_of_length_le (Nat.le_sub_of_add_le' hle)
          rw [htake, if_pos (decide_eq_true hle)]
          rfl
        · have hle : ¬ o + ('\n' : Char).utf8Size ≤ offset := ho
          rw [Nat.sub_eq_zero_of_le (Nat.le_of_not_lt ho), if_neg (mt of_decide_eq_true hle)]
          rfl
      · have hnone : ((String.utf8EncodeChar c).take (offset - o)).count newlineByte = 0 :=
          List.count_eq_zero_of_not_mem fun h =>
            hc (newlineByte_mem_iff.mp (List.mem_of_mem_take h))
        rw [startsFrom_cons hc, ih, hnone, Nat.zero_add]

/-! ## Searching a table -/

theorem pairwise_startsFrom (o : Nat) (cs : List Char) :
    (o :: startsFrom o cs).Pairwise (· < ·) := by
  refine List.pairwise_cons.mpr ⟨fun n hn => (bounds_of_mem_startsFrom hn).1, ?_⟩
  induction cs generalizing o with
  | nil => exact .nil
  | cons c cs ih =>
      rw [startsFrom]
      split
      · exact List.pairwise_cons.mpr ⟨fun n hn => (bounds_of_mem_startsFrom hn).1, ih _⟩
      · exact ih _

/-- An ascending list is cut in two by an offset. -/
theorem exists_split {ns : List Nat} (h : ns.Pairwise (· < ·)) (offset : Nat) :
    ∃ upTo further, ns = upTo ++ further ∧ (∀ n ∈ upTo, n ≤ offset) ∧
      ∀ n ∈ further, offset < n := by
  induction ns with
  | nil => exact ⟨[], [], rfl, nofun, nofun⟩
  | cons n ns ih =>
      obtain ⟨hn, hns⟩ := List.pairwise_cons.mp h
      by_cases hle : n ≤ offset
      · obtain ⟨upTo, further, rfl, hupTo, hfurther⟩ := ih hns
        exact ⟨n :: upTo, further, rfl, List.forall_mem_cons.mpr ⟨hle, hupTo⟩, hfurther⟩
      · have hlt : offset < n := Nat.lt_of_not_le hle
        refine ⟨[], n :: ns, rfl, nofun, List.forall_mem_cons.mpr ⟨hlt, ?_⟩⟩
        intro m hm
        exact Nat.lt_trans hlt (hn m hm)

/-- What a search for an offset may answer: an index at which it stands, or, if it stands nowhere,
the index to put it at so that the entries keep ascending. -/
inductive Finds (t : LineTable) (offset : Nat) : Except Nat Nat → Prop
  | hit {i : Nat} : t.starts[i]? = some offset → Finds t offset (.ok i)
  | miss {i : Nat} : i ≤ t.lineCount → (∀ n ∈ t.starts.take i, n < offset) →
      (∀ n ∈ t.starts.drop i, offset < n) → Finds t offset (.error i)

/-- The line that the answer of a search stands for, counted from one. -/
def lineFound : Except Nat Nat → Nat
  | .ok i => i + 1
  | .error i => i

section Search

variable (ht : t.starts.Pairwise (· < ·))

include ht

theorem Finds.lineFound_eq {r : Except Nat Nat} (h : t.Finds offset r) :
    lineFound r = t.lineOf offset := by
  cases h with
  | @hit i hi =>
      obtain ⟨hlt, rfl⟩ := List.getElem?_eq_some_iff.mp hi
      have hascend := List.pairwise_iff_getElem.mp ht
      rw [lineOf_eq_length (List.take_append_drop (i + 1) t.starts).symm]
      · exact (List.length_take_of_le hlt).symm
      · intro n hn
        obtain ⟨j, hj, rfl⟩ := List.mem_take_iff_getElem.mp hn
        rcases Nat.lt_or_eq_of_le (Nat.le_of_lt_succ (Nat.lt_of_lt_of_le hj (Nat.min_le_left _ _)))
          with hji | rfl
        · exact Nat.le_of_lt (hascend j i _ hlt hji)
        · exact Nat.le_refl _
      · intro n hn
        obtain ⟨j, hj, rfl⟩ := List.mem_drop_iff_getElem.mp hn
        exact hascend i (i + 1 + j) hlt _ (by omega)
  | @miss i hi hbefore hbehind =>
      rw [lineOf_eq_length (List.take_append_drop i t.starts).symm
        (fun n hn => Nat.le_of_lt (hbefore n hn)) hbehind]
      exact (List.length_take_of_le hi).symm

theorem exists_finds (offset : Nat) : ∃ r, t.Finds offset r := by
  obtain ⟨upTo, further, hstarts, hupTo, hfurther⟩ := exists_split ht offset
  by_cases hmem : offset ∈ upTo
  · obtain ⟨i, hi⟩ := List.getElem?_of_mem (hstarts ▸ List.mem_append_left further hmem)
    exact ⟨_, .hit hi⟩
  · have hlt : ∀ n ∈ upTo, n < offset := by
      intro n hn
      refine Nat.lt_of_le_of_ne (hupTo n hn) ?_
      rintro rfl
      exact hmem hn
    refine ⟨.error upTo.length, .miss ?_ ?_ ?_⟩
    · rw [lineCount, hstarts, List.length_append]
      exact Nat.le_add_right _ _
    · rwa [hstarts, List.take_left]
    · rwa [hstarts, List.drop_left]

/-- The line of an offset starts at or before it, if any line does. -/
theorem exists_startOf? (h : 0 < t.lineOf offset) :
    ∃ start ∈ t.starts, t.startOf? (t.lineOf offset) = some start ∧ start ≤ offset := by
  obtain ⟨upTo, further, hstarts, hupTo, hfurther⟩ := exists_split ht offset
  rw [lineOf_eq_length hstarts hupTo hfurther] at h ⊢
  have hlast : upTo.length - 1 < upTo.length := Nat.sub_lt h Nat.one_pos
  have hmem : upTo[upTo.length - 1] ∈ upTo := List.getElem_mem hlast
  refine ⟨_, hstarts ▸ List.mem_append_left further hmem, ?_, hupTo _ hmem⟩
  rw [startOf?, if_neg h.ne', hstarts, List.getElem?_append_left hlast]
  exact List.getElem?_eq_getElem hlast

end Search

/-! ## The table of a source -/

theorem ascends (source : String) : (ofSource source).starts.Pairwise (· < ·) :=
  pairwise_startsFrom 0 source.toList

theorem le_utf8ByteSize_of_mem (h : n ∈ (ofSource source).starts) : n ≤ source.utf8ByteSize := by
  rw [utf8ByteSize_eq]
  rcases List.mem_cons.mp h with rfl | h
  · exact Nat.zero_le _
  · exact (bounds_of_mem_startsFrom h).2.trans (Nat.zero_add _).le

theorem lineCount_ofSource (source : String) :
    (ofSource source).lineCount = source.toList.count '\n' + 1 :=
  congrArg (· + 1) (length_startsFrom 0 source.toList)

theorem lineCount_le (source : String) : (ofSource source).lineCount ≤ source.utf8ByteSize + 1 := by
  rw [lineCount_ofSource, utf8ByteSize_eq]
  exact Nat.succ_le_succ (List.count_le_length.trans (length_le_byteLength _))

/-- An offset past the end lies on the line that the source ends on. -/
theorem lineOf_eq_count (source : String) (offset : Nat) : (ofSource source).lineOf offset
    = ((bytes source).take (min offset source.utf8ByteSize)).count newlineByte + 1 := by
  have hsize : source.utf8ByteSize = (bytes source).length := by
    rw [bytes_eq, length_encode, utf8ByteSize_eq]
  have hcons : (ofSource source).lineOf offset
      = (startsFrom 0 source.toList).countP (· ≤ offset) + 1 :=
    List.countP_cons_of_pos (decide_eq_true (Nat.zero_le offset))
  rw [hcons, countP_startsFrom, Nat.sub_zero, ← bytes_eq, hsize, ← List.take_eq_take_min]

theorem position_min (source : String) (offset : Nat) :
    (ofSource source).position source (min offset source.utf8ByteSize)
      = (ofSource source).position source offset := by
  have hline : (ofSource source).lineOf (min offset source.utf8ByteSize)
      = (ofSource source).lineOf offset := by
    rw [lineOf_eq_count, lineOf_eq_count, Nat.min_assoc, Nat.min_self]
  rw [position, hline, Nat.min_assoc, Nat.min_self]
  rfl

/-! ## Looking up an offset -/

/-- The line of an offset is found: by each search of the table, as the line feeds before the offset
tell it, and with a start that stands in the table and is not behind the offset. -/
structure LineFound (source : String) (offset line : Nat) : Prop where
  searched : ∃ r, (ofSource source).Finds offset r
  found : ∀ r, (ofSource source).Finds offset r → lineFound r = line
  counted : line
    = ((bytes source).take (min offset source.utf8ByteSize)).count newlineByte + 1
  pos : 1 ≤ line
  le_lineCount : line ≤ (ofSource source).lineCount
  starts : ∃ start, (ofSource source).startOf? line = some start ∧
    start ≤ min offset source.utf8ByteSize

theorem lineFound_lineOf (source : String) (offset : Nat) :
    LineFound source offset ((ofSource source).lineOf offset) where
  searched := exists_finds (ascends source) offset
  found _ h := h.lineFound_eq (ascends source)
  counted := lineOf_eq_count source offset
  pos := by
    rw [lineOf_eq_count]
    exact Nat.le_add_left 1 _
  le_lineCount := List.countP_le_length
  starts := by
    have hpos : 0 < (ofSource source).lineOf offset := by
      rw [lineOf_eq_count]
      exact Nat.succ_pos _
    obtain ⟨start, hmem, hstart, hle⟩ := exists_startOf? (ascends source) hpos
    exact ⟨start, hstart, Nat.le_min.mpr ⟨hle, le_utf8ByteSize_of_mem hmem⟩⟩

theorem length_lastLine_le {before behind : List Char} (h : source.toList = before ++ behind) :
    (lastLine before).length ≤ source.utf8ByteSize := by
  calc (lastLine before).length
      ≤ before.length := (List.rtakeWhile_suffix _ _).length_le
    _ ≤ byteLength before := length_le_byteLength before
    _ ≤ source.utf8ByteSize := by
        rw [utf8ByteSize_eq, h, byteLength_append]
        exact Nat.le_add_right _ _

/-- The characters before an offset, if it stands at one or past the end. -/
theorem exists_before (h : String.Pos.Raw.IsValid source ⟨offset⟩ ∨ source.utf8ByteSize ≤ offset) :
    ∃ before behind, source.toList = before ++ behind ∧
      min offset source.utf8ByteSize = byteLength before := by
  rcases h with h | h
  · obtain ⟨before, behind, hsource, rfl⟩ := exists_append_of_isValid h
    refine ⟨before, behind, hsource, Nat.min_eq_left ?_⟩
    rw [utf8ByteSize_eq, hsource, byteLength_append]
    exact Nat.le_add_right _ _
  · refine ⟨source.toList, [], (List.append_nil _).symm, ?_⟩
    rw [Nat.min_eq_right h, utf8ByteSize_eq]

/-- Of each source that a span can point into, the table holds ascending offsets within the source,
and the line of each offset is found.  The column counts the characters that stand before the offset
on its line, whenever it stands at a character or past the end. -/
theorem position_exact (hsize : source.utf8ByteSize < maxOffset) :
    (ofSource source).starts.Pairwise (· < ·) ∧
    (∀ n ∈ (ofSource source).starts, n ≤ source.utf8ByteSize) ∧
    (ofSource source).lineCount ≤ maxOffset ∧
    ∀ offset, LineFound source offset ((ofSource source).lineOf offset) ∧
      (String.Pos.Raw.IsValid source ⟨offset⟩ ∨ source.utf8ByteSize ≤ offset →
        ∃ before behind, source.toList = before ++ behind ∧
          byteLength before = min offset source.utf8ByteSize ∧
          (ofSource source).lineOf offset = before.count '\n' + 1 ∧
          (ofSource source).position source offset
            = ((ofSource source).lineOf offset, (lastLine before).length + 1) ∧
          (lastLine before).length + 1 ≤ maxOffset) := by
  refine ⟨ascends source, fun n hn => le_utf8ByteSize_of_mem hn, ?_, fun offset =>
    ⟨lineFound_lineOf source offset, fun h => ?_⟩⟩
  · exact (lineCount_le source).trans hsize
  · obtain ⟨before, behind, hsource, hbefore⟩ := exists_before h
    have hposition : (ofSource source).position source offset
        = (before.count '\n' + 1, (lastLine before).length + 1) := by
      rw [← position_min, hbefore, position_ofSource hsource]
    have hline : (ofSource source).lineOf offset = before.count '\n' + 1 :=
      congrArg Prod.fst hposition
    exact ⟨before, behind, hsource, hbefore.symm, hline, hline ▸ hposition,
      (Nat.succ_le_succ (length_lastLine_le hsource)).trans hsize⟩

/-- A place behind a character of four bytes, an offset inside that character and one past the
end. -/
theorem position_exact_four_bytes :
    "é\nab😀\r\n".utf8ByteSize < maxOffset ∧ String.Pos.Raw.IsValid "é\nab😀\r\n" ⟨9⟩ ∧
    (ofSource "é\nab😀\r\n").position "é\nab😀\r\n" 9 = (2, 4) ∧
    LineFound "é\nab😀\r\n" 7 2 ∧
    (ofSource "é\nab😀\r\n").position "é\nab😀\r\n" 100 = (3, 1) := by
  have hsize : "é\nab😀\r\n".utf8ByteSize < maxOffset := by decide
  have hvalid : String.Pos.Raw.IsValid "é\nab😀\r\n" ⟨9⟩ := by decide
  obtain ⟨-, -, -, h⟩ := position_exact hsize
  have hline : (ofSource "é\nab😀\r\n").lineOf 7 = 2 := by decide
  refine ⟨hsize, hvalid, ?_, hline ▸ (h 7).1, ?_⟩
  · obtain ⟨before, behind, hsource, hbefore, hline, hposition, -⟩ := (h 9).2 (.inl hvalid)
    cases eq_of_slice? ['é', '\n', 'a', 'b', '😀'] rfl hsource hbefore
    rw [hposition, hline]
    decide
  · obtain ⟨before, behind, hsource, hbefore, hline, hposition, -⟩ := (h 100).2 (.inr (by decide))
    cases eq_of_slice? ['é', '\n', 'a', 'b', '😀', '\r', '\n'] rfl hsource hbefore
    rw [hposition, hline]
    decide

end LineTable

end FlatScript
