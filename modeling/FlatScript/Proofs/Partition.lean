import FlatScript.Proofs.Offsets

/-!
# The lines of a source

The lines that a table counts are the pieces between the line feeds of the source.  Each of them is
what stands around some place: the one at which the line starts (`exists_line`), where nothing of
the line is behind.  So the text of a line comes from the text of the line of a place, and the pieces
joined by line feeds are the source again, unless carriage returns are trimmed from them.

Main statement, `lines_partition`.
-/

namespace FlatScript

open Text

variable {k : Nat} {source : String} {cs piece : List Char}

/-! ## Pieces between line feeds -/

namespace Text

/-- The pieces between line feeds. -/
def pieces (cs : List Char) : List (List Char) := cs.splitOn '\n'

theorem pieces_eq_singleton (h : '\n' ∉ cs) : pieces cs = [cs] := List.splitOn_eq_singleton h

theorem pieces_append (h : '\n' ∉ cs) (rest : List Char) :
    pieces (cs ++ '\n' :: rest) = cs :: pieces rest :=
  List.splitOn_append_cons_self_of_not_mem h rest

/-- Pieces are peeled off one by one. -/
theorem pieces_cases (cs : List Char) :
    pieces cs = [firstLine cs] ∨
      ∃ rest, cs = firstLine cs ++ '\n' :: rest ∧ pieces cs = firstLine cs :: pieces rest := by
  have hfirst := not_mem_firstLine cs
  rcases firstLine_cases cs with h | ⟨rest, h⟩
  · left
    rw [← h] at hfirst ⊢
    exact pieces_eq_singleton hfirst
  · refine .inr ⟨rest, h, ?_⟩
    rw [← pieces_append hfirst, ← h]

theorem length_pieces (cs : List Char) : (pieces cs).length = cs.count '\n' + 1 := by
  induction cs with
  | nil => rfl
  | cons c cs ih =>
      rw [pieces, List.splitOn_cons_eq_if_modifyHead, List.count_cons]
      split
      · exact congrArg (· + 1) ih
      · rw [List.length_modifyHead]
        exact ih

theorem lastLine_newline (cs ds : List Char) : lastLine (cs ++ '\n' :: ds) = lastLine ds := by
  induction ds using List.reverseRecOn with
  | nil => exact List.rtakeWhile_concat_neg _ _ _ (by decide)
  | append_singleton ds d ih =>
      rw [← List.cons_append, ← List.append_assoc, lastLine, lastLine, List.rtakeWhile_concat,
        List.rtakeWhile_concat, ← lastLine, ih]
      rfl

/-- A piece is the first line from the place on at which it starts. -/
theorem exists_line (h : (pieces cs)[k]? = some piece) :
    ∃ before behind, cs = before ++ behind ∧ before.count '\n' = k ∧ lastLine before = [] ∧
      firstLine behind = piece := by
  induction k generalizing cs with
  | zero =>
      refine ⟨[], cs, rfl, rfl, rfl, ?_⟩
      rcases pieces_cases cs with hcs | ⟨rest, -, hcs⟩ <;>
        · rw [hcs] at h
          exact Option.some.inj h
  | succ k ih =>
      rcases pieces_cases cs with hcs | ⟨rest, hrest, hcs⟩
      · rw [hcs] at h
        cases h
      · rw [hcs, List.getElem?_cons_succ] at h
        obtain ⟨before, behind, rfl, hcount, hlast, hfirst⟩ := ih h
        refine ⟨firstLine cs ++ '\n' :: before, behind, ?_, ?_, ?_, hfirst⟩
        · rwa [List.append_assoc]
        · rw [List.count_append, List.count_eq_zero_of_not_mem (not_mem_firstLine cs),
            List.count_cons_self, hcount, Nat.zero_add]
        · rw [lastLine_newline, hlast]

end Text

namespace LineTable

/-! ## Texts of lines -/

/-- The text that a piece between line feeds is shown as. -/
def shown (piece : List Char) : String := String.ofList (piece.rdropWhile (· == '\r'))

theorem trimmed_of_not_mem (h : '\n' ∉ cs) : trimmed cs = cs.rdropWhile (· == '\r') := by
  induction cs using List.reverseRecOn with
  | nil => rfl
  | append_singleton cs c ih =>
      by_cases hc : c = '\r'
      · subst hc
        rw [trimmed_concat (.inr rfl), List.rdropWhile_concat_pos (· == '\r') cs '\r' rfl]
        exact ih fun hn => h (List.mem_append_left _ hn)
      · have hn : c ≠ '\n' := by
          rintro rfl
          exact h List.mem_concat_self
        rw [List.rdropWhile_concat_neg (· == '\r') cs c (mt eq_of_beq hc)]
        refine trimmed_eq_self fun d hd => ?_
        rw [List.getLast?_concat] at hd
        cases hd
        exact ⟨hn, hc⟩

theorem shown_eq_ofList (h : '\r' ∉ piece) : shown piece = String.ofList piece := by
  refine congrArg String.ofList (List.rdropWhile_eq_self_iff.mpr fun hne hlast => ?_)
  rw [beq_iff_eq] at hlast
  exact h (hlast ▸ List.getLast_mem hne)

theorem startOf?_eq_none {t : LineTable} (h : t.lineCount < k) : t.startOf? k = none := by
  rw [startOf?, if_neg (Nat.ne_zero_of_lt h)]
  exact List.getElem?_eq_none (Nat.le_sub_one_of_lt h)

/-- Lines are the pieces of the source, in their order. -/
theorem lineText?_succ (source : String) (k : Nat) :
    (ofSource source).lineText? source (k + 1) = (pieces source.toList)[k]?.map shown := by
  cases h : (pieces source.toList)[k]? with
  | none =>
      have hk : (ofSource source).lineCount < k + 1 := by
        rw [lineCount_ofSource, ← length_pieces]
        exact Nat.lt_succ_of_le (List.getElem?_eq_none_iff.mp h)
      rw [lineText?, startOf?_eq_none hk]
      rfl
  | some piece =>
      obtain ⟨before, behind, hsource, rfl, hlast, rfl⟩ := exists_line h
      rw [lineText?_ofSource hsource, hlast, List.nil_append,
        trimmed_of_not_mem (not_mem_firstLine behind)]
      rfl

theorem intercalate_shown (h : '\r' ∉ source.toList) :
    "\n".intercalate ((pieces source.toList).map shown) = source := by
  have hshown : (pieces source.toList).map shown = (pieces source.toList).map String.ofList := by
    refine List.map_congr_left fun piece hpiece => shown_eq_ofList fun hr => h ?_
    obtain ⟨k, hk⟩ := List.getElem?_of_mem hpiece
    obtain ⟨before, behind, hsource, -, -, rfl⟩ := exists_line hk
    rw [hsource]
    exact List.mem_append_right _ ((List.takeWhile_prefix _).subset hr)
  have htoList : String.toList ∘ String.ofList = id := funext fun cs => String.toList_ofList
  rw [hshown, ← String.toList_inj, String.toList_intercalate, List.map_map, htoList, List.map_id]
  exact List.intercalate_splitOn '\n'

/-- The table of each source that a span can point into partitions it: there is one line more than
there are line feeds, the lines are the pieces between them without the carriage returns at the end,
and without any carriage returns their texts joined by line feeds are the source. -/
theorem lines_partition (hsize : source.utf8ByteSize < maxOffset) :
    (ofSource source).lineCount = source.toList.count '\n' + 1 ∧
    (ofSource source).lineCount ≤ maxOffset ∧
    (∀ n ∈ (ofSource source).starts, n ≤ source.utf8ByteSize) ∧
    (∀ k, ((ofSource source).lineText? source k).isSome ↔
      1 ≤ k ∧ k ≤ (ofSource source).lineCount) ∧
    (∀ k, (ofSource source).lineText? source (k + 1)
      = (source.toList.splitOn '\n')[k]?.map
          fun piece => String.ofList (piece.rdropWhile (· == '\r'))) ∧
    ∃ texts : List String, (∀ k, texts[k]? = (ofSource source).lineText? source (k + 1)) ∧
      ('\r' ∉ source.toList → "\n".intercalate texts = source) := by
  refine ⟨lineCount_ofSource source, (lineCount_le source).trans hsize,
    fun n hn => le_utf8ByteSize_of_mem hn, fun k => ?_, lineText?_succ source,
    (pieces source.toList).map shown, fun k => ?_, intercalate_shown⟩
  · cases k with
    | zero => exact iff_of_false (Bool.false_ne_true) (nofun)
    | succ k =>
        rw [lineText?_succ, Option.isSome_map, isSome_getElem?, lineCount_ofSource,
          ← length_pieces]
        exact ⟨fun h => ⟨Nat.succ_pos k, h⟩, fun h => h.2⟩
  · rw [lineText?_succ, List.getElem?_map]

/-- Carriage returns inside a line stay, those at its end go; and without any, an empty line and a
line feed at the end come back. -/
theorem lines_partition_returns :
    "é\r\r\nb\rc\r\n\r".utf8ByteSize < maxOffset ∧
    (ofSource "é\r\r\nb\rc\r\n\r").lineCount = 3 ∧
    (ofSource "é\r\r\nb\rc\r\n\r").lineText? "é\r\r\nb\rc\r\n\r" 2 = some "b\rc" ∧
    (ofSource "é\r\r\nb\rc\r\n\r").lineText? "é\r\r\nb\rc\r\n\r" 3 = some "" ∧
    "é\n\nb\n".utf8ByteSize < maxOffset ∧ '\r' ∉ "é\n\nb\n".toList ∧
    ∃ texts : List String, texts[1]? = some "" ∧ "\n".intercalate texts = "é\n\nb\n" := by
  have hsize : "é\r\r\nb\rc\r\n\r".utf8ByteSize < maxOffset := by decide
  have hsize' : "é\n\nb\n".utf8ByteSize < maxOffset := by decide
  have hr : '\r' ∉ "é\n\nb\n".toList := by decide
  obtain ⟨hcount, -, -, -, htext, -⟩ := lines_partition hsize
  obtain ⟨-, -, -, -, htext', texts, htexts, hjoin⟩ := lines_partition hsize'
  refine ⟨hsize, hcount.trans (by decide), (htext 1).trans (by decide), (htext 2).trans (by decide),
    hsize', hr, texts, ?_, hjoin hr⟩
  rw [htexts, htext']
  decide

end LineTable

end FlatScript
