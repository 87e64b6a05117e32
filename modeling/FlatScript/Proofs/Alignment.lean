import FlatScript.Proofs.Carets
import FlatScript.Proofs.Numeral
import FlatScript.Proofs.Offsets

/-!
# Rows that stand one below the other

A label is written as a line for its place and three rows: an empty one, the line of the source, and
the carets.  All three begin alike, with a field as wide as the line number and a bar
(`Snippet.margin`), so their bars and what is behind them stand in the same columns.  The carets are
moved in by the characters before the place, and so is the character at the place, if the line is
shown that far.  Whether it is depends on what is left of the line behind the place alone
(`Snippet.reaches_iff`).

Main statement, `Exhibit.render_aligned`.
-/

namespace FlatScript

open Text

namespace Text

/-- A character is first where it follows characters of other kinds. -/
theorem idxOf_append_cons {c : Char} {cs : List Char} (h : c ∉ cs) (ds : List Char) :
    (cs ++ c :: ds).idxOf c = cs.length := by
  rw [List.idxOf_append, if_neg h, List.idxOf_cons_self, Nat.zero_add]

theorem not_mem_toString {c : Char} (h : c.isDigit = false) (n : Nat) :
    c ∉ (toString n).toList := by
  intro hc
  have hdigit := Integer.digits_toDigits n c (Nat.toList_repr ▸ hc)
  rw [h] at hdigit
  cases hdigit

end Text

/-! ## Rows -/

namespace Snippet

theorem toList_row (n : Nat) (c : Char) : (row n c).toList = List.replicate n c :=
  String.toList_ofList

/-- What a row begins with: a field, and the bar behind it. -/
def margin (field : String) : String := "  " ++ field ++ " |"

theorem toList_margin (field : String) :
    (margin field).toList = (' ' :: ' ' :: field.toList ++ [' ']) ++ ['|'] := by
  simp [margin]

theorem length_margin (field : String) : (margin field).length = field.length + 4 := by
  rw [← String.length_toList, toList_margin]
  simp [String.length_toList]

theorem not_mem_margin {c : Char} {field : String} (hc : c ∉ [' ', '|']) (h : c ∉ field.toList) :
    c ∉ (margin field).toList := by
  simp_all [toList_margin]

/-- The bar of a row is the first one, whatever is behind it. -/
theorem bar_margin {field : String} (h : '|' ∉ field.toList) (rest : String) :
    '|' ∈ (margin field ++ rest).toList ∧
      (margin field ++ rest).toList.idxOf '|' = field.length + 3 := by
  rw [String.toList_append, toList_margin, List.append_assoc, List.singleton_append]
  constructor
  · simp
  · rw [idxOf_append_cons (by simp [h])]
    simp [String.length_toList]

variable (s : Snippet)

/-- The row above the line. -/
def top : String := margin s.gutter

/-- The row with the line. -/
def numbered : String := margin (toString s.line) ++ " " ++ s.text

/-- The row with the carets. -/
def marked : String := margin s.gutter ++ " " ++ row (s.column - 1) ' ' ++ s.caretRow

/-- The rows, from top to bottom. -/
def rows : List String := [s.top, s.numbered, s.marked]

/-- The snippet is its rows, one below the other. -/
theorem lead_append_caretRow :
    s.lead ++ s.caretRow = s.top ++ "\n" ++ s.numbered ++ "\n" ++ s.marked := by
  -- each bar ends the margin of its row
  have hlead : s.lead = "  " ++ s.gutter ++ (" |" ++ "\n")
      ++ "  " ++ toString s.line ++ (" |" ++ " ") ++ s.text ++ "\n"
      ++ "  " ++ s.gutter ++ (" |" ++ " ") ++ row (s.column - 1) ' ' := rfl
  rw [hlead]
  simp only [top, numbered, marked, margin, String.append_assoc]

theorem length_gutter : s.gutter.length = (toString s.line).length := by
  simp [gutter, row]

theorem not_mem_gutter {c : Char} (h : c ≠ ' ') : c ∉ s.gutter.toList := by
  rw [gutter, toList_row]
  intro hc
  exact h (List.eq_of_mem_replicate hc)

/-- The bars stand in the column behind a field as wide as the line number. -/
theorem bar_rows : ∀ r ∈ s.rows, '|' ∈ r.toList ∧
    r.toList.idxOf '|' = (toString s.line).length + 3 := by
  have hgutter := bar_margin (s.not_mem_gutter (c := '|') (by decide))
  have hline := bar_margin (not_mem_toString (c := '|') rfl s.line)
  rw [length_gutter] at hgutter
  simp only [rows, List.forall_mem_cons]
  refine ⟨?_, ?_, ?_, nofun⟩
  · have := hgutter ""
    rwa [String.append_empty] at this
  · rw [numbered, String.append_assoc]
    exact hline _
  · rw [marked, String.append_assoc, String.append_assoc]
    exact hgutter _

theorem toList_numbered :
    s.numbered.toList = ((margin (toString s.line)).toList ++ [' ']) ++ s.text.toList := by
  rw [numbered, String.toList_append, String.toList_append]
  rfl

theorem toList_marked : s.marked.toList = ((margin s.gutter).toList ++ [' ']
    ++ List.replicate (s.column - 1) ' ') ++ List.replicate s.carets '^' := by
  rw [marked, caretRow, String.toList_append, String.toList_append, String.toList_append,
    toList_row, toList_row]
  rfl

/-- Rows are not broken, if the text is not. -/
theorem not_mem_rows (h : '\n' ∉ s.text.toList) : ∀ r ∈ s.rows, '\n' ∉ r.toList := by
  have hgutter := not_mem_margin (c := '\n') (by decide) (s.not_mem_gutter (by decide))
  have hline := not_mem_margin (c := '\n') (by decide) (not_mem_toString rfl s.line)
  simp only [rows, List.forall_mem_cons, toList_numbered, toList_marked, List.mem_append, not_or]
  refine ⟨hgutter, ⟨⟨hline, by decide⟩, h⟩, ⟨⟨⟨hgutter, by decide⟩, ?_⟩, ?_⟩, nofun⟩
  · simp
  · simp

/-! ## Columns -/

/-- How many characters stand left of the text. -/
def indent : Nat := (toString s.line).length + 5

theorem length_left : ("  " ++ toString s.line ++ " | ").length = s.indent := by
  have htwo : "  ".length = 2 := rfl
  have hthree : " | ".length = 3 := rfl
  rw [String.length_append, String.length_append, htwo, hthree, indent]
  omega

theorem length_margin_line : ((margin (toString s.line)).toList ++ [' ']).length = s.indent := by
  rw [List.length_append, String.length_toList, length_margin]
  rfl

theorem length_margin_gutter : ((margin s.gutter).toList ++ [' ']).length = s.indent := by
  rw [List.length_append, String.length_toList, length_margin, length_gutter]
  rfl

theorem length_numbered : s.numbered.length = s.indent + s.text.length := by
  rw [← String.length_toList, toList_numbered, List.length_append, length_margin_line,
    String.length_toList]

theorem getElem?_numbered (i : Nat) : s.numbered.toList[s.indent + i]? = s.text.toList[i]? := by
  rw [toList_numbered, ← length_margin_line, List.getElem?_append_right (Nat.le_add_right _ _),
    Nat.add_sub_cancel_left]

theorem length_marked : s.marked.length = s.indent + (s.column - 1) + s.carets := by
  rw [← String.length_toList, toList_marked, List.length_append, List.length_append,
    length_margin_gutter, List.length_replicate, List.length_replicate]

/-- The carets are moved in by the characters before the column. -/
theorem idxOf_caret (h : 0 < s.carets) :
    s.marked.toList.idxOf '^' = s.indent + (s.column - 1) := by
  obtain ⟨n, hn⟩ := Nat.exists_eq_add_one.mpr h
  have hgutter := not_mem_margin (c := '^') (by decide) (s.not_mem_gutter (by decide))
  rw [toList_marked, hn, List.replicate_succ, idxOf_append_cons, List.length_append,
    length_margin_gutter, List.length_replicate]
  simp [hgutter]

theorem drop_marked :
    s.marked.toList.drop (s.indent + (s.column - 1)) = List.replicate s.carets '^' := by
  rw [toList_marked]
  refine List.drop_left' ?_
  rw [List.length_append, length_margin_gutter, List.length_replicate]

/-! ## How many carets -/

section CaretCount

variable {text : String} {column : Nat} (width : Nat)

theorem caretCount_pos (text : String) (column : Nat) : 1 ≤ caretCount text column width :=
  Nat.le_max_right _ _

/-- Carets below the text end where it does, if not before. -/
theorem add_caretCount_le (hpos : 0 < column) (h : column ≤ text.length) :
    column - 1 + caretCount text column width ≤ text.length := by
  rw [caretCount]
  omega

theorem caretCount_eq_one (h : text.length < column) : caretCount text column width = 1 := by
  rw [caretCount]
  omega

end CaretCount

/-! ## The snippet of a place -/

/-- How a snippet stands to a place of its source, given by the characters before and behind it. -/
structure Aligned (s : Snippet) (source : String) (before behind : List Char) : Prop where
  position : (LineTable.ofSource source).position source (byteLength before) = (s.line, s.column)
  line : s.line = before.count '\n' + 1
  column : s.column = (lastLine before).length + 1
  fits : s.line ≤ maxOffset ∧ s.column ≤ maxOffset
  text : (LineTable.ofSource source).lineText? source s.line = some s.text
  unbroken : ∀ r ∈ s.rows, '\n' ∉ r.toList
  bars : ∀ r ∈ s.rows, '|' ∈ r.toList ∧ r.toList.idxOf '|' = (toString s.line).length + 3
  /-- The first caret is where the character behind the place would be shown. -/
  caret : s.marked.toList.idxOf '^'
    = ("  " ++ toString s.line ++ " | " ++ String.ofList (lastLine before)).length
  carets : s.marked.toList.drop (s.marked.toList.idxOf '^') = List.replicate s.carets '^'
  pos : 1 ≤ s.carets
  reaches : s.column ≤ s.text.length ↔ ∃ c ∈ firstLine behind, c ≠ '\r'
  /-- Where it is shown, and the carets end with the text, if not before. -/
  within : s.column ≤ s.text.length → s.marked.length ≤ s.numbered.length ∧
    ∃ c, behind.head? = some c ∧ s.numbered.toList[s.marked.toList.idxOf '^']? = some c
  single : s.text.length < s.column → s.carets = 1

section Place

variable {source : String} {span : Span} {before behind : List Char}

/-- The text of a line goes on behind the place, or ends at the place at the latest. -/
theorem reaches_iff : (lastLine before).length
      < (LineTable.trimmed (lastLine before ++ firstLine behind)).length ↔
    LineTable.trimmed (firstLine behind) ≠ [] := by
  constructor
  · intro hlt hnil
    rw [LineTable.trimmed_append_of_eq_nil hnil] at hlt
    exact Nat.not_lt_of_le (LineTable.trimmed_prefix _).length_le hlt
  · intro hne
    rw [LineTable.trimmed_append_of_ne_nil hne, List.length_append]
    exact Nat.lt_add_of_pos_right (List.length_pos_iff.mpr hne)

theorem trimmed_firstLine_ne_nil_iff :
    LineTable.trimmed (firstLine behind) ≠ [] ↔ ∃ c ∈ firstLine behind, c ≠ '\r' := by
  have hline := not_mem_firstLine behind
  rw [Ne, LineTable.trimmed_eq_nil_iff]
  constructor
  · intro h
    push Not at h
    obtain ⟨c, hc, -, hr⟩ := h
    exact ⟨c, hc, hr⟩
  · rintro ⟨c, hc, hr⟩ h
    rcases h c hc with rfl | rfl
    · exact hline hc
    · exact hr rfl

/-- What is shown first behind the place is the character that is there. -/
theorem head?_trimmed (h : LineTable.trimmed (firstLine behind) ≠ []) :
    ∃ c, behind.head? = some c ∧ (LineTable.trimmed (firstLine behind)).head? = some c := by
  obtain ⟨c, cs, hcs⟩ := List.exists_cons_of_ne_nil h
  have hprefix : c :: cs <+: behind := hcs ▸
    (LineTable.trimmed_prefix _).trans (List.takeWhile_prefix _)
  obtain ⟨rest, hrest⟩ := hprefix
  refine ⟨c, ?_, ?_⟩
  · rw [← hrest]
    rfl
  · rw [hcs]
    rfl

theorem aligned_ofSpan (hsize : source.utf8ByteSize < maxOffset)
    (h : source.toList = before ++ behind) (hs : span.start = byteLength before) :
    (ofSpan source span).Aligned source before behind := by
  have hcarets : (ofSpan source span).carets
      = caretCount (ofSpan source span).text (ofSpan source span).column span.width := rfl
  have heq := ofSpan_eq h hs
  generalize ofSpan source span = s at hcarets heq ⊢
  have hline : s.line = before.count '\n' + 1 := by rw [heq]
  have hcolumn : s.column = (lastLine before).length + 1 := by rw [heq]
  have htext : s.text.toList = LineTable.trimmed (lastLine before ++ firstLine behind) := by
    rw [heq, String.toList_ofList]
  have hpos : 1 ≤ s.carets := hcarets ▸ caretCount_pos _ _ _
  have hreach : s.column ≤ s.text.length ↔ LineTable.trimmed (firstLine behind) ≠ [] := by
    rw [hcolumn, ← String.length_toList, htext]
    exact reaches_iff
  have hcaret := s.idxOf_caret hpos
  refine
    { position := ?_, line := hline, column := hcolumn, fits := ⟨?_, ?_⟩, text := ?_, unbroken := ?_,
      bars := s.bar_rows, caret := ?_, carets := ?_, pos := hpos, reaches := ?_, within := ?_,
      single := ?_ }
  · rw [hline, hcolumn]
    exact LineTable.position_ofSource h
  · rw [hline, ← LineTable.lineOf_ofSource h]
    exact List.countP_le_length.trans ((LineTable.lineCount_le source).trans hsize)
  · rw [hcolumn]
    exact (Nat.succ_le_succ (LineTable.length_lastLine_le h)).trans hsize
  · rw [hline, LineTable.lineText?_ofSource h, ← htext, String.ofList_toList]
  · refine s.not_mem_rows ?_
    rw [htext]
    intro hn
    rcases List.mem_append.mp ((LineTable.trimmed_prefix _).subset hn) with hn | hn
    · exact not_mem_lastLine before hn
    · exact not_mem_firstLine behind hn
  · rw [hcaret, String.length_append, length_left, String.length_ofList, hcolumn,
      Nat.add_sub_cancel]
  · rw [hcaret]
    exact s.drop_marked
  · rw [hreach]
    exact trimmed_firstLine_ne_nil_iff
  · intro hle
    obtain ⟨c, hbehind, hc⟩ := head?_trimmed (hreach.mp hle)
    refine ⟨?_, c, hbehind, ?_⟩
    · rw [length_marked, length_numbered, hcarets, Nat.add_assoc]
      exact Nat.add_le_add_left (add_caretCount_le _ (by omega) hle) _
    · rw [hcaret, getElem?_numbered, htext, LineTable.trimmed_append_of_ne_nil (hreach.mp hle),
        hcolumn, Nat.add_sub_cancel, List.getElem?_append_right (Nat.le_refl _), Nat.sub_self,
        ← List.head?_eq_getElem?, hc]
  · intro hlt
    rw [hcarets]
    exact caretCount_eq_one _ hlt

end Place

end Snippet

/-! ## The text of diagnostics -/

theorem Piece.renderAll_flatMap {α : Type} (colours : Bool) (f : α → List Piece) (as : List α) :
    renderAll colours (as.flatMap f) = String.join (as.map fun a => renderAll colours (f a)) := by
  induction as with
  | nil => rfl
  | cons a as ih =>
      rw [List.flatMap_cons, renderAll_append, ih, List.map_cons, String.join_cons]

namespace Exhibit

/-- A label without colours: its place, the rows of its snippet, and its message. -/
def labelText (x : Exhibit) (source : String) (l : Label) : String :=
  let s := Snippet.ofSpan source l.span
  "  --> " ++ s!"{x.shownPath}:{s.line}:{s.column}" ++ "\n"
    ++ (s.top ++ "\n" ++ s.numbered ++ "\n" ++ s.marked) ++ " " ++ l.message ++ "\n"

/-- A diagnostic without colours: its labels between headline and remarks. -/
def diagnosticText (x : Exhibit) (source : String) (d : Diagnostic) : String :=
  d.headline ++ "\n" ++ String.join (d.labels.map (x.labelText source)) ++ remarks d ++ "\n"

variable {x : Exhibit} {source : String}

theorem renderAll_labelPieces (hx : x.source = some source) (l : Label) :
    Piece.renderAll false (x.labelPieces l) = x.labelText source l := by
  let s := Snippet.ofSpan source l.span
  calc Piece.renderAll false (x.labelPieces l)
      = "  --> " ++ s!"{x.shownPath}:{s.line}:{s.column}" ++ "\n" ++ (s.lead ++ s.caretRow)
          ++ " " ++ l.message ++ "\n" := by
        simp only [s, labelPieces, location, hx, Piece.renderAll_cons, Piece.renderAll_nil,
          Piece.render_false, Piece.plain, Piece.painted, List.cons_append, List.nil_append,
          String.append_assoc, String.append_empty]
    _ = x.labelText source l := by
        rw [s.lead_append_caretRow]
        rfl

theorem render_eq (hx : x.source = some source) (ds : List Diagnostic) :
    x.render false ds = String.join (ds.map (x.diagnosticText source)) := by
  rw [render, Piece.renderAll_flatMap]
  refine congrArg String.join (List.map_congr_left ?_)
  intro d _
  simp only [pieces, diagnosticText, remarks, Diagnostic.headline, Piece.renderAll_append,
    Piece.renderAll_flatMap, renderAll_labelPieces hx, Piece.renderAll_cons, Piece.renderAll_nil,
    Piece.render_false, Piece.plain, Piece.painted, String.append_assoc, String.append_empty]

/-- Of diagnostics with a source that a span can point into, all labels are written with the place
and the snippet of their spans; and each snippet is aligned with the place at which the span starts,
wherever the span ends. -/
theorem render_aligned (hx : x.source = some source) (hsize : source.utf8ByteSize < maxOffset) :
    (∀ ds, x.render false ds = String.join (ds.map (x.diagnosticText source))) ∧
    ∀ l : Label, String.Pos.Raw.IsValid source ⟨l.span.start⟩ →
      ∃ before behind, source.toList = before ++ behind ∧ byteLength before = l.span.start ∧
        (Snippet.ofSpan source l.span).Aligned source before behind := by
  refine ⟨render_eq hx, ?_⟩
  intro l hvalid
  obtain ⟨before, behind, hsource, hstart⟩ := exists_append_of_isValid hvalid
  exact ⟨before, behind, hsource, hstart.symm, Snippet.aligned_ofSpan hsize hsource hstart⟩

/-- Two carets below a character of two bytes, and one for the line feed behind a carriage return, to
the right of what is shown. -/
theorem render_aligned_two_bytes :
    let s := Snippet.ofSpan "ye é = 1;\r\n" ⟨3, 5, by decide, by decide⟩
    let t := Snippet.ofSpan "ye é = 1;\r\n" ⟨11, 12, by decide, by decide⟩
    "ye é = 1;\r\n".utf8ByteSize < maxOffset ∧
    String.Pos.Raw.IsValid "ye é = 1;\r\n" ⟨3⟩ ∧ String.Pos.Raw.IsValid "ye é = 1;\r\n" ⟨11⟩ ∧
    s.marked.toList.idxOf '^' = 9 ∧ s.numbered.toList[9]? = some 'é' ∧
    t.marked.toList.idxOf '^' = 16 ∧ t.numbered.length = 15 ∧ t.carets = 1 := by
  intro s t
  have hsize : "ye é = 1;\r\n".utf8ByteSize < maxOffset := by decide
  have hs : String.Pos.Raw.IsValid "ye é = 1;\r\n" ⟨3⟩ := by decide
  have ht : String.Pos.Raw.IsValid "ye é = 1;\r\n" ⟨11⟩ := by decide
  obtain ⟨-, haligned⟩ := render_aligned (x := ⟨some "ye é = 1;\r\n", none⟩) rfl hsize
  obtain ⟨before, behind, hsource, hbefore, h⟩ := haligned ⟨⟨3, 5, by decide, by decide⟩, ""⟩ hs
  cases eq_of_slice? ['y', 'e', ' '] rfl hsource hbefore
  have hcaret : s.marked.toList.idxOf '^' = 9 := by
    rw [h.caret, h.line]
    decide
  obtain ⟨-, c, hc, hshown⟩ := h.within (by decide)
  cases List.append_cancel_left
    (show ['y', 'e', ' '] ++ ['é', ' ', '=', ' ', '1', ';', '\r', '\n'] = _ from hsource)
  cases hc
  rw [hcaret] at hshown
  obtain ⟨before', behind', hsource', hbefore', h'⟩ :=
    haligned ⟨⟨11, 12, by decide, by decide⟩, ""⟩ ht
  cases eq_of_slice? ['y', 'e', ' ', 'é', ' ', '=', ' ', '1', ';', '\r'] rfl
    hsource' hbefore'
  have hcaret' : t.marked.toList.idxOf '^' = 16 := by
    rw [h'.caret, h'.line]
    decide
  exact ⟨hsize, hs, ht, hcaret, hshown, hcaret', by decide, h'.single (by decide)⟩

end Exhibit

end FlatScript
