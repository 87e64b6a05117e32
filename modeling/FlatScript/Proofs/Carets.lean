import FlatScript.Proofs.Lines
import FlatScript.Proofs.Location
import FlatScript.Report.Exhibit

/-!
# Carets below what a problem points at

A diagnostic shows the line of its label and a row of carets below it.  The row begins right below
the first character that the span covers.  Its width comes from two measures, the bytes of the span
and the characters that are left on the line, so it fits the covered characters exactly if they are
single bytes or nothing follows them on the line.

Main statement, `program_error_carets`.
-/

namespace FlatScript

/-! ## The text of an exhibit -/

namespace Piece

variable (colours : Bool)

theorem render_false (p : Piece) : p.render false = p.text := rfl

theorem renderAll_nil : renderAll colours [] = "" := rfl

theorem renderAll_append (ps qs : List Piece) :
    renderAll colours (ps ++ qs) = renderAll colours ps ++ renderAll colours qs := by
  rw [renderAll, List.map_append, String.join_append]
  rfl

theorem renderAll_cons (p : Piece) (ps : List Piece) :
    renderAll colours (p :: ps) = p.render colours ++ renderAll colours ps := by
  rw [renderAll, List.map_cons, String.join_cons]
  rfl

end Piece

namespace Exhibit

/-- The remarks below the labels. -/
def remarks (d : Diagnostic) : String :=
  Piece.renderAll false (d.notes.flatMap (remarkPieces .bold "note")
    ++ d.suggestions.flatMap (remarkPieces .help "help"))

/-- The text of a diagnostic with a single label, whose snippet is given. -/
def labelled (x : Exhibit) (d : Diagnostic) (message : String) (s : Snippet) : String :=
  d.headline ++ "\n"
    ++ "  --> " ++ s!"{x.shownPath}:{s.line}:{s.column}" ++ "\n"
    ++ s.lead ++ s.caretRow ++ " " ++ message ++ "\n"
    ++ remarks d ++ "\n"

variable {x : Exhibit} {source : String} {d : Diagnostic} {l : Label}

/-- Without colours, a diagnostic with a single label is its snippet between headline and
remarks. -/
theorem render_singleton (hx : x.source = some source) (hl : d.labels = [l]) :
    x.render false [d] = x.labelled d l.message (Snippet.ofSpan source l.span) := by
  simp only [render, labelled, remarks, pieces, labelPieces, location, hx, hl,
    List.flatMap_singleton, Piece.renderAll_append, Piece.renderAll_cons, Piece.renderAll_nil,
    Piece.render_false, Piece.plain, Piece.painted, Diagnostic.headline, String.append_assoc,
    String.append_empty]

end Exhibit

/-! ## The snippet of a place -/

open Text LineTable

namespace Snippet

variable {source : String} {s : Span} {before piece behind : List Char}

/-- The snippet of a span that starts behind some characters. -/
theorem ofSpan_eq (h : source.toList = before ++ behind) (hs : s.start = byteLength before) :
    ofSpan source s =
      let line := trimmed (lastLine before ++ firstLine behind)
      ⟨before.count '\n' + 1, (lastLine before).length + 1, String.ofList line,
        max (min s.width (line.length - (lastLine before).length)) 1⟩ := by
  simp only [ofSpan, hs, position_ofSource h, lineText?_ofSource h, Option.getD_some, caretCount,
    String.length_ofList, Nat.add_sub_cancel]

/-- What is left of the line behind a place, for covered characters that do not end it. -/
theorem trimmed_line (hpiece : ∀ c ∈ piece, c ≠ '\n' ∧ c ≠ '\r') (hne : piece ≠ []) :
    trimmed (lastLine before ++ firstLine (piece ++ behind))
      = lastLine before ++ (piece ++ trimmed (firstLine behind)) := by
  have hn : '\n' ∉ piece := by
    intro h
    exact (hpiece _ h).1 rfl
  rw [firstLine_append hn, ← List.append_assoc, ← List.append_assoc]
  refine trimmed_append ?_ (firstLine behind)
  intro c hc
  rw [List.getLast?_append_of_ne_nil _ hne] at hc
  exact hpiece c (List.mem_of_getLast? hc)

/-- The carets below covered characters: as many as there are bytes, up to the end of the line. -/
theorem carets_ofSpan (h : source.toList = before ++ (piece ++ behind))
    (hstart : s.start = byteLength before) (hstop : s.stop = s.start + byteLength piece)
    (hpiece : ∀ c ∈ piece, c ≠ '\n' ∧ c ≠ '\r') :
    (ofSpan source s).carets
      = max 1 (min (byteLength piece) (piece.length + (trimmed (firstLine behind)).length)) := by
  have hwidth : s.width = byteLength piece := by
    rw [Span.width, hstop, Nat.add_sub_cancel_left]
  rw [ofSpan_eq h hstart, hwidth, Nat.max_comm]
  rcases eq_or_ne piece [] with rfl | hne
  · simp only [byteLength_nil, Nat.zero_min]
  · simp only [trimmed_line hpiece hne, List.length_append, Nat.add_sub_cancel_left]

/-- The carets fit exactly if the characters are single bytes, or the last on their line. -/
theorem carets_eq_iff (piece behind : List Char) :
    max 1 (min (byteLength piece) (piece.length + (trimmed (firstLine behind)).length))
        = max 1 piece.length ↔
      byteLength piece = piece.length ∨ trimmed (firstLine behind) = [] := by
  rw [← List.length_eq_zero_iff]
  rcases eq_or_ne piece [] with rfl | hne
  · simp
  · have hpos := List.length_pos_iff.mpr hne
    have hle := length_le_byteLength piece
    omega

end Snippet

/-! ## What a problem points at -/

theorem Span.Covers.exists_slices {s : Span} {source : String} {piece behind : List Char}
    (h : s.Covers 0 source.toList piece behind) :
    ∃ before, source.toList = before ++ (piece ++ behind) ∧ s.start = byteLength before ∧
      slice? source.toList 0 s.start = some before ∧
      slice? source.toList s.start s.stop = some piece ∧
      slice? source.toList s.stop source.utf8ByteSize = some behind := by
  obtain ⟨before, hsource, hstart, hstop⟩ := h
  rw [Nat.zero_add] at hstart
  refine ⟨before, hsource, hstart, ?_, ?_, ?_⟩
  · rw [hsource, hstart]
    exact slice?_prefix before (piece ++ behind)
  · rw [hstop, hstart, hsource]
    exact slice?_append before piece behind
  · have := slice?_append (before ++ piece) behind []
    rwa [List.append_nil, List.append_assoc, ← hsource, ← byteLength_append, List.append_assoc,
      ← hsource, byteLength_append, ← hstart, ← hstop, ← utf8ByteSize_eq] at this

namespace Script

variable {K : Reserved} {source : String} {p : Problem}

/-- Whatever stops a script from being read is shown with the line it is on, and with carets that
begin below the first character its span covers.  There are as many carets as characters, and one
if there are none, exactly if the characters are single bytes or the last on their line; what the
reader complains of always is. -/
theorem program_error_carets (hsize : source.utf8ByteSize < maxOffset)
    (h : program K source = .error p) (path : Option String) :
    ∃ s l before piece behind n,
      p.span? = some s ∧ p.diagnostic.labels = [l] ∧ l.span = s ∧
      slice? source.toList 0 s.start = some before ∧
      slice? source.toList s.start s.stop = some piece ∧
      slice? source.toList s.stop source.utf8ByteSize = some behind ∧
      Exhibit.render ⟨some source, path⟩ false [p.diagnostic]
        = Exhibit.labelled ⟨some source, path⟩ p.diagnostic l.message
            ⟨before.count '\n' + 1, (lastLine before).length + 1,
              String.ofList (trimmed (lastLine before ++ firstLine (piece ++ behind))), n⟩ ∧
      n = max 1 (min (byteLength piece) (piece.length + (trimmed (firstLine behind)).length)) ∧
      (n = max 1 piece.length ↔
        byteLength piece = piece.length ∨ trimmed (firstLine behind) = []) ∧
      ∀ e, p = .parse e → n = max 1 piece.length := by
  obtain ⟨s, piece, behind, hp⟩ := exists_pointsAt hsize.le h
  obtain ⟨before, hsource, hstart, hs₁, hs₂, hs₃⟩ := hp.covers.exists_slices
  obtain ⟨message, hl⟩ := hp.shows.label
  have hpiece : ∀ c ∈ piece, c ≠ '\n' ∧ c ≠ '\r' := by
    intro c hc
    have hblank := hp.not_blank c hc
    constructor <;>
      · rintro rfl
        cases hblank
  have hstop : s.stop = s.start + byteLength piece := by
    obtain ⟨-, -, -, hstop⟩ := hp.covers
    exact hstop
  have hcarets := Snippet.carets_ofSpan hsource hstart hstop hpiece
  refine ⟨s, ⟨s, message⟩, before, piece, behind, _, hp.shows.span, hl, rfl, hs₁, hs₂, hs₃, ?_,
    hcarets, ?_, ?_⟩
  · rw [Exhibit.render_singleton rfl hl, Snippet.ofSpan_eq hsource hstart]
  · rw [hcarets]
    exact Snippet.carets_eq_iff piece behind
  · intro e he
    rw [hcarets, Snippet.carets_eq_iff]
    exact .inl (byteLength_ascii (hp.ascii e he))

/-- One character of two bytes in the middle of a line gets two carets. -/
theorem program_error_carets_two_bytes :
    ∃ p s piece l, program .standard "ye é = 1;" = .error p ∧ p.span? = some s ∧
      slice? "ye é = 1;".toList s.start s.stop = some piece ∧ piece.length = 1 ∧
      p.diagnostic.labels = [l] ∧
      Exhibit.render ⟨some "ye é = 1;", none⟩ false [p.diagnostic]
        = Exhibit.labelled ⟨some "ye é = 1;", none⟩ p.diagnostic l.message
            ⟨1, 4, "ye é = 1;", 2⟩ := by
  let e : LexError := .unrecognized 'é' 3 ⟨3, 5, by decide, by decide⟩
  have he : program .standard "ye é = 1;" = .error (.lex e) := by decide +kernel
  obtain ⟨s, l, before, piece, behind, n, hs, hl, -, hbefore, hpiece, hbehind, htext, hn, -⟩ :=
    program_error_carets (by decide) he none
  cases hs
  cases show some ['y', 'e', ' '] = some before from hbefore
  cases show some ['é'] = some piece from hpiece
  cases show some [' ', '=', ' ', '1', ';'] = some behind from hbehind
  subst hn
  exact ⟨.lex e, _, ['é'], l, he, rfl, rfl, rfl, hl, htext⟩

end Script

end FlatScript
