import FlatScript.Proofs.Alignment

/-!
# Painted text and its escape sequences

Paint is put round pieces of text when they are joined.  Here the joined text is taken apart again
without knowing the pieces: `Escape.scan` reads characters from the left and takes each of the four
escape sequences for one symbol.  If no piece has an escape character of its own, it finds the paint
of the pieces and nothing else (`Piece.scan_renderAll`), so what is left without the sequences is the
text without paint, and the sequences come in pairs.

It remains that no piece of an exhibit has an escape character, unless a text that was given has one
(`Exhibit.plain_of_mem_pieces`): a line of the source is a part of it, and all else is fixed.

Main statement, `Exhibit.render_colours`.
-/

namespace FlatScript

/-! ## Escape sequences in a text -/

/-- An escape sequence: it begins a paint, or ends any. -/
inductive Escape where
  | opening (paint : Paint)
  | closing
deriving DecidableEq

namespace Escape

/-- Characters from the left, with escape sequences as symbols of their own. -/
def scan : List Char → List (Escape ⊕ Char)
  | '\x1b' :: '[' :: '1' :: ';' :: '3' :: '1' :: 'm' :: cs => .inl (.opening .error) :: scan cs
  | '\x1b' :: '[' :: '1' :: ';' :: '3' :: '2' :: 'm' :: cs => .inl (.opening .help) :: scan cs
  | '\x1b' :: '[' :: '1' :: 'm' :: cs => .inl (.opening .bold) :: scan cs
  | '\x1b' :: '[' :: '0' :: 'm' :: cs => .inl .closing :: scan cs
  | c :: cs => .inr c :: scan cs
  | [] => []

/-- A text without its escape sequences. -/
def erase (s : String) : String := String.ofList ((scan s.toList).filterMap Sum.getRight?)

/-- The escape sequences of a text, in order. -/
def marks (s : String) : List Escape := (scan s.toList).filterMap Sum.getLeft?

/-- Every paint is ended before the next one begins. -/
inductive Paired : List Escape → Prop
  | nil : Paired []
  | cons {es : List Escape} (paint : Paint) : Paired es → Paired (.opening paint :: .closing :: es)

/-- A paint that is begun and ended. -/
def pair (paint : Paint) : List Escape := [.opening paint, .closing]

theorem paired_flatMap (paints : List Paint) : Paired (paints.flatMap pair) := by
  induction paints with
  | nil => exact .nil
  | cons paint _ ih => exact .cons paint ih

end Escape

namespace Text

/-- The text has no escape character. -/
def Plain (s : String) : Prop := '\x1b' ∉ s.toList

instance (s : String) : Decidable (Plain s) := inferInstanceAs (Decidable (_ ∉ _))

theorem Plain.append {s t : String} (hs : Plain s) (ht : Plain t) : Plain (s ++ t) := by
  rw [Plain, String.toList_append, List.mem_append, not_or]
  exact ⟨hs, ht⟩

end Text

open Text (Plain)

namespace Escape

variable {cs : List Char}

theorem scan_opening (paint : Paint) (cs : List Char) :
    scan (paint.opening.toList ++ cs) = .inl (.opening paint) :: scan cs := by
  cases paint with
  | error => rfl
  | help => rfl
  | bold => rfl

theorem scan_closing (cs : List Char) :
    scan (Paint.closing.toList ++ cs) = .inl .closing :: scan cs := rfl

theorem scan_cons {c : Char} (h : c ≠ '\x1b') (cs : List Char) :
    scan (c :: cs) = .inr c :: scan cs := by
  rw [scan] <;> exact fun _ hc => absurd hc h

/-- Without an escape character no sequence begins. -/
theorem scan_plain (h : '\x1b' ∉ cs) (ds : List Char) :
    scan (cs ++ ds) = cs.map .inr ++ scan ds := by
  induction cs with
  | nil => rfl
  | cons c cs ih =>
      rw [List.mem_cons, not_or] at h
      rw [List.cons_append, scan_cons (Ne.symm h.1), ih h.2]
      rfl

end Escape

/-! ## Pieces -/

namespace Piece

open Escape

variable {p : Piece} {ps : List Piece}

/-- A piece as symbols: its characters, with the paint round them. -/
def symbols (p : Piece) : List (Escape ⊕ Char) :=
  match p.paint with
  | none => p.text.toList.map .inr
  | some paint => .inl (.opening paint) :: (p.text.toList.map .inr ++ [.inl .closing])

theorem symbols_some (paint : Paint) (text : String) : symbols ⟨some paint, text⟩
    = .inl (.opening paint) :: (text.toList.map .inr ++ [.inl .closing]) := rfl

theorem scan_render (h : Plain p.text) (cs : List Char) :
    scan ((p.render true).toList ++ cs) = p.symbols ++ scan cs := by
  obtain ⟨paint, text⟩ := p
  cases paint with
  | none => exact scan_plain h cs
  | some paint =>
      show scan ((paint.opening ++ text ++ Paint.closing).toList ++ cs) = _
      rw [String.toList_append, String.toList_append, List.append_assoc, List.append_assoc,
        scan_opening, scan_plain h, scan_closing]
      simp [symbols]

/-- In joined pieces, just their paint is found. -/
theorem scan_renderAll (h : ∀ p ∈ ps, Plain p.text) :
    scan (renderAll true ps).toList = ps.flatMap symbols := by
  induction ps with
  | nil => rfl
  | cons p ps ih =>
      obtain ⟨hp, hps⟩ := List.forall_mem_cons.mp h
      rw [renderAll_cons, String.toList_append, scan_render hp, ih hps, List.flatMap_cons]

theorem filterMap_inr_right (cs : List Char) :
    (cs.map Sum.inr).filterMap (@Sum.getRight? Escape Char) = cs := by
  rw [List.filterMap_map]
  exact List.filterMap_some

theorem filterMap_inr_left (cs : List Char) :
    (cs.map Sum.inr).filterMap (@Sum.getLeft? Escape Char) = [] := by
  rw [List.filterMap_map]
  exact List.filterMap_eq_nil_iff.mpr fun _ _ => rfl

theorem filterMap_symbols_right (p : Piece) : p.symbols.filterMap Sum.getRight? = p.text.toList := by
  obtain ⟨paint, text⟩ := p
  cases paint with
  | none => exact filterMap_inr_right text.toList
  | some paint =>
      rw [symbols_some, List.filterMap_cons_none rfl, List.filterMap_append, filterMap_inr_right]
      exact List.append_nil _

theorem filterMap_symbols_left (p : Piece) :
    p.symbols.filterMap Sum.getLeft? = p.paint.toList.flatMap pair := by
  obtain ⟨paint, text⟩ := p
  cases paint with
  | none => exact filterMap_inr_left text.toList
  | some paint =>
      rw [symbols_some, List.filterMap_cons, List.filterMap_append, filterMap_inr_left]
      rfl

theorem erase_renderAll (h : ∀ p ∈ ps, Plain p.text) :
    erase (renderAll true ps) = renderAll false ps := by
  rw [erase, scan_renderAll h]
  clear h
  induction ps with
  | nil => rfl
  | cons p ps ih =>
      rw [List.flatMap_cons, List.filterMap_append, filterMap_symbols_right, String.ofList_append, ih,
        String.ofList_toList, renderAll_cons, render_false]

theorem marks_renderAll (h : ∀ p ∈ ps, Plain p.text) :
    marks (renderAll true ps) = (ps.filterMap paint).flatMap pair := by
  rw [marks, scan_renderAll h]
  clear h
  induction ps with
  | nil => rfl
  | cons p ps ih =>
      rw [List.flatMap_cons, List.filterMap_append, filterMap_symbols_left, ih, List.filterMap_cons]
      cases p.paint with
      | none => rfl
      | some paint => rfl

theorem plain_renderAll (h : ∀ p ∈ ps, Plain p.text) : Plain (renderAll false ps) := by
  induction ps with
  | nil => exact List.not_mem_nil
  | cons p ps ih =>
      obtain ⟨hp, hps⟩ := List.forall_mem_cons.mp h
      rw [renderAll_cons, render_false]
      exact hp.append (ih hps)

end Piece

/-! ## Texts that are put together -/

namespace Text

theorem plain_toString (n : Nat) : Plain (toString n) :=
  not_mem_toString rfl n

theorem subset_of_slice? {cs ds : List Char} {start stop : Nat}
    (h : slice? cs start stop = some ds) : ds ⊆ cs := by
  simp only [slice?, Option.bind_eq_bind, Option.bind_eq_some_iff, Option.pure_def,
    Option.some.injEq] at h
  obtain ⟨-, -, i, -, j, -, rfl⟩ := h
  exact List.Subset.trans (List.drop_subset _ _) (List.take_subset _ _)

end Text

/-- A line is a part of the source. -/
theorem LineTable.plain_lineText {source : String} (h : Plain source) (t : LineTable) (line : Nat) :
    Plain ((t.lineText? source line).getD "") := by
  cases hline : t.lineText? source line with
  | none => exact List.not_mem_nil
  | some text =>
      simp only [lineText?, Option.bind_eq_bind, Option.bind_eq_some_iff, Option.pure_def,
        Option.some.injEq] at hline
      obtain ⟨start, -, cs, hcs, rfl⟩ := hline
      intro hc
      rw [Option.getD_some, String.toList_ofList] at hc
      exact h (Text.subset_of_slice? hcs ((LineTable.trimmed_prefix cs).subset hc))

namespace Snippet

theorem plain_row (n : Nat) {c : Char} (h : c ≠ '\x1b') : Plain (row n c) := by
  rw [Plain, toList_row]
  intro hc
  exact h (List.eq_of_mem_replicate hc).symm

theorem plain_lead {s : Snippet} (h : Plain s.text) : Plain s.lead := by
  have hgutter : Plain s.gutter := plain_row _ (by decide)
  have hpad : Plain (row (s.column - 1) ' ') := plain_row _ (by decide)
  have hline := Text.plain_toString s.line
  have htwo : Plain "  " := by decide
  have hbar : Plain " | " := by decide
  have hend : Plain "\n" := by decide
  have habove := (htwo.append hgutter).append (t := " |\n") (by decide)
  have hnumbered := (((habove.append htwo).append hline).append hbar).append h
  exact ((((hnumbered.append hend).append htwo).append hgutter).append hbar).append hpad

end Snippet

/-! ## Exhibits -/

/-- The texts that a diagnostic is given. -/
def Diagnostic.texts (d : Diagnostic) : List String :=
  d.message :: d.labels.map Label.message ++ d.notes ++ d.suggestions

namespace Exhibit

/-- The texts that an exhibit is given. -/
def texts (x : Exhibit) : List String := x.source.toList ++ x.path.toList

variable {x : Exhibit}

theorem plain_shownPath (hx : ∀ s ∈ x.texts, Plain s) : Plain x.shownPath := by
  rw [shownPath]
  cases hp : x.path with
  | none => decide
  | some path => exact hx path (by simp [texts, hp])

theorem plain_location (hx : ∀ s ∈ x.texts, Plain s) (span : Span) : Plain (x.location span) := by
  have hpath := plain_shownPath hx
  rw [location]
  split
  · next source _ =>
      have hcolon : Plain ":" := by decide
      have hline := Text.plain_toString (Snippet.ofSpan source span).line
      have hcolumn := Text.plain_toString (Snippet.ofSpan source span).column
      exact (((hpath.append hcolon).append hline).append hcolon).append hcolumn
  · have hat : Plain "@" := by decide
    have hdots : Plain ".." := by decide
    have hstart := Text.plain_toString span.start
    have hstop := Text.plain_toString span.stop
    exact (hpath.append hat).append ((hstart.append hdots).append hstop)

theorem plain_of_mem_labelPieces (hx : ∀ s ∈ x.texts, Plain s) {l : Label} (hl : Plain l.message) :
    ∀ p ∈ x.labelPieces l, Plain p.text := by
  have harrow : Plain "  --> " := by decide
  have hplace := (harrow.append (plain_location hx l.span)).append (t := "\n") (by decide)
  have hmessage : ∀ p ∈ [Piece.painted .error l.message, .plain "\n"], Plain p.text :=
    List.forall_mem_cons.mpr ⟨hl, List.forall_mem_singleton.mpr (by decide)⟩
  rw [labelPieces, List.forall_mem_cons]
  refine ⟨hplace, ?_⟩
  split
  · next source hsource =>
      have hline := LineTable.plain_lineText (hx source (by simp [texts, hsource]))
        (LineTable.ofSource source)
      simp only [List.cons_append, List.nil_append, List.forall_mem_cons]
      exact ⟨Snippet.plain_lead (hline _), Snippet.plain_row _ (by decide), by decide, hl, by decide,
        List.forall_mem_nil _⟩
  · exact List.forall_mem_cons.mpr ⟨by decide, hmessage⟩

theorem plain_of_mem_remarkPieces {paint : Paint} {word remark : String} (hword : Plain word)
    (hremark : Plain remark) : ∀ p ∈ remarkPieces paint word remark, Plain p.text := by
  have hcolon : Plain ": " := by decide
  have hend : Plain "\n" := by decide
  rw [remarkPieces, List.forall_mem_cons, List.forall_mem_cons, List.forall_mem_singleton]
  exact ⟨by decide, hword, (hcolon.append hremark).append hend⟩

/-- Exhibits add no escape character to the texts that they are given. -/
theorem plain_of_mem_pieces {d : Diagnostic} (hx : ∀ s ∈ x.texts, Plain s)
    (hd : ∀ s ∈ d.texts, Plain s) : ∀ p ∈ x.pieces d, Plain p.text := by
  simp only [Diagnostic.texts, List.cons_append, List.forall_mem_cons, List.forall_mem_append,
    List.forall_mem_map] at hd
  obtain ⟨hmessage, ⟨hlabels, hnotes⟩, hsuggestions⟩ := hd
  have hcode : Plain d.bracketedCode := by
    rw [Diagnostic.bracketedCode]
    cases d.code <;> decide
  have hcolon : Plain ": " := by decide
  have hheadline := (hcolon.append hmessage).append (t := "\n") (by decide)
  simp only [pieces, List.forall_mem_append, List.forall_mem_flatMap, List.forall_mem_cons]
  refine ⟨⟨⟨⟨⟨by decide, hcode, hheadline, List.forall_mem_nil _⟩, ?_⟩, ?_⟩, ?_⟩, by decide,
    List.forall_mem_nil _⟩
  · exact fun l hl => plain_of_mem_labelPieces hx (hlabels l hl)
  · exact fun note hn => plain_of_mem_remarkPieces (by decide) (hnotes note hn)
  · exact fun suggestion hs => plain_of_mem_remarkPieces (by decide) (hsuggestions suggestion hs)

/-- What is painted of a diagnostic, in order: the word and the code, the carets and the message of
each label, and the word before each remark.  Without a source there are no carets. -/
def paints (x : Exhibit) (d : Diagnostic) : List Paint :=
  [Paint.error, Paint.bold]
    ++ d.labels.flatMap (fun _ => x.source.toList.map (fun _ => Paint.error) ++ [Paint.error])
    ++ d.notes.map (fun _ => Paint.bold) ++ d.suggestions.map (fun _ => Paint.help)

theorem filterMap_paint_labelPieces (x : Exhibit) (l : Label) :
    (x.labelPieces l).filterMap Piece.paint = x.source.toList.map (fun _ => .error) ++ [.error] := by
  rw [labelPieces]
  cases x.source with
  | none => rfl
  | some source => rfl

theorem filterMap_paint_pieces (x : Exhibit) (d : Diagnostic) :
    (x.pieces d).filterMap Piece.paint = x.paints d := by
  have hremarks (paint : Paint) (word : String) (remarks : List String) :
      (remarks.flatMap (remarkPieces paint word)).filterMap Piece.paint
        = remarks.map fun _ => paint := by
    rw [List.filterMap_flatMap, List.map_eq_flatMap]
    rfl
  simp only [pieces, List.filterMap_append, hremarks, List.filterMap_flatMap,
    filterMap_paint_labelPieces]
  exact List.append_nil _

/-- Of diagnostics whose texts have no escape character, the text without colours has none either, and
the text with colours differs from it by escape sequences alone.  These are the paints of each
diagnostic, and each is ended before the next one begins.  Several diagnostics are written one behind
the other. -/
theorem render_colours (x : Exhibit) (ds : List Diagnostic) (hx : ∀ s ∈ x.texts, Plain s)
    (hds : ∀ d ∈ ds, ∀ s ∈ d.texts, Plain s) :
    Escape.erase (x.render true ds) = x.render false ds ∧ Plain (x.render false ds) ∧
    Escape.marks (x.render true ds) = (ds.flatMap x.paints).flatMap Escape.pair ∧
    Escape.Paired (Escape.marks (x.render true ds)) ∧
    ∀ colours, x.render colours ds = String.join (ds.map fun d => x.render colours [d]) := by
  have hplain : ∀ p ∈ ds.flatMap x.pieces, Plain p.text := by
    rw [List.forall_mem_flatMap]
    exact fun d hd => plain_of_mem_pieces hx (hds d hd)
  have hmarks : Escape.marks (x.render true ds) = (ds.flatMap x.paints).flatMap Escape.pair := by
    rw [render, Piece.marks_renderAll hplain, List.filterMap_flatMap]
    simp only [filterMap_paint_pieces]
  refine ⟨Piece.erase_renderAll hplain, Piece.plain_renderAll hplain, hmarks, ?_, fun colours => ?_⟩
  · rw [hmarks]
    exact Escape.paired_flatMap _
  · simp only [render, List.flatMap_singleton]
    exact Piece.renderAll_flatMap colours x.pieces ds

/-- A label below a line of two-byte characters with a message on two lines, without a path, and an
empty note. -/
theorem render_colours_two_lines :
    let x : Exhibit := ⟨some "ye é = 1;", none⟩
    let d : Diagnostic := ⟨.unrecognized, "", [⟨⟨3, 5, by decide, by decide⟩, "not\nknown"⟩], [""], []⟩
    (∀ s ∈ x.texts, Plain s) ∧ (∀ e ∈ [d], ∀ s ∈ e.texts, Plain s) ∧
    Escape.erase (x.render true [d]) = x.render false [d] ∧
    Escape.marks (x.render true [d])
      = [.opening .error, .closing, .opening .bold, .closing, .opening .error, .closing,
        .opening .error, .closing, .opening .bold, .closing] := by
  intro x d
  have hx : ∀ s ∈ x.texts, Plain s := by decide
  have hd : ∀ e ∈ [d], ∀ s ∈ e.texts, Plain s := by decide
  obtain ⟨herase, -, hmarks, -⟩ := render_colours x [d] hx hd
  exact ⟨hx, hd, herase, hmarks⟩

end Exhibit

end FlatScript
