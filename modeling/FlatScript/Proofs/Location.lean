import FlatScript.Proofs.Foreign
import FlatScript.Proofs.Lookahead
import FlatScript.Proofs.Spelling
import Mathlib.Data.List.DropRight

/-!
# Where problems are

A problem of scanning or reading points into the source.  What it points at is followed from the
scan on: a token covers its own text, a foreign character is covered by itself, and behind the last
token stands nothing but blanks.  `Span.Covers` says this in characters; that spans keep to
character boundaries, and what bytes they cover, follows from it.

Main statement, `program_error_located`.
-/

namespace FlatScript

open Grammar

/-! ## Spans over characters -/

/-- The span covers the characters `piece` among `cs`, the first of which is at offset `o`, and
`behind` is what stands behind them. -/
def Span.Covers (s : Span) (o : Nat) (cs piece behind : List Char) : Prop :=
  ∃ before, cs = before ++ (piece ++ behind) ∧ s.start = o + Text.byteLength before ∧
    s.stop = s.start + Text.byteLength piece

namespace Span.Covers

variable {s : Span} {o : Nat} {cs piece behind : List Char} {source : String}

theorem append (ds : List Char) (h : s.Covers (o + Text.byteLength ds) cs piece behind) :
    s.Covers o (ds ++ cs) piece behind := by
  obtain ⟨before, rfl, hstart, hstop⟩ := h
  refine ⟨ds ++ before, by rw [List.append_assoc], ?_, hstop⟩
  rw [hstart, Text.byteLength_append, Nat.add_assoc]

theorem cons {c : Char} (h : s.Covers (o + c.utf8Size) cs piece behind) :
    s.Covers o (c :: cs) piece behind := by
  rw [← List.singleton_append]
  exact append [c] h

/-- The empty span behind a span. -/
theorem atStop (h : s.Covers o cs piece behind) : s.atStop.Covers o cs [] behind := by
  obtain ⟨before, rfl, hstart, hstop⟩ := h
  refine ⟨before ++ piece, by rw [List.append_assoc]; rfl, ?_, rfl⟩
  show s.stop = _
  rw [hstop, hstart, Text.byteLength_append, Nat.add_assoc]

section Source

variable (h : s.Covers 0 source.toList piece behind)

include h

theorem start_le_stop : s.start ≤ s.stop := by
  obtain ⟨before, -, -, hstop⟩ := h
  omega

theorem stop_le_size : s.stop ≤ source.utf8ByteSize := by
  obtain ⟨before, hsource, hstart, hstop⟩ := h
  rw [Text.utf8ByteSize_eq, hsource, Text.byteLength_append, Text.byteLength_append]
  omega

theorem isValid_start : String.Pos.Raw.IsValid source ⟨s.start⟩ := by
  obtain ⟨before, hsource, hstart, -⟩ := h
  refine String.Pos.Raw.isValid_iff_exists_append.mpr
    ⟨String.ofList before, String.ofList (piece ++ behind), ?_, ?_⟩
  · rw [← String.ofList_append, ← hsource, String.ofList_toList]
  · rw [String.Pos.Raw.ext_iff, hstart, Nat.zero_add, String.byteIdx_rawEndPos, Text.utf8ByteSize_eq,
      String.toList_ofList]

theorem isValid_stop : String.Pos.Raw.IsValid source ⟨s.stop⟩ :=
  isValid_start (atStop h)

/-- The bytes of the span are the bytes of the characters. -/
theorem extract_bytes : (Text.bytes source).extract s.start s.stop = Text.encode piece := by
  obtain ⟨before, hsource, hstart, hstop⟩ := h
  rw [Nat.zero_add] at hstart
  rw [Text.bytes_eq, hsource, hstop, hstart, List.extract_eq_take_drop, Nat.add_sub_cancel_left,
    Text.encode_append, Text.encode_append, ← Text.length_encode before, List.drop_left,
    ← Text.length_encode piece, List.take_left]

end Source

end Span.Covers

/-! ## What the scan covers -/

namespace Token

variable {K : Reserved} {o : Nat} {ts : List Token} {t : Token} {cs : List Char}

theorem ofLexeme_covers {cls : LexemeClass} {c : Char} {ds rest : List Char} {span : Span}
    (hstart : span.start = o) (hstop : span.stop = o + Text.byteLength (c :: ds)) :
    span.Covers o (c :: (ds ++ rest)) (ofLexeme K cls (c :: ds) span).text.toList rest := by
  rw [ofLexeme, String.toList_ofList]
  exact ⟨[], rfl, hstart, hstop.trans (congrArg (· + _) hstart.symm)⟩

/-- Tokens cover their texts. -/
theorem covers_of_scanFrom (cs : List Char) : ∀ {o : Nat} {ts : List Token},
    scanFrom K o cs = .ok ts → ∀ t ∈ ts, ∃ behind, t.span.Covers o cs t.text.toList behind := by
  induction cs using scanInduction with
  | nil =>
      intro o ts hts t ht
      rw [scanFrom_nil] at hts
      cases hts
      cases ht
  | blank c cs hb ih =>
      intro o ts hts t ht
      rw [scanFrom_blank hb] at hts
      obtain ⟨behind, h⟩ := ih hts t ht
      exact ⟨behind, h.cons⟩
  | foreign c cs hb hc =>
      intro o ts hts
      rw [scanFrom_foreign hb hc] at hts
      cases hts
  | lexeme cls c ds rest hc hreach ih =>
      intro o ts hts t ht
      obtain ⟨span, us, hstart, hstop, rfl, hus⟩ := (scanFrom_lexeme_eq_ok_iff hc hreach).mp hts
      rcases List.mem_cons.mp ht with rfl | ht
      · exact ⟨rest, ofLexeme_covers hstart hstop⟩
      · obtain ⟨behind, h⟩ := ih hus t ht
        rw [hstop] at h
        exact ⟨behind, h.append (c :: ds)⟩

/-- Behind the last token stand blanks, and without a token there is nothing else. -/
theorem blank_of_scanFrom (cs : List Char) : ∀ {o : Nat} {ts : List Token},
    scanFrom K o cs = .ok ts →
      (ts = [] → ∀ c ∈ cs, isBlank c = true) ∧
      ∀ t, ts.getLast? = some t → ∃ behind, t.span.Covers o cs t.text.toList behind ∧
        ∀ c ∈ behind, isBlank c = true := by
  induction cs using scanInduction with
  | nil =>
      intro o ts hts
      rw [scanFrom_nil] at hts
      cases hts
      exact ⟨nofun, nofun⟩
  | blank c cs hb ih =>
      intro o ts hts
      rw [scanFrom_blank hb] at hts
      obtain ⟨hnil, hlast⟩ := ih hts
      refine ⟨fun hts => List.forall_mem_cons.mpr ⟨hb, hnil hts⟩, fun t ht => ?_⟩
      obtain ⟨behind, h, hbehind⟩ := hlast t ht
      exact ⟨behind, h.cons, hbehind⟩
  | foreign c cs hb hc =>
      intro o ts hts
      rw [scanFrom_foreign hb hc] at hts
      cases hts
  | lexeme cls c ds rest hc hreach ih =>
      intro o ts hts
      obtain ⟨span, us, hstart, hstop, rfl, hus⟩ := (scanFrom_lexeme_eq_ok_iff hc hreach).mp hts
      obtain ⟨hnil, hlast⟩ := ih hus
      refine ⟨nofun, fun t ht => ?_⟩
      cases hu : us.getLast? with
      | none =>
          rw [List.getLast?_cons, hu] at ht
          cases ht
          exact ⟨rest, ofLexeme_covers hstart hstop, hnil (List.getLast?_eq_none_iff.mp hu)⟩
      | some u =>
          rw [List.getLast?_cons, hu] at ht
          cases ht
          obtain ⟨behind, h, hbehind⟩ := hlast _ hu
          rw [hstop] at h
          exact ⟨behind, h.append (c :: ds), hbehind⟩

/-- In a source whose offsets fit into spans, the scan fails at a foreign character only, and its
error covers the character. -/
theorem scanFrom_eq_error (cs : List Char) {o : Nat} {e : LexError}
    (he : scanFrom K o cs = .error e) (ho : o + Text.byteLength cs ≤ maxOffset) :
    ∃ c s behind, e = .unrecognized c s.start s ∧ s.Covers o cs [c] behind ∧
      isBlank c = false := by
  rcases scanFrom_cases cs o ho with ⟨-, ts, hok⟩ |
    ⟨before, c, ⟨⟨behind, rfl⟩, -, hc⟩, herror⟩
  · rw [hok] at he
    cases he
  · rw [herror] at he
    cases he
    rw [Text.byteLength_append, Text.byteLength_cons] at ho
    have hend : o + Text.byteLength before + c.utf8Size ≤ maxOffset := by omega
    have hstart : o + Text.byteLength before ≤ maxOffset := Nat.le_of_add_right_le hend
    refine ⟨c, ⟨_, _, hstart, hend⟩, behind, LexError.foreign_eq hend, ⟨before, rfl, rfl, rfl⟩, ?_⟩
    rw [Bool.eq_false_iff]
    intro hb
    exact LexemeClass.not_isForeign_of_isBlank hb hc

section Sources

variable {source : String}

theorem covers_of_scan (hts : scan K source = .ok ts) :
    ∀ t ∈ ts, ∃ behind, t.span.Covers 0 source.toList t.text.toList behind :=
  covers_of_scanFrom source.toList (scan_eq K source ▸ hts)

theorem blank_of_scan (hts : scan K source = .ok ts) :
    (ts = [] → ∀ c ∈ source.toList, isBlank c = true) ∧
      ∀ t, ts.getLast? = some t → ∃ behind, t.span.Covers 0 source.toList t.text.toList behind ∧
        ∀ c ∈ behind, isBlank c = true :=
  blank_of_scanFrom source.toList (scan_eq K source ▸ hts)

end Sources

end Token

/-! ## What the reader complains of -/

/-- The reader complains of a token, or of the end of the last one. -/
theorem Program.place_of_error {ts : List Token} {e : ParseError} (h : ofTokens ts = .error e) :
    (∃ t ∈ ts, e.found = .ofToken t ∧ e.span = t.span) ∨
      (e.found = .endOfInput ∧ ∃ t, ts.getLast? = some t ∧ e.span = t.span.atStop) := by
  rw [ofTokens_eq_error_iff] at h
  rcases bind_eq_error_iff.mp h with h | ⟨k, hk, h⟩
  · obtain ⟨us, t, vs, k, rfl, -, ht⟩ := Pending.exists_step_of_advance h
    obtain ⟨hfound, hspan⟩ := Pending.step_error ht
    exact .inl ⟨t, List.mem_append_right us List.mem_cons_self, hfound, hspan⟩
  · exact .inr ⟨(Pending.stop_error h).1, span_of_stop hk h⟩

/-! ## Problems of a source -/

/-- The characters without the blanks at their end. -/
def withoutBlanks (cs : List Char) : List Char := cs.rdropWhile isBlank

theorem withoutBlanks_append {cs behind : List Char} (h : ∀ c ∈ behind, isBlank c = true) :
    withoutBlanks (cs ++ behind) = withoutBlanks cs := by
  rw [withoutBlanks, List.rdropWhile, List.reverse_append, List.dropWhile_append_of_pos]
  · rfl
  · intro c hc
    exact h c (List.mem_reverse.mp hc)

/-- A span with nothing but blanks behind it ends where the source without blanks does. -/
theorem Span.Covers.byteLength_withoutBlanks {s : Span} {cs piece behind : List Char}
    (h : s.Covers 0 cs piece behind) (hne : piece ≠ []) (hpiece : ∀ c ∈ piece, isBlank c = false)
    (hbehind : ∀ c ∈ behind, isBlank c = true) :
    Text.byteLength (withoutBlanks cs) = s.stop := by
  obtain ⟨before, rfl, hstart, hstop⟩ := h
  have hself : withoutBlanks (before ++ piece) = before ++ piece := by
    refine List.rdropWhile_eq_self_iff.mpr fun hl => ?_
    rw [List.getLast_append_of_ne_nil hl hne, hpiece _ (List.getLast_mem hne)]
    exact Bool.false_ne_true
  rw [← List.append_assoc, withoutBlanks_append hbehind, hself, Text.byteLength_append, hstop,
    hstart, Nat.zero_add]

namespace Problem

/-- What the problem shows of the source: the characters that its span covers. -/
inductive Shows (source : String) : Problem → Span → List Char → Prop where
  /-- A foreign character, whose position is the start of the span. -/
  | foreign {s : Span} {c : Char} : Shows source (.lex (.unrecognized c s.start s)) s [c]
  /-- The token that stood in the way. -/
  | token {e : ParseError} {kind : TokenKind} {text : String} (h : e.found = .token kind text) :
      Shows source (.parse e) e.span text.toList
  /-- Nothing, where the source ends up to blanks. -/
  | endOfInput {e : ParseError} (h : e.found = .endOfInput)
      (hstart : e.span.start = Text.byteLength (withoutBlanks source.toList))
      (hstop : e.span.stop = e.span.start) : Shows source (.parse e) e.span []

/-- A problem points at characters of the source, and nothing of a lexeme is blank or takes more
than a byte. -/
structure PointsAt (source : String) (p : Problem) (s : Span) (piece behind : List Char) :
    Prop where
  shows : p.Shows source s piece
  covers : s.Covers 0 source.toList piece behind
  not_blank : ∀ c ∈ piece, isBlank c = false
  ascii : ∀ e, p = .parse e → ∀ c ∈ piece, c.toNat < 128

variable {source : String} {p : Problem} {s : Span} {piece : List Char}

theorem Shows.span (h : p.Shows source s piece) : p.span? = some s := by
  cases h <;> rfl

theorem labels_parse (e : ParseError) :
    (Problem.parse e).diagnostic.labels = [⟨e.span, s!"expected {e.expected}"⟩] := by
  cases e with
  | literalOutOfRange literal => rfl
  | unexpected expected found span =>
      rw [diagnostic]
      split <;> rfl

theorem Shows.label (h : p.Shows source s piece) :
    ∃ message, p.diagnostic.labels = [⟨s, message⟩] := by
  cases h with
  | foreign => exact ⟨_, rfl⟩
  | token h => exact ⟨_, labels_parse _⟩
  | endOfInput h hstart hstop => exact ⟨_, labels_parse _⟩

end Problem

namespace Script

variable {K : Reserved} {source : String} {p : Problem}

/-- Each problem of scanning and reading points at something. -/
theorem exists_pointsAt (hsize : source.utf8ByteSize ≤ maxOffset)
    (h : program K source = .error p) : ∃ s piece behind, p.PointsAt source s piece behind := by
  rcases program_eq_error_iff.mp h with ⟨e, he, rfl⟩ | ⟨ts, e, hts, he, rfl⟩
  · rw [Text.utf8ByteSize_eq] at hsize
    rw [Token.scan_eq] at he
    obtain ⟨c, s, behind, rfl, hs, hc⟩ := Token.scanFrom_eq_error source.toList he (by omega)
    exact ⟨s, [c], behind, .foreign, hs, List.forall_mem_singleton.mpr hc, nofun⟩
  · have hfits : ∀ t ∈ ts, ∃ cls : LexemeClass, cls.Fits t.text := by
      intro t ht
      obtain ⟨cls, hfits, -⟩ :=
        LexemeClass.exists_fits_of_scannable (scannable_of_scan hts _ (List.mem_map_of_mem ht))
      exact ⟨cls, hfits⟩
    rcases Program.place_of_error he with ⟨t, ht, hfound, hspan⟩ | ⟨hfound, t, ht, hspan⟩
    · obtain ⟨behind, hs⟩ := Token.covers_of_scan hts t ht
      obtain ⟨cls, ht⟩ := hfits t ht
      rw [← hspan] at hs
      exact ⟨e.span, t.text.toList, behind, .token hfound, hs, ht.not_isBlank,
        fun _ _ => ht.toNat_lt⟩
    · obtain ⟨behind, hs, hbehind⟩ := (Token.blank_of_scan hts).2 t ht
      obtain ⟨cls, hfits⟩ := hfits t (List.mem_of_getLast? ht)
      have hstop := hs.byteLength_withoutBlanks hfits.ne_nil hfits.not_isBlank hbehind
      refine ⟨e.span, [], behind, .endOfInput hfound ?_ ?_, ?_, nofun, fun _ _ => nofun⟩
      · rw [hspan, hstop]
        rfl
      · rw [hspan]
        rfl
      · rw [hspan]
        exact hs.atStop

/-- A problem of scanning or reading has a place in the source and shows it: a range of whole
characters within the source, marked by the only label of the diagnostic, whose bytes are the
foreign character or the token that stood in the way, or the empty range where the source ends up
to blanks. -/
theorem program_error_located (hsize : source.utf8ByteSize ≤ maxOffset)
    (h : program K source = .error p) :
    ∃ s piece, p.span? = some s ∧ s.start ≤ s.stop ∧ s.stop ≤ source.utf8ByteSize ∧
      String.Pos.Raw.IsValid source ⟨s.start⟩ ∧ String.Pos.Raw.IsValid source ⟨s.stop⟩ ∧
      p.diagnostic.labels.map Label.span = [s] ∧
      (Text.bytes source).extract s.start s.stop = Text.encode piece ∧
      p.Shows source s piece := by
  obtain ⟨s, piece, behind, hp⟩ := exists_pointsAt hsize h
  obtain ⟨message, hlabel⟩ := hp.shows.label
  refine ⟨s, piece, hp.shows.span, hp.covers.start_le_stop, hp.covers.stop_le_size,
    hp.covers.isValid_start, hp.covers.isValid_stop, ?_, hp.covers.extract_bytes, hp.shows⟩
  rw [hlabel, List.map_singleton]

/-- Behind `ye x =` an operand is missing; the blanks at the end are left out. -/
theorem program_error_located_blanks :
    ∃ p s piece, program .standard "ye x =\t\n" = .error (.parse p) ∧ p.found = .endOfInput ∧
      s.start = 6 ∧ s.stop ≤ "ye x =\t\n".utf8ByteSize ∧
      (Text.bytes "ye x =\t\n").extract s.start s.stop = Text.encode piece ∧
      (Problem.parse p).Shows "ye x =\t\n" s piece := by
  let e : ParseError := .unexpected .operand .endOfInput (.point 6 (by decide))
  have he : program .standard "ye x =\t\n" = .error (.parse e) := by decide +kernel
  obtain ⟨s, piece, hspan, -, hstop, -, -, -, hbytes, hshows⟩ :=
    program_error_located (by decide) he
  refine ⟨e, s, piece, he, rfl, ?_, hstop, hbytes, hshows⟩
  cases hspan
  rfl

end Script

end FlatScript
