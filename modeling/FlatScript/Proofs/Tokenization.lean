import FlatScript.Proofs.Scanning
import Mathlib.Data.List.Forall2

/-!
# The tokens of a source, without the scan

`TokenizesFrom` says which lists of tokens are cut out of the bytes of a source: lexemes in order,
each as long as it can be, with nothing but blanks between them.  It mentions no loop and no
order of tests.

Everything is stated on bytes, since spans count bytes.  What may follow a lexeme is a matter of
the next byte alone: a byte of a longer character, read as a character of its own, is beyond ASCII
and goes on with no lexeme.

Main statement, `scan_eq_ok_iff`: a scan succeeds with a list of tokens exactly if the list
tokenizes the source, there is at most one such list, and the reserved words change nothing but
the kinds of the words that they reserve.
-/

namespace FlatScript

/-! ## Reserved words -/

namespace Reserved

/-- The word is that of a keyword that is reserved. -/
def Reserves (K : Reserved) (word : String) : Prop := ∃ k ∈ K.keywords, k.word = word

variable {K : Reserved} {word : String}

theorem isReserved_iff : K.isReserved word = true ↔ K.Reserves word := by
  rw [isReserved, Option.isSome_iff_exists]
  exact exists_congr fun k => lookup_eq_some_iff

theorem isReserved_eq_false_iff : K.isReserved word = false ↔ ¬ K.Reserves word := by
  rw [← isReserved_iff, Bool.not_eq_true]

end Reserved

open Reserved (isReserved_iff isReserved_eq_false_iff)

namespace Token

/-! ## Lexemes in a list of bytes -/

/-- `Lexeme K s next kind`: the text is a lexeme of the given kind, and the character behind it
does not go on with it. -/
inductive Lexeme (K : Reserved) (s : String) (next : Option Char) : TokenKind → Prop
  | keyword : IsWord s → next.any isWordChar = false → K.Reserves s → Lexeme K s next .keyword
  | wordOperator : IsWord s → next.any isWordChar = false → ¬ K.Reserves s → s = "is" →
      Lexeme K s next .operator
  | identifier : IsWord s → next.any isWordChar = false → ¬ K.Reserves s → s ≠ "is" →
      Lexeme K s next .identifier
  | number : IsDigitRun s → next.any Char.isDigit = false → Lexeme K s next .number
  | operator {c : Char} : s = String.singleton c → c ∈ ['=', '+', '-', '*', '/'] →
      Lexeme K s next .operator
  | punctuation {c : Char} : s = String.singleton c → c ∈ ['(', ')', ';', '\x7b', '\x7d'] →
      Lexeme K s next .punctuation

/-- The bytes from `start` to `stop` spell the text, and it is a lexeme there. -/
structure LexemeAt (K : Reserved) (bs : List UInt8) (start stop : Nat) (s : String)
    (kind : TokenKind) : Prop where
  nonempty : start < stop
  bounded : stop ≤ bs.length
  spelled : Text.bytes s = bs.extract start stop
  lexeme : Lexeme K s (bs[stop]?.map Char.ofUInt8) kind

/-- Space, tab, carriage return, line feed and form feed. -/
def blankBytes : List UInt8 := [0x20, 0x09, 0x0d, 0x0a, 0x0c]

/-- From byte `o` on, the tokens are the lexemes of the source, and the rest is blank. -/
structure TokenizesFrom (K : Reserved) (bs : List UInt8) (o : Nat) (ts : List Token) : Prop where
  lexemes : ∀ t ∈ ts, LexemeAt K bs t.span.start t.span.stop t.text t.kind
  behind : ∀ t ∈ ts, o ≤ t.span.start
  ordered : ts.Pairwise fun t u => t.span.stop ≤ u.span.start
  blank : ∀ i b, o ≤ i → bs[i]? = some b →
    (∀ t ∈ ts, ¬ (t.span.start ≤ i ∧ i < t.span.stop)) → b ∈ blankBytes

/-- The tokens are cut out of the source. -/
def Tokenizes (K : Reserved) (source : String) (ts : List Token) : Prop :=
  TokenizesFrom K (Text.bytes source) 0 ts

/-! ## Lexemes and their classes -/

section Classes

variable {K : Reserved} {s : String} {next : Option Char} {kind : TokenKind}

theorem kind_of_reserved (hr : K.isReserved s = true) : LexemeClass.word.kind K s = .keyword :=
  if_pos hr

theorem kind_is (hr : K.isReserved "is" = false) : LexemeClass.word.kind K "is" = .operator := by
  rw [LexemeClass.kind, hr]
  rfl

theorem kind_of_ne (hr : K.isReserved s = false) (his : s ≠ "is") :
    LexemeClass.word.kind K s = .identifier := by
  have hne : ¬ (s == LexemeClass.wordOperator) = true := mt beq_iff_eq.mp his
  rw [LexemeClass.kind, hr, if_neg Bool.false_ne_true, if_neg hne]

theorem lexeme_word (hs : IsWord s) (hnext : next.any isWordChar = false) :
    Lexeme K s next (LexemeClass.word.kind K s) := by
  cases hr : K.isReserved s with
  | true =>
      rw [kind_of_reserved hr]
      exact .keyword hs hnext (isReserved_iff.mp hr)
  | false =>
      by_cases his : s = "is"
      · subst his
        rw [kind_is hr]
        exact .wordOperator hs hnext (isReserved_eq_false_iff.mp hr) rfl
      · rw [kind_of_ne hr his]
        exact .identifier hs hnext (isReserved_eq_false_iff.mp hr) his

/-- A lexeme begins with a character of its class and goes on with others, as far as it can. -/
theorem lexeme_iff : Lexeme K s next kind ↔
    ∃ cls c ds, s.toList = c :: ds ∧ LexemeClass.beginsWith cls c = true ∧
      (∀ d ∈ ds, cls.goesOnWith d = true) ∧ next.any cls.goesOnWith = false ∧
      kind = cls.kind K s := by
  have hnone : ∀ p : Char → Bool, (∀ d, p d = false) → next.any p = false := by
    intro p hp
    cases next with
    | none => rfl
    | some d => exact hp d
  constructor
  · intro h
    cases h with
    | keyword hs hnext hr =>
        obtain ⟨c, ds, hcs, hc, hds⟩ := hs
        exact ⟨.word, c, ds, hcs, hc, hds, hnext, (kind_of_reserved (isReserved_iff.mpr hr)).symm⟩
    | wordOperator hs hnext hr his =>
        subst his
        obtain ⟨c, ds, hcs, hc, hds⟩ := hs
        have hfree := isReserved_eq_false_iff.mpr hr
        exact ⟨.word, c, ds, hcs, hc, hds, hnext, (kind_is hfree).symm⟩
    | identifier hs hnext hr his =>
        obtain ⟨c, ds, hcs, hc, hds⟩ := hs
        have hfree := isReserved_eq_false_iff.mpr hr
        exact ⟨.word, c, ds, hcs, hc, hds, hnext, (kind_of_ne hfree his).symm⟩
    | number hs hnext =>
        obtain ⟨hne, hall⟩ := hs
        obtain ⟨c, ds, hcs⟩ := List.exists_cons_of_ne_nil hne
        rw [hcs, List.forall_mem_cons] at hall
        exact ⟨.digits, c, ds, hcs, hall.1, hall.2, hnext, rfl⟩
    | @operator c hs hc =>
        refine ⟨.operatorMark, c, [], ?_, isOperatorMark_iff_mem.mpr hc, nofun, ?_, rfl⟩
        · rw [hs, String.toList_singleton]
        · exact hnone _ fun _ => rfl
    | @punctuation c hs hc =>
        refine ⟨.punctuationMark, c, [], ?_, isPunctuationMark_iff_mem.mpr hc, nofun, ?_, rfl⟩
        · rw [hs, String.toList_singleton]
        · exact hnone _ fun _ => rfl
  · rintro ⟨cls, c, ds, hcs, hc, hds, hnext, rfl⟩
    have hmark : ds = [] → s = String.singleton c := by
      rintro rfl
      rw [← String.toList_inj, hcs, String.toList_singleton]
    cases cls with
    | word => exact lexeme_word ⟨c, ds, hcs, hc, hds⟩ hnext
    | digits =>
        refine .number ⟨?_, ?_⟩ hnext
        · rw [hcs]
          exact List.cons_ne_nil c ds
        · rw [hcs]
          exact List.forall_mem_cons.mpr ⟨hc, hds⟩
    | operatorMark =>
        have hnil : ds = [] := List.eq_nil_iff_forall_not_mem.mpr fun d hd => nomatch hds d hd
        exact .operator (hmark hnil) (isOperatorMark_iff_mem.mp hc)
    | punctuationMark =>
        have hnil : ds = [] := List.eq_nil_iff_forall_not_mem.mpr fun d hd => nomatch hds d hd
        exact .punctuation (hmark hnil) (isPunctuationMark_iff_mem.mp hc)

end Classes

/-! ## A lexeme is settled by where it starts -/

section At

variable {K : Reserved} {bs : List UInt8} {o stop : Nat} {s : String} {kind : TokenKind}

theorem toNat_lt_of_lexeme {cls : LexemeClass} {c : Char} {ds : List Char}
    (hc : cls.beginsWith c = true) (hds : ∀ d ∈ ds, cls.goesOnWith d = true) :
    ∀ d ∈ c :: ds, d.toNat < 128 :=
  List.forall_mem_cons.mpr ⟨LexemeClass.toNat_lt_of_beginsWith hc,
    fun d hd => LexemeClass.toNat_lt_of_goesOnWith (hds d hd)⟩

theorem head?_drop_map (n : Nat) :
    ((bs.map Char.ofUInt8).drop n).head? = bs[n]?.map Char.ofUInt8 := by
  rw [List.head?_drop, List.getElem?_map]

/-- The bytes from a lexeme on, read as characters, are cut where the scan cuts characters. -/
theorem lexemeAt_iff : LexemeAt K bs o stop s kind ↔
    ∃ cls c ds rest, (bs.map Char.ofUInt8).drop o = c :: (ds ++ rest) ∧
      LexemeClass.beginsWith cls c = true ∧ Reaches cls ds rest ∧
      stop = o + (c :: ds).length ∧ s = String.ofList (c :: ds) ∧ kind = cls.kind K s := by
  constructor
  · rintro ⟨hlt, hle, hs, hlex⟩
    obtain ⟨cls, c, ds, hcs, hc, hds, hnext, hkind⟩ := lexeme_iff.mp hlex
    have hmap : (bs.extract o stop).map Char.ofUInt8 = c :: ds := by
      rw [← hs, Text.bytes_eq, hcs, Text.map_encode_ascii (toNat_lt_of_lexeme hc hds)]
    have hlen : (c :: ds).length = stop - o := by
      rw [← hmap, List.length_map, List.extract_eq_take_drop, List.length_take, List.length_drop]
      omega
    have hstop : o + (c :: ds).length = stop := by omega
    refine ⟨cls, c, ds, (bs.map Char.ofUInt8).drop stop, ?_, hc, ⟨hds, ?_⟩, hstop.symm, ?_, hkind⟩
    · rw [← List.cons_append, ← hmap, List.extract_eq_take_drop, List.map_take, List.map_drop]
      conv => rhs; rhs; rw [← Nat.add_sub_cancel' (Nat.le_of_lt hlt), ← List.drop_drop]
      rw [List.take_append_drop]
    · rw [head?_drop_map]
      exact hnext
    · rw [← String.toList_inj, hcs, String.toList_ofList]
  · rintro ⟨cls, c, ds, rest, hdrop, hc, hreach, rfl, rfl, rfl⟩
    have htext : (String.ofList (c :: ds)).toList = c :: ds := String.toList_ofList
    have hrest : (bs.map Char.ofUInt8).drop (o + (c :: ds).length) = rest := by
      rw [← List.drop_drop, hdrop, ← List.cons_append, List.drop_left]
    have hlen : (c :: ds).length + rest.length = bs.length - o := by
      rw [← List.length_append, List.cons_append, ← hdrop, List.length_drop, List.length_map]
    refine ⟨?_, ?_, ?_, ?_⟩
    · rw [List.length_cons]
      omega
    · rw [List.length_cons] at hlen ⊢
      omega
    · refine (List.map_inj_right fun _ _ h => Text.ofUInt8_injective h).mp ?_
      rw [Text.bytes_eq, htext, Text.map_encode_ascii (toNat_lt_of_lexeme hc hreach.1),
        List.extract_eq_take_drop, List.map_take, List.map_drop, hdrop, ← List.cons_append,
        Nat.add_sub_cancel_left, List.take_left]
    · refine lexeme_iff.mpr ⟨cls, c, ds, htext, hc, hreach.1, ?_, rfl⟩
      rw [← head?_drop_map, hrest]
      exact hreach.2

/-- From one byte on there is at most one lexeme. -/
theorem LexemeAt.unique {stop' : Nat} {s' : String} {kind' : TokenKind}
    (h : LexemeAt K bs o stop s kind) (h' : LexemeAt K bs o stop' s' kind') :
    stop = stop' ∧ s = s' ∧ kind = kind' := by
  obtain ⟨cls, c, ds, rest, hdrop, hc, hreach, rfl, rfl, rfl⟩ := lexemeAt_iff.mp h
  obtain ⟨cls', c', ds', rest', hdrop', hc', hreach', rfl, rfl, rfl⟩ := lexemeAt_iff.mp h'
  rw [hdrop, List.cons.injEq] at hdrop'
  obtain ⟨rfl, hrest⟩ := hdrop'
  cases LexemeClass.beginsWith_unique hc hc'
  have hds : ds = ds' := by
    rw [← hreach.takeWhile_eq, hrest, hreach'.takeWhile_eq]
  subst hds
  exact ⟨rfl, rfl, rfl⟩

theorem mem_blankBytes {b : UInt8} : b ∈ blankBytes ↔ isBlank (Char.ofUInt8 b) = true := by
  simp only [blankBytes, List.mem_cons, List.not_mem_nil, or_false, isBlank_iff,
    Text.toNat_ofUInt8, ← UInt8.toNat_inj]
  exact Iff.rfl

/-- A lexeme does not begin with a blank. -/
theorem LexemeAt.not_blank (h : LexemeAt K bs o stop s kind) {b : UInt8}
    (hb : bs[o]? = some b) : b ∉ blankBytes := by
  obtain ⟨cls, c, ds, rest, hdrop, hc, -⟩ := lexemeAt_iff.mp h
  have hhead := @head?_drop_map bs o
  rw [hdrop, hb, List.head?_cons, Option.map_some, Option.some.injEq] at hhead
  rw [mem_blankBytes, ← hhead, LexemeClass.not_isBlank_of_beginsWith hc]
  exact Bool.false_ne_true

end At

/-! ## Tokenizing from a byte on -/

namespace TokenizesFrom

variable {K : Reserved} {bs : List UInt8} {o : Nat} {ts : List Token}

/-- A byte that is not blank begins the first token. -/
theorem exists_first (h : TokenizesFrom K bs o ts) {b : UInt8} (hb : bs[o]? = some b)
    (hne : b ∉ blankBytes) : ∃ t us, ts = t :: us ∧ t.span.start = o := by
  by_contra hnone
  refine hne (h.blank o b (Nat.le_refl o) hb fun t ht hcover => hnone ?_)
  have hstart : t.span.start = o := Nat.le_antisymm hcover.1 (h.behind t ht)
  cases ts with
  | nil => cases ht
  | cons u us =>
      rcases List.mem_cons.mp ht with rfl | ht
      · exact ⟨t, us, rfl, hstart⟩
      · -- a token before one that starts at `o` would have to end before it starts
        have hu := (h.lexemes u List.mem_cons_self).nonempty
        have hbehind := h.behind u List.mem_cons_self
        have hordered := (List.pairwise_cons.mp h.ordered).1 t ht
        omega

theorem end_iff (ho : bs.drop o = []) : TokenizesFrom K bs o ts ↔ ts = [] := by
  rw [List.drop_eq_nil_iff] at ho
  constructor
  · intro h
    refine List.eq_nil_iff_forall_not_mem.mpr fun t ht => ?_
    have hlex := h.lexemes t ht
    have hbehind := h.behind t ht
    have hne := hlex.nonempty
    have hle := hlex.bounded
    omega
  · rintro rfl
    refine ⟨nofun, nofun, .nil, ?_⟩
    intro i b hi hb
    rw [List.getElem?_eq_none (Nat.le_trans ho hi)] at hb
    cases hb

theorem blank_iff {b : UInt8} (hb : bs[o]? = some b) (hblank : b ∈ blankBytes) :
    TokenizesFrom K bs o ts ↔ TokenizesFrom K bs (o + 1) ts := by
  constructor
  · intro h
    refine ⟨h.lexemes, ?_, h.ordered, ?_⟩
    · intro t ht
      have hlex := h.lexemes t ht
      refine Nat.lt_of_le_of_ne (h.behind t ht) ?_
      rintro rfl
      exact hlex.not_blank hb hblank
    · intro i b' hi
      exact h.blank i b' (Nat.le_of_succ_le hi)
  · intro h
    refine ⟨h.lexemes, ?_, h.ordered, ?_⟩
    · intro t ht
      exact Nat.le_of_succ_le (h.behind t ht)
    · intro i b' hi hb' hcover
      rcases Nat.eq_or_lt_of_le hi with rfl | hlt
      · rw [hb, Option.some.injEq] at hb'
        exact hb' ▸ hblank
      · exact h.blank i b' hlt hb' hcover

theorem lexeme_iff {stop : Nat} {s : String} {kind : TokenKind}
    (hlex : LexemeAt K bs o stop s kind) :
    TokenizesFrom K bs o ts ↔ ∃ span us, span.start = o ∧ span.stop = stop ∧
      ts = ⟨kind, s, span⟩ :: us ∧ TokenizesFrom K bs span.stop us := by
  constructor
  · intro h
    have hlt : o < bs.length := Nat.lt_of_lt_of_le hlex.nonempty hlex.bounded
    have hb : bs[o]? = some bs[o] := List.getElem?_eq_getElem hlt
    obtain ⟨t, us, rfl, rfl⟩ := h.exists_first hb (hlex.not_blank hb)
    obtain ⟨hstop, htext, hkind⟩ := (h.lexemes t List.mem_cons_self).unique hlex
    obtain ⟨hbehind, hordered⟩ := List.pairwise_cons.mp h.ordered
    refine ⟨t.span, us, rfl, hstop, ?_, ?_, hbehind, hordered, ?_⟩
    · rw [← htext, ← hkind]
    · intro u hu
      exact h.lexemes u (List.mem_cons_of_mem t hu)
    · intro i b hi hb' hcover
      have hle := hlex.nonempty
      refine h.blank i b (by omega) hb' (List.forall_mem_cons.mpr ⟨by omega, hcover⟩)
  · rintro ⟨span, us, rfl, rfl, rfl, h⟩
    have hlt := hlex.nonempty
    refine ⟨?_, ?_, ?_, ?_⟩
    · exact List.forall_mem_cons.mpr ⟨hlex, h.lexemes⟩
    · refine List.forall_mem_cons.mpr ⟨Nat.le_refl _, fun u hu => ?_⟩
      exact Nat.le_trans (Nat.le_of_lt hlt) (h.behind u hu)
    · exact List.pairwise_cons.mpr ⟨h.behind, h.ordered⟩
    · intro i b hi hb hcover
      obtain ⟨hfirst, hrest⟩ := List.forall_mem_cons.mp hcover
      exact h.blank i b (by dsimp only at hfirst; omega) hb hrest

end TokenizesFrom

/-! ## The scan and the tokens it has to find -/

section Scan

variable {K : Reserved} {bs : List UInt8}

theorem getElem?_of_drop_eq {o : Nat} {b : UInt8} {l : List UInt8} (h : bs.drop o = b :: l) :
    bs[o]? = some b ∧ bs.drop (o + 1) = l := by
  constructor
  · rw [← List.head?_drop, h]
    rfl
  · rw [← List.tail_drop, h]
    rfl

/-- What ends a lexeme among the characters ends it among the bytes. -/
theorem Reaches.encode {cls : LexemeClass} {ds rest : List Char} (h : Reaches cls ds rest) :
    Reaches cls ds ((Text.encode rest).map Char.ofUInt8) := by
  refine ⟨h.1, ?_⟩
  cases rest with
  | nil => rfl
  | cons d rest =>
      obtain ⟨b, l, hb, hd⟩ :=
        Text.apply_lead (fun _ => @LexemeClass.toNat_lt_of_goesOnWith _ cls) d rest
      rw [hb, List.map_cons, List.head?_cons, Option.any_some, hd]
      exact h.2

theorem scanFrom_eq_ok_iff (cs : List Char) : ∀ {o : Nat} {ts : List Token},
    bs.drop o = Text.encode cs → (scanFrom K o cs = .ok ts ↔ TokenizesFrom K bs o ts) := by
  induction cs using scanInduction with
  | nil =>
      intro o ts hbs
      rw [scanFrom_nil, Except.ok.injEq, TokenizesFrom.end_iff hbs, eq_comm]
  | blank c cs hc ih =>
      intro o ts hbs
      have hascii := toNat_lt_of_isBlank hc
      rw [Text.encode_cons, Text.utf8EncodeChar_ascii hascii, List.singleton_append] at hbs
      obtain ⟨hb, hrest⟩ := getElem?_of_drop_eq hbs
      have hblank : UInt8.ofNat c.toNat ∈ blankBytes := by
        rw [mem_blankBytes, Text.ofUInt8_ofNat hascii]
        exact hc
      rw [scanFrom_blank hc, Text.utf8Size_ascii hascii, ih hrest,
        TokenizesFrom.blank_iff hb hblank]
  | foreign c cs hc hnone =>
      intro o ts hbs
      have hascii : ∀ d, (isBlank d || (LexemeClass.ofFirst? d).isSome) = true →
          d.toNat < 128 := by
        intro d hd
        rcases Bool.or_eq_true_iff.mp hd with hd | hd
        · exact toNat_lt_of_isBlank hd
        · obtain ⟨cls, hcls⟩ := Option.isSome_iff_exists.mp hd
          exact LexemeClass.toNat_lt_of_beginsWith (LexemeClass.ofFirst?_eq_some_iff.mp hcls)
      obtain ⟨b, l, hb, hlead⟩ := Text.apply_lead hascii c cs
      have hout : (isBlank c || (LexemeClass.ofFirst? c).isSome) = false := by
        rw [hc, hnone]
        rfl
      rw [hout, Bool.or_eq_false_iff] at hlead
      obtain ⟨hblank, hfirst⟩ := hlead
      obtain ⟨hbo, -⟩ := getElem?_of_drop_eq (hbs.trans hb)
      rw [scanFrom_foreign hc hnone]
      refine ⟨nofun, fun h => ?_⟩
      have hne : b ∉ blankBytes := by
        rw [mem_blankBytes, hblank]
        exact Bool.false_ne_true
      obtain ⟨t, us, rfl, rfl⟩ := h.exists_first hbo hne
      obtain ⟨cls, d, ds, rest, hdrop, hd, -⟩ := lexemeAt_iff.mp (h.lexemes t List.mem_cons_self)
      have hhead := @head?_drop_map bs t.span.start
      rw [hdrop, hbo, List.head?_cons, Option.map_some, Option.some.injEq] at hhead
      rw [← hhead, LexemeClass.ofFirst?_eq_some_iff.mpr hd] at hfirst
      cases hfirst
  | lexeme cls c ds rest hc hreach ih =>
      intro o ts hbs
      have hascii := toNat_lt_of_lexeme hc hreach.1
      rw [← List.cons_append, Text.encode_append] at hbs
      have hdrop : (bs.map Char.ofUInt8).drop o
          = c :: (ds ++ (Text.encode rest).map Char.ofUInt8) := by
        rw [← List.map_drop, hbs, List.map_append, Text.map_encode_ascii hascii, List.cons_append]
      have hrest : bs.drop (o + (c :: ds).length) = Text.encode rest := by
        rw [← List.drop_drop, hbs, ← Text.byteLength_ascii hascii, ← Text.length_encode,
          List.drop_left]
      have hlex : LexemeAt K bs o (o + (c :: ds).length) (String.ofList (c :: ds))
          (cls.kind K (String.ofList (c :: ds))) :=
        lexemeAt_iff.mpr ⟨cls, c, ds, _, hdrop, hc, hreach.encode, rfl, rfl, rfl⟩
      rw [scanFrom_lexeme_eq_ok_iff hc hreach, TokenizesFrom.lexeme_iff hlex,
        Text.byteLength_ascii hascii]
      refine exists_congr fun span => exists_congr fun us => and_congr_right fun _ =>
        and_congr_right fun hstop => and_congr_right fun _ => ?_
      exact ih (hstop ▸ hrest)

theorem scan_eq_ok_iff_tokenizes {source : String} {ts : List Token} :
    scan K source = .ok ts ↔ Tokenizes K source ts := by
  rw [scan_eq]
  exact scanFrom_eq_ok_iff source.toList (Text.bytes_eq source)

end Scan

/-! ## Two sets of reserved words -/

section Agreement

variable {K L : Reserved}

/-- Two tokens of the same text in the same place, of the same kind as well unless they are a word
that is reserved in one of the two sets only. -/
def Agrees (K L : Reserved) (t u : Token) : Prop :=
  t.text = u.text ∧ t.span = u.span ∧
    (t.kind ≠ u.kind → IsWord t.text ∧ ¬ (K.Reserves t.text ↔ L.Reserves t.text))

theorem agrees_ofLexeme {cls : LexemeClass} {c : Char} {ds : List Char} (span : Span)
    (hc : cls.beginsWith c = true) (hds : ∀ d ∈ ds, cls.goesOnWith d = true) :
    Agrees K L (ofLexeme K cls (c :: ds) span) (ofLexeme L cls (c :: ds) span) := by
  refine ⟨rfl, rfl, fun hkind => ?_⟩
  cases cls with
  | word =>
      refine ⟨⟨c, ds, String.toList_ofList, hc, hds⟩, fun hsame => hkind ?_⟩
      rw [← isReserved_iff, ← isReserved_iff, ← Bool.eq_iff_iff] at hsame
      show LexemeClass.kind K _ .word = LexemeClass.kind L _ .word
      rw [LexemeClass.kind, LexemeClass.kind]
      exact hsame ▸ rfl
  | digits => exact absurd rfl hkind
  | operatorMark => exact absurd rfl hkind
  | punctuationMark => exact absurd rfl hkind

theorem exists_scanFrom_agrees (L : Reserved) (cs : List Char) : ∀ {o : Nat} {ts : List Token},
    scanFrom K o cs = .ok ts →
      ∃ us, scanFrom L o cs = .ok us ∧ List.Forall₂ (Agrees K L) ts us := by
  induction cs using scanInduction with
  | nil =>
      intro o ts h
      rw [scanFrom_nil] at h
      cases h
      exact ⟨[], scanFrom_nil, .nil⟩
  | blank c cs hc ih =>
      intro o ts h
      rw [scanFrom_blank hc] at h ⊢
      exact ih h
  | foreign c cs hc hnone =>
      intro o ts h
      rw [scanFrom_foreign hc hnone] at h
      cases h
  | lexeme cls c ds rest hc hreach ih =>
      intro o ts h
      obtain ⟨span, us, hstart, hstop, rfl, hus⟩ := (scanFrom_lexeme_eq_ok_iff hc hreach).mp h
      obtain ⟨vs, hvs, hagree⟩ := ih hus
      refine ⟨ofLexeme L cls (c :: ds) span :: vs, ?_, ?_⟩
      · exact (scanFrom_lexeme_eq_ok_iff hc hreach).mpr ⟨span, vs, hstart, hstop, rfl, hvs⟩
      · exact .cons (agrees_ofLexeme span hc hreach.1) hagree

theorem exists_scan_agrees (L : Reserved) {source : String} {ts : List Token}
    (h : scan K source = .ok ts) :
    ∃ us, scan L source = .ok us ∧ List.Forall₂ (Agrees K L) ts us := by
  rw [scan_eq] at h ⊢
  exact exists_scanFrom_agrees L source.toList h

end Agreement

/-- The tokens of a source are its only tokenization, and another set of reserved words changes
nothing but the kinds of the words on which the two sets differ. -/
theorem scan_eq_ok_iff (K : Reserved) (source : String) :
    (∀ ts, scan K source = .ok ts ↔ Tokenizes K source ts) ∧
      (∀ ts us, Tokenizes K source ts → Tokenizes K source us → ts = us) ∧
      (∀ L ts, scan K source = .ok ts →
        ∃ us, scan L source = .ok us ∧ List.Forall₂ (Agrees K L) ts us) := by
  refine ⟨fun ts => scan_eq_ok_iff_tokenizes, fun ts us hts hus => ?_, fun L ts => ?_⟩
  · have hscan := scan_eq_ok_iff_tokenizes.mpr hts
    rw [scan_eq_ok_iff_tokenizes.mpr hus] at hscan
    exact (Except.ok.inj hscan).symm
  · exact exists_scan_agrees L

/-- A keyword, and behind it a number and a word that stand side by side. -/
theorem tokenizes_adjacent : Tokenizes .standard "ye 10is2"
    [⟨.keyword, "ye", ⟨0, 2, by decide, by decide⟩⟩,
      ⟨.number, "10", ⟨3, 5, by decide, by decide⟩⟩,
      ⟨.identifier, "is2", ⟨5, 8, by decide, by decide⟩⟩] := by
  refine ((scan_eq_ok_iff _ _).1 _).mp ?_
  decide +kernel

end Token

end FlatScript
