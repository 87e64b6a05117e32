import FlatScript.Proofs.Walk

/-!
# A cursor hands out its tokens once and in order

Ten calls are all that a reader can do with a cursor.  Six look at it, and four read the next token
if it is one that they want.  Whatever is called, in whatever order, the tokens handed out are the
tokens of the list up to where the cursor is: none is skipped, repeated or lost where a call is
refused.

The calls are put to cursors that are handed on (`Call.ask`), which is how the reader uses them, and
to one cursor that is moved (`Call.walk`), which stays where it is when a call is refused because
the token is looked at before it is read.  `Exchange.Due` says what is due of a call at an index of
the list, and where it leaves the cursor; every call gives what is due (`Call.due`).  A `Dialogue`
is a sequence of such exchanges, and what holds of all of it is shown by induction on it.

Main statement, `Walk.calls_deliver`.
-/

namespace FlatScript

open Cursor (before)

/-! ## Calls -/

/-- What a call that reads a token may want. -/
inductive Wanted where
  | exactly (kind : TokenKind) (text : String)
  | mark (char : Char)
  | someToken (kind : TokenKind)
deriving DecidableEq

namespace Wanted

/-- Whether a token is wanted. -/
def Fits : Wanted → Token → Prop
  | exactly kind text, t => t.kind = kind ∧ t.text = text
  | mark char, t => t.kind = .punctuation ∧ t.text = String.singleton char
  | someToken kind, t => t.kind = kind

/-- What an error says in its place. -/
def expected : Wanted → Expected
  | exactly kind text => .exactly kind text
  | mark char => .exactly .punctuation (String.singleton char)
  | someToken kind => .someToken kind

def read : Wanted → (c : Cursor) → Except ParseError (Read c Token)
  | exactly kind text, c => c.expect kind text
  | mark char, c => c.expectMark char
  | someToken kind, c => c.expectKind kind

def walk (ts : List Token) : Wanted → Walk Token
  | exactly kind text => Walk.expect ts kind text
  | mark char => Walk.expectMark ts char
  | someToken kind => Walk.expectKind ts kind

end Wanted

/-- What can be called on a cursor. -/
inductive Call where
  | isAtEnd
  | current
  | finish
  | checkKeyword (k : Keyword)
  | checkMark (mark : Char)
  | errorHere (expected : Expected)
  | advance
  | expect (wanted : Wanted)
deriving DecidableEq

namespace Call

/-- What a call that does not fail answers. -/
abbrev Answer : Call → Type
  | isAtEnd => Bool
  | current => Option Token
  | finish => Span
  | checkKeyword _ => Bool
  | checkMark _ => Bool
  | errorHere _ => ParseError
  | advance => Option Token
  | expect _ => Token

/-- The call, put to a cursor, and the cursor that the next call is put to: the one behind the token
that was read, or the same if none was. -/
def ask : (call : Call) → (c : Cursor) → Except ParseError call.Answer × Cursor
  | isAtEnd, c => (.ok c.isAtEnd, c)
  | current, c => (.ok c.current, c)
  | finish, c => (.ok c.finish, c)
  | checkKeyword k, c => (.ok (c.checkKeyword k), c)
  | checkMark mark, c => (.ok (c.checkMark mark), c)
  | errorHere expected, c => (.ok (c.errorHere expected), c)
  | advance, c =>
    match c.advance? with
    | some r => (.ok (some r.value), r.next)
    | none => (.ok none, c)
  | expect wanted, c =>
    match wanted.read c with
    | .ok r => (.ok r.value, r.next)
    | .error e => (.error e, c)

/-- The call, put to the cursor that is moved. -/
def walk (ts : List Token) : (call : Call) → Walk call.Answer
  | isAtEnd => return (← Walk.here ts).isAtEnd
  | current => return (← Walk.here ts).current
  | finish => return (← Walk.here ts).finish
  | checkKeyword k => return (← Walk.here ts).checkKeyword k
  | checkMark mark => return (← Walk.here ts).checkMark mark
  | errorHere expected => return (← Walk.here ts).errorHere expected
  | advance => Walk.take ts
  | expect wanted => wanted.walk ts

/-- The tokens that a call reads.  A call that looks at the cursor reads none. -/
def Reads : Call → Token → Prop
  | advance, _ => True
  | expect wanted, t => wanted.Fits t
  | _, _ => False

/-- What an error that the call reports says it expected. -/
def expected? : Call → Option Expected
  | errorHere expected => some expected
  | expect wanted => some wanted.expected
  | _ => none

end Call

/-- A call and its answer. -/
structure Exchange where
  call : Call
  answer : Except ParseError call.Answer

namespace Exchange

/-- The token that was handed out. -/
def handed : Exchange → Option Token
  | ⟨.advance, .ok t⟩ => t
  | ⟨.expect _, .ok t⟩ => some t
  | _ => none

/-- The error that was reported, be it as a failure or because it was asked for. -/
def error? : Exchange → Option ParseError
  | ⟨.errorHere _, .ok e⟩ => some e
  | ⟨_, .error e⟩ => some e
  | _ => none

/-- A call that is never refused is answered by what stands at the index. -/
def Shows (ts : List Token) (i : Nat) : Exchange → Prop
  | ⟨.isAtEnd, answer⟩ => answer = .ok (decide (ts.length ≤ i))
  | ⟨.current, answer⟩ => answer = .ok ts[i]?
  | ⟨.finish, answer⟩ => ∃ s : Span, answer = .ok s ∧ s.IsEndOf ts
  | ⟨.checkKeyword k, answer⟩ => answer = .ok (ts[i]?.any (·.isKeyword k))
  | ⟨.checkMark mark, answer⟩ => answer = .ok (ts[i]?.any (·.isMark mark))
  | ⟨.advance, answer⟩ => answer = .ok ts[i]?
  | _ => True

/-- What is due of a call at the index `i` of a list, and the index `j` behind it. -/
structure Due (ts : List Token) (i : Nat) (x : Exchange) (j : Nat) : Prop where
  /-- The token at the index is handed out, if the call reads such tokens. -/
  handed_iff : ∀ t, x.handed = some t ↔ ts[i]? = some t ∧ x.call.Reads t
  moves : ∀ t, x.handed = some t → j = i + 1
  stays : x.handed = none → j = i
  shows : x.Shows ts i
  reports : ∀ e, x.error? = some e → e.At ts i ∧
    ∃ expected found span, x.call.expected? = some expected ∧ e = .unexpected expected found span

end Exchange

/-! ## What a call does -/

section Calls

variable {ts : List Token} {i : Nat} {p : Progress}

theorem Cursor.isAtEnd_before : (before ts i).isAtEnd = decide (ts.length ≤ i) := by
  rw [Bool.eq_iff_iff, isAtEnd_before_iff, decide_eq_true_eq]

theorem Cursor.exists_errorHere_eq (c : Cursor) (expected : Expected) :
    ∃ found span, c.errorHere expected = .unexpected expected found span := by
  rw [errorHere]
  cases c.current with
  | none => exact ⟨_, _, rfl⟩
  | some t => exact ⟨_, _, rfl⟩

namespace Walk

/-- What the cursor that is moved does with a token that it tests. -/
theorem readIf_eq (ts : List Token) (accepts : Token → Bool) (expected : Expected) (p : Progress) :
    readIf ts accepts expected p = match ts[p.index]? with
      | some t =>
        if accepts t = true then some (.ok t, ⟨p.index + 1, p.begun⟩)
        else some (.error ((before ts p.index).errorHere expected), p)
      | none => some (.error ((before ts p.index).errorHere expected), p) := by
  rw [← Cursor.current_before]
  refine (bind_of_ok rfl).trans ?_
  cases (before ts p.index).current with
  | none => rfl
  | some t =>
      dsimp only
      split
      · rfl
      · rfl

end Walk

namespace Wanted

/-- Whatever is wanted, it is read by a test of the next token. -/
theorem exists_readIf (ts : List Token) (wanted : Wanted) : ∃ accepts : Token → Bool,
    (∀ t, accepts t = true ↔ wanted.Fits t) ∧
      (∀ c, wanted.read c = c.readIf accepts wanted.expected) ∧
      wanted.walk ts = Walk.readIf ts accepts wanted.expected := by
  have hshape (t : Token) (kind : TokenKind) (text : String) :
      t.isExactly kind text = true ↔ t.kind = kind ∧ t.text = text :=
    Token.isExactly_iff.trans (Eq.to_iff (Prod.mk.injEq ..))
  cases wanted with
  | exactly kind text =>
      exact ⟨(·.isExactly kind text), fun t => hshape t kind text, fun _ => rfl, rfl⟩
  | mark char =>
      exact ⟨(·.isExactly .punctuation (String.singleton char)),
        fun t => hshape t .punctuation (String.singleton char), fun _ => rfl, rfl⟩
  | someToken kind => exact ⟨(·.kind == kind), fun _ => beq_iff_eq, fun _ => rfl, rfl⟩

variable {wanted : Wanted}

/-- A token that is wanted is handed out, and the cursor moves behind it. -/
theorem walk_of_fits {t : Token} (ht : ts[p.index]? = some t) (hfits : wanted.Fits t) :
    wanted.walk ts p = some (.ok t, ⟨p.index + 1, p.begun⟩) ∧
      (Call.expect wanted).ask (before ts p.index) = (.ok t, before ts (p.index + 1)) := by
  obtain ⟨accepts, haccepts, hread, hwalk⟩ := exists_readIf ts wanted
  have ha : accepts t = true := (haccepts t).mpr hfits
  constructor
  · rw [hwalk, Walk.readIf_eq, ht]
    exact if_pos ha
  · rw [Call.ask, hread, Cursor.before_of_getElem? ht, Cursor.readIf, Cursor.readIf?_cons,
      if_pos ha]
    rfl

/-- Where no token is wanted, the cursor stays. -/
theorem walk_of_not_fits (h : ∀ t, ts[p.index]? = some t → ¬ wanted.Fits t) :
    wanted.walk ts p = some (.error ((before ts p.index).errorHere wanted.expected), p) ∧
      (Call.expect wanted).ask (before ts p.index)
        = (.error ((before ts p.index).errorHere wanted.expected), before ts p.index) := by
  obtain ⟨accepts, haccepts, hread, hwalk⟩ := exists_readIf ts wanted
  have ha : ∀ t, ts[p.index]? = some t → accepts t = false :=
    fun t ht => Bool.eq_false_iff.mpr fun ha => h t ht ((haccepts t).mp ha)
  constructor
  · rw [hwalk, Walk.readIf_eq]
    cases ht : ts[p.index]? with
    | none => rfl
    | some t =>
        dsimp only
        rw [ha t ht, if_neg Bool.false_ne_true]
  · rw [← Cursor.current_before] at ha
    rw [Call.ask, hread, Cursor.readIf, Cursor.readIf?_eq_none_iff.mpr ha]

end Wanted

theorem take_of_getElem? {t : Token} (ht : ts[p.index]? = some t) :
    Walk.take ts p = some (.ok (some t), ⟨p.index + 1, p.begun⟩) ∧
      Call.advance.ask (before ts p.index) = (.ok (some t), before ts (p.index + 1)) := by
  constructor
  · rw [Walk.take_eq, ht]
  · rw [Cursor.before_of_getElem? ht]
    rfl

theorem take_of_eq_none (ht : ts[p.index]? = none) :
    Walk.take ts p = some (.ok none, p) ∧
      Call.advance.ask (before ts p.index) = (.ok none, before ts p.index) := by
  constructor
  · rw [Walk.take_eq, ht]
  · have hnone : (before ts p.index).advance? = none := by
      refine Cursor.readIf?_eq_none_iff.mpr fun t hcurrent => ?_
      rw [Cursor.current_before, ht] at hcurrent
      cases hcurrent
    rw [Call.ask, hnone]

namespace Exchange.Due

variable {x : Exchange}

theorem of_handed {t : Token} (hx : x.handed = some t) (ht : ts[i]? = some t)
    (hreads : x.call.Reads t) (hshows : x.Shows ts i) (herror : x.error? = none) :
    x.Due ts i (i + 1) where
  handed_iff u := by
    rw [hx, ht]
    constructor
    · rintro ⟨⟩
      exact ⟨rfl, hreads⟩
    · rintro ⟨h, -⟩
      exact h
  moves _ _ := rfl
  stays h := by
    rw [hx] at h
    cases h
  shows := hshows
  reports e he := by
    rw [herror] at he
    cases he

theorem of_kept (hx : x.handed = none) (hreads : ∀ t, ts[i]? = some t → ¬ x.call.Reads t)
    (hshows : x.Shows ts i)
    (hreports : ∀ e, x.error? = some e → ∃ expected, x.call.expected? = some expected ∧
      e = (before ts i).errorHere expected) :
    x.Due ts i i where
  handed_iff t := by
    rw [hx]
    refine ⟨nofun, ?_⟩
    rintro ⟨ht, ht'⟩
    exact absurd ht' (hreads t ht)
  moves t h := by
    rw [hx] at h
    cases h
  stays _ := rfl
  shows := hshows
  reports e he := by
    obtain ⟨expected, hexpected, rfl⟩ := hreports e he
    obtain ⟨found, span, heq⟩ := (before ts i).exists_errorHere_eq expected
    exact ⟨Cursor.errorHere_at rfl expected, expected, found, span, hexpected, heq⟩

/-- Of a call that only looks, what it shows is due. -/
theorem of_shown (hx : x.handed = none) (hreads : ∀ t, ¬ x.call.Reads t) (herror : x.error? = none)
    (hshows : x.Shows ts i) : x.Due ts i i := by
  refine of_kept hx (fun t _ => hreads t) hshows fun e he => ?_
  rw [herror] at he
  cases he

end Exchange.Due

/-- Every call gives what is due, and the moved cursor is where the cursor handed on is. -/
theorem Call.due (ts : List Token) (call : Call) (p : Progress) :
    ∃ answer j, call.walk ts p = some (answer, ⟨j, p.begun⟩) ∧
      call.ask (before ts p.index) = (answer, before ts j) ∧
      Exchange.Due ts p.index ⟨call, answer⟩ j := by
  cases call with
  | isAtEnd =>
      refine ⟨_, _, rfl, rfl, .of_shown rfl (fun _ h => h) rfl ?_⟩
      exact congrArg Except.ok Cursor.isAtEnd_before
  | current =>
      refine ⟨_, _, rfl, rfl, .of_shown rfl (fun _ h => h) rfl ?_⟩
      exact congrArg Except.ok Cursor.current_before
  | finish =>
      refine ⟨_, _, rfl, rfl, .of_shown rfl (fun _ h => h) rfl ?_⟩
      exact ⟨_, rfl, Cursor.finishOf_isEndOf ts⟩
  | checkKeyword k =>
      refine ⟨_, _, rfl, rfl, .of_shown rfl (fun _ h => h) rfl ?_⟩
      exact congrArg (fun t : Option Token => Except.ok (t.any (·.isKeyword k)))
        Cursor.current_before
  | checkMark mark =>
      refine ⟨_, _, rfl, rfl, .of_shown rfl (fun _ h => h) rfl ?_⟩
      exact congrArg (fun t : Option Token => Except.ok (t.any (·.isMark mark)))
        Cursor.current_before
  | errorHere expected =>
      refine ⟨_, _, rfl, rfl, .of_kept rfl (fun _ _ h => h) trivial ?_⟩
      rintro _ ⟨⟩
      exact ⟨expected, rfl, rfl⟩
  | advance =>
      cases ht : ts[p.index]? with
      | some t =>
          obtain ⟨hwalk, hask⟩ := take_of_getElem? ht
          exact ⟨_, _, hwalk, hask, .of_handed rfl ht trivial (congrArg Except.ok ht.symm) rfl⟩
      | none =>
          obtain ⟨hwalk, hask⟩ := take_of_eq_none ht
          refine ⟨_, _, hwalk, hask, .of_kept rfl ?_ (congrArg Except.ok ht.symm) nofun⟩
          rw [ht]
          nofun
  | expect wanted =>
      by_cases h : ∃ t, ts[p.index]? = some t ∧ wanted.Fits t
      · obtain ⟨t, ht, hfits⟩ := h
        obtain ⟨hwalk, hask⟩ := Wanted.walk_of_fits ht hfits
        exact ⟨_, _, hwalk, hask, .of_handed rfl ht hfits trivial rfl⟩
      · have hrefused : ∀ t, ts[p.index]? = some t → ¬ wanted.Fits t :=
          fun t ht hfits => h ⟨t, ht, hfits⟩
        obtain ⟨hwalk, hask⟩ := Wanted.walk_of_not_fits hrefused
        refine ⟨_, _, hwalk, hask, .of_kept rfl hrefused trivial ?_⟩
        rintro _ ⟨⟩
        exact ⟨wanted.expected, rfl, rfl⟩

end Calls

/-! ## Calls one after the other -/

/-- Calls put to cursors that are handed on, each with its answer. -/
def Cursor.askAll (c : Cursor) : List Call → List Exchange × Cursor
  | [] => ([], c)
  | call :: calls =>
    let (answer, d) := call.ask c
    let (xs, e) := d.askAll calls
    (⟨call, answer⟩ :: xs, e)

/-- Calls put to the cursor that is moved, each with its answer. -/
def Walk.askAll (ts : List Token) : List Call → StateT Progress Option (List Exchange)
  | [] => return []
  | call :: calls => do
    let answer ← (call.walk ts).run
    let xs ← Walk.askAll ts calls
    return ⟨call, answer⟩ :: xs

/-- Exchanges one after the other, from one index of the list to another. -/
inductive Dialogue (ts : List Token) : Nat → List Exchange → Nat → Prop
  | nil (i : Nat) : Dialogue ts i [] i
  | cons {i j k : Nat} {x : Exchange} {xs : List Exchange} : x.Due ts i j → Dialogue ts j xs k →
      Dialogue ts i (x :: xs) k

/-- At the end of the list a call hands out nothing and shows nothing, and what it reports is the
end of input, at the point where the last token ends. -/
structure Exchange.Spent (ts : List Token) (x : Exchange) : Prop where
  handed : x.handed = none
  isAtEnd : x.call = .isAtEnd → x = ⟨.isAtEnd, .ok true⟩
  current : x.call = .current → x = ⟨.current, .ok none⟩
  advance : x.call = .advance → x = ⟨.advance, .ok none⟩
  reports : ∀ e, x.error? = some e → e.found = .endOfInput ∧ e.span.IsEndOf ts

section Dialogues

variable {ts : List Token} {i j k : Nat} {x : Exchange} {xs : List Exchange}

theorem ParseError.At.of_length_le {e : ParseError} (h : e.At ts i) (hi : ts.length ≤ i) :
    e.found = .endOfInput ∧ e.span.IsEndOf ts := by
  have hnone : ts[i]? = none := List.getElem?_eq_none hi
  cases h with
  | token _ ht =>
      rw [hnone] at ht
      cases ht
  | finish _ _ hs => exact ⟨rfl, hs⟩
  | literal ht =>
      rw [hnone] at ht
      cases ht

/-- A call hands out the token that the cursor moves over. -/
theorem Exchange.Due.take_eq (h : x.Due ts i j) :
    ts.take i ++ x.handed.toList = ts.take j := by
  cases hx : x.handed with
  | none => rw [h.stays hx, Option.toList_none, List.append_nil]
  | some t => rw [h.moves t hx, List.take_add_one, ((h.handed_iff t).mp hx).1]

theorem Exchange.Due.le_length (h : x.Due ts i j) (hi : i ≤ ts.length) : j ≤ ts.length := by
  cases hx : x.handed with
  | none => exact h.stays hx ▸ hi
  | some t =>
      obtain ⟨hlt, -⟩ := List.getElem?_eq_some_iff.mp ((h.handed_iff t).mp hx).1
      exact h.moves t hx ▸ hlt

theorem Exchange.Due.spent (h : x.Due ts i j) (hi : ts.length ≤ i) : j = i ∧ x.Spent ts := by
  have hnone : ts[i]? = none := List.getElem?_eq_none hi
  have hhanded : x.handed = none := by
    refine Option.eq_none_iff_forall_ne_some.mpr fun t hx => ?_
    have ht := ((h.handed_iff t).mp hx).1
    rw [hnone] at ht
    cases ht
  obtain ⟨call, answer⟩ := x
  refine ⟨h.stays hhanded, hhanded, ?_, ?_, ?_, fun e he => (h.reports e he).1.of_length_le hi⟩
  · rintro rfl
    have hshows : answer = .ok (decide (ts.length ≤ i)) := h.shows
    rw [hshows, decide_eq_true hi]
  · rintro rfl
    have hshows : answer = .ok ts[i]? := h.shows
    rw [hshows, hnone]
  · rintro rfl
    have hshows : answer = .ok ts[i]? := h.shows
    rw [hshows, hnone]

namespace Dialogue

/-- The tokens handed out are those between the two indices. -/
theorem take_eq (h : Dialogue ts i xs k) :
    ts.take i ++ xs.filterMap Exchange.handed = ts.take k := by
  induction h with
  | nil i => exact List.append_nil _
  | @cons i j k x xs hx _ ih =>
      rw [← ih, ← hx.take_eq, List.append_assoc, List.filterMap_cons]
      cases x.handed with
      | none => rfl
      | some t => rfl

theorem le_length (h : Dialogue ts i xs k) (hi : i ≤ ts.length) : k ≤ ts.length := by
  induction h with
  | nil _ => exact hi
  | cons hx _ ih => exact ih (hx.le_length hi)

/-- From the end of the list nothing more comes. -/
theorem spent (h : Dialogue ts i xs k) (hi : ts.length ≤ i) : k = i ∧ ∀ x ∈ xs, x.Spent ts := by
  induction h with
  | nil _ => exact ⟨rfl, List.forall_mem_nil _⟩
  | cons hx _ ih =>
      obtain ⟨rfl, hspent⟩ := hx.spent hi
      obtain ⟨rfl, hspents⟩ := ih hi
      exact ⟨rfl, List.forall_mem_cons.mpr ⟨hspent, hspents⟩⟩

end Dialogue

/-- However calls are put to a cursor, they are a dialogue. -/
theorem exists_dialogue (ts : List Token) (calls : List Call) (p : Progress) :
    ∃ xs k, Walk.askAll ts calls p = some (xs, ⟨k, p.begun⟩) ∧
      (before ts p.index).askAll calls = (xs, before ts k) ∧
      xs.map Exchange.call = calls ∧ Dialogue ts p.index xs k := by
  induction calls generalizing p with
  | nil => exact ⟨[], _, rfl, rfl, rfl, .nil _⟩
  | cons call calls ih =>
      obtain ⟨answer, j, hwalk, hask, hdue⟩ := call.due ts p
      obtain ⟨xs, k, hwalks, hasks, hcalls, hdialogue⟩ := ih ⟨j, p.begun⟩
      refine ⟨⟨call, answer⟩ :: xs, k, ?_, ?_, congrArg _ hcalls, .cons hdue hdialogue⟩
      · show ((call.walk ts p).bind fun a => (Walk.askAll ts calls a.2).bind fun b =>
          some (⟨call, a.1⟩ :: b.1, b.2)) = _
        rw [hwalk]
        show ((Walk.askAll ts calls ⟨j, p.begun⟩).bind fun b =>
          some (⟨call, answer⟩ :: b.1, b.2)) = _
        rw [hwalks]
        rfl
      · rw [Cursor.askAll, hask]
        dsimp only
        rw [hasks]

end Dialogues

/-- From the beginning of any list of tokens, any calls are answered, and they are answered alike by
the cursor that is moved and by cursors that are handed on.  The cursor is then at an index `i`
within the list, and the tokens handed out are the first `i` tokens of the list, in order.  Whatever
is called next gives what is due at `i`: a call that looks and a call that is refused leave the
cursor where it is, and a token is handed out exactly if it is the one that stands at `i` and the
call wants it.  Once `i` is the length of the list, nothing comes any more. -/
theorem Walk.calls_deliver (ts : List Token) (calls : List Call) :
    ∃ xs i, Walk.askAll ts calls ⟨0, 0⟩ = some (xs, ⟨i, 0⟩) ∧
      (Cursor.ofTokens ts).askAll calls = (xs, before ts i) ∧
      xs.map Exchange.call = calls ∧ i ≤ ts.length ∧
      xs.filterMap Exchange.handed = ts.take i ∧
      (∀ call, ∃ answer j, call.walk ts ⟨i, 0⟩ = some (answer, ⟨j, 0⟩) ∧
        call.ask (before ts i) = (answer, before ts j) ∧
        Exchange.Due ts i ⟨call, answer⟩ j) ∧
      (i = ts.length → ∀ later, ∃ ys, Walk.askAll ts later ⟨i, 0⟩ = some (ys, ⟨i, 0⟩) ∧
        (before ts i).askAll later = (ys, before ts i) ∧ ys.map Exchange.call = later ∧
        ∀ y ∈ ys, y.Spent ts) := by
  obtain ⟨xs, i, hwalk, hask, hcalls, hdialogue⟩ := exists_dialogue ts calls ⟨0, 0⟩
  refine ⟨xs, i, hwalk, hask, hcalls, hdialogue.le_length (Nat.zero_le _), hdialogue.take_eq,
    fun call => call.due ts ⟨i, 0⟩, fun hi later => ?_⟩
  obtain ⟨ys, k, hwalk', hask', hcalls', hdialogue'⟩ := exists_dialogue ts later ⟨i, 0⟩
  obtain ⟨rfl, hspent⟩ := hdialogue'.spent (Nat.le_of_eq hi.symm)
  exact ⟨ys, hwalk', hask', hcalls', hspent⟩

/-- A `;` is refused at the first of two tokens, which are then read.  A `;` is refused behind them
too: the input has ended, behind the fourth byte. -/
theorem Walk.calls_deliver_two :
    let ts : List Token :=
      [⟨.keyword, "de", .clamped 0 2⟩, ⟨.identifier, "x", .clamped 3 1⟩]
    ∃ xs, Walk.askAll ts [.expect (.mark ';'), .advance, .expect (.someToken .identifier)] ⟨0, 0⟩
        = some (xs, ⟨2, 0⟩) ∧
      2 = ts.length ∧ xs.filterMap Exchange.handed = ts ∧
      ∃ (y : Exchange) (e : ParseError), y.call = .expect (.mark ';') ∧ y.error? = some e ∧
        e.found = .endOfInput ∧ e.span.start = 4 ∧ e.span.stop = 4 := by
  intro ts
  obtain ⟨xs, i, hwalk, -, -, -, hhanded, -, hend⟩ := Walk.calls_deliver ts
    [.expect (.mark ';'), .advance, .expect (.someToken .identifier)]
  have hrun : Walk.askAll ts [.expect (.mark ';'), .advance, .expect (.someToken .identifier)]
      ⟨0, 0⟩ = some (_, ⟨2, 0⟩) := rfl
  have hi : i = 2 := by
    rw [hrun] at hwalk
    cases hwalk
    rfl
  subst hi
  obtain ⟨ys, hlater, -, -, hspent⟩ := hend rfl [.expect (.mark ';')]
  have hrefused : Walk.askAll ts [.expect (.mark ';')] ⟨2, 0⟩
      = some ([⟨_, .error _⟩], ⟨2, 0⟩) := rfl
  rw [hrefused] at hlater
  cases hlater
  obtain ⟨hfound, hspan⟩ := (hspent _ List.mem_cons_self).reports _ rfl
  obtain ⟨hstart, hstop⟩ := hspan.last _ rfl
  exact ⟨xs, hwalk, rfl, hhanded, ⟨.expect (.mark ';'), .error _⟩, _, rfl, rfl, hfound, hstart,
    hstop⟩

end FlatScript
