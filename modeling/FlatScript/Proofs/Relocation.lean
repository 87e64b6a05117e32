import FlatScript.Proofs.Lookahead
import Mathlib.Data.List.Forall2

/-!
# Reading tokens in other places

The grammar looks at kinds and texts.  Places only go from tokens into errors, so lists of tokens
that differ in nothing but their places read as the same program, or are refused with errors that
differ in nothing but theirs.  How the places differ is a relation on spans, of which nothing is
asked but that it carries over from two spans to the points behind them.

Main statement, `ofTokens_moved`.
-/

namespace FlatScript

/-- Two results that are both values or both errors, related one way or the other. -/
def Alike {ε ε' α α' : Type} (P : ε → ε' → Prop) (Q : α → α' → Prop) :
    Except ε α → Except ε' α' → Prop
  | .error e, .error e' => P e e'
  | .ok a, .ok a' => Q a a'
  | _, _ => False

section Alike

variable {ε ε' α α' β β' : Type} {P : ε → ε' → Prop} {Q : α → α' → Prop} {R : β → β' → Prop}
  {x : Except ε α} {y : Except ε' α'}

theorem Alike.bind {f : α → Except ε β} {g : α' → Except ε' β'} (h : Alike P Q x y)
    (hfg : ∀ a a', Q a a' → Alike P R (f a) (g a')) : Alike P R (x >>= f) (y >>= g) := by
  cases x with
  | error e =>
      cases y with
      | error e' => exact h
      | ok a' => cases h
  | ok a =>
      cases y with
      | error e' => cases h
      | ok a' => exact hfg a a' h

theorem Alike.map {f : α → β} {g : α' → β'} (h : Alike P Q x y)
    (hfg : ∀ a a', Q a a' → R (f a) (g a')) : Alike P R (x.map f) (y.map g) := by
  cases x with
  | error e =>
      cases y with
      | error e' => exact h
      | ok a' => cases h
  | ok a =>
      cases y with
      | error e' => cases h
      | ok a' => exact hfg a a' h

theorem Alike.exists_ok {a : α} (h : Alike P Q (.ok a) y) : ∃ a', y = .ok a' ∧ Q a a' := by
  cases y with
  | error e' => cases h
  | ok a' => exact ⟨a', rfl, h⟩

theorem Alike.exists_error {e : ε} (h : Alike P Q (.error e) y) :
    ∃ e', y = .error e' ∧ P e e' := by
  cases y with
  | error e' => exact ⟨e', rfl, h⟩
  | ok a' => cases h

end Alike

/-! ## Moved tokens and errors -/

section Moved

variable (R : Span → Span → Prop)

/-- The same token in a related place. -/
def Token.Moved (t u : Token) : Prop := t.shape = u.shape ∧ R t.span u.span

/-- The same error in a related place. -/
inductive ParseError.Moved : ParseError → ParseError → Prop
  | unexpected {expected : Expected} {found : Found} {s s' : Span} : R s s' →
      Moved (.unexpected expected found s) (.unexpected expected found s')
  | literalOutOfRange {t u : Token} : t.Moved R u →
      Moved (.literalOutOfRange t) (.literalOutOfRange u)

end Moved

variable {R : Span → Span → Prop} {t u : Token}

namespace Token.Moved

variable (h : t.Moved R u)

include h

theorem kind_eq : t.kind = u.kind := (Prod.mk.inj h.1).1

theorem text_eq : t.text = u.text := (Prod.mk.inj h.1).2

theorem isExactly_eq (kind : TokenKind) (text : String) :
    t.isExactly kind text = u.isExactly kind text := by
  rw [isExactly, isExactly, h.kind_eq, h.text_eq]

theorem isKeyword_eq (k : Keyword) : t.isKeyword k = u.isKeyword k :=
  h.isExactly_eq .keyword k.word

theorem isMark_eq (mark : Char) : t.isMark mark = u.isMark mark := by
  rw [isMark, isMark, h.kind_eq, h.text_eq]

theorem unexpected (expected : Expected) :
    ParseError.Moved R (.unexpected expected (.ofToken t) t.span)
      (.unexpected expected (.ofToken u) u.span) := by
  have hfound : Found.ofToken t = .ofToken u := by
    rw [Found.ofToken, Found.ofToken, h.kind_eq, h.text_eq]
  rw [hfound]
  exact .unexpected h.2

end Token.Moved

namespace Grammar.Pending

/-- The same value, or the same error in a related place. -/
abbrev Agree (R : Span → Span → Prop) {α : Type} :
    Except ParseError α → Except ParseError α → Prop :=
  Alike (ParseError.Moved R) Eq

section Step

variable (h : t.Moved R u) (k : Pending)

include h

theorem isArithmetic_moved : isArithmetic t = isArithmetic u := by
  rw [isArithmetic, isArithmetic, h.kind_eq, h.text_eq]

theorem begin_moved : Agree R (begin t k) (begin u k) := by
  rw [begin, begin, h.isMark_eq, h.isKeyword_eq, h.isKeyword_eq, h.isKeyword_eq]
  split
  · rfl
  · split
    · rfl
    · split
      · rfl
      · split
        · rfl
        · exact h.unexpected _

theorem need_moved {accepted accepted' : Bool} (expected : Expected) (ha : accepted = accepted') :
    Agree R (need accepted expected t k) (need accepted' expected u k) := by
  subst ha
  rw [need, need]
  split
  · rfl
  · exact h.unexpected _

theorem step_moved : ∀ k : Pending, Agree R (step k t) (step k u)
  | [] => begin_moved h _
  | .statement :: k => begin_moved h k
  | .body :: k => by
      rw [step, step, h.isMark_eq]
      split
      · rfl
      · exact begin_moved h _
  | .token kind text :: k => need_moved h k _ (h.isExactly_eq kind text)
  | .name :: k => need_moved h k _ (by rw [h.kind_eq])
  | .operand :: k => by
      rw [step, step, h.kind_eq, h.text_eq]
      split
      · split
        · rfl
        · exact .literalOutOfRange h
      · exact need_moved h k _ rfl
  | .more :: k => by
      rw [step, step, isArithmetic_moved h]
      split
      · rfl
      · exact step_moved k

end Step

theorem advance_moved {ts us : List Token} (h : List.Forall₂ (Token.Moved R) ts us) :
    ∀ k : Pending, Agree R (advance k ts) (advance k us) := by
  induction h with
  | nil =>
      intro k
      rfl
  | cons htu _ ih =>
      intro k
      rw [advance, advance, List.foldlM_cons, List.foldlM_cons]
      refine (step_moved htu k).bind ?_
      rintro k' _ rfl
      exact ih k'

theorem stop_moved {s s' : Span} (h : R s s') (k : Pending) : Agree R (stop s k) (stop s' k) := by
  induction k with
  | nil => rfl
  | cons item k ih =>
      cases item with
      | more => exact ih
      | token kind text => exact .unexpected h
      | name => exact .unexpected h
      | operand => exact .unexpected h
      | statement => exact .unexpected h
      | body => exact .unexpected h

end Grammar.Pending

/-! ## Programs of moved tokens -/

variable {ts us : List Token}

theorem Token.map_shape_moved (h : List.Forall₂ (Token.Moved R) ts us) :
    ts.map Token.shape = us.map Token.shape := by
  induction h with
  | nil => rfl
  | cons htu _ ih => rw [List.map_cons, List.map_cons, htu.1, ih]

theorem Cursor.finishOf_moved (hR : ∀ s s', R s s' → R s.atStop s'.atStop)
    (h : List.Forall₂ (Token.Moved R) ts us) (hne : ts ≠ []) :
    R (Cursor.finishOf ts) (Cursor.finishOf us) := by
  induction h with
  | nil => exact absurd rfl hne
  | cons htu hrest ih =>
      cases hrest with
      | nil => exact hR _ _ htu.2
      | cons _ _ =>
          rw [finishOf, finishOf, List.getLast?_cons_cons, List.getLast?_cons_cons]
          exact ih (List.cons_ne_nil _ _)

open Grammar Pending

/-- What tokens read as does not depend on their places, and of an error only the place does. -/
theorem Program.ofTokens_moved (hR : ∀ s s', R s s' → R s.atStop s'.atStop)
    (h : List.Forall₂ (Token.Moved R) ts us) : Agree R (ofTokens ts) (ofTokens us) := by
  cases hts : ofTokens ts with
  | ok p =>
      have hp := derives_of_ofTokens hts
      rw [Token.map_shape_moved h] at hp
      rw [ofTokens_of_derives hp]
      rfl
  | error e =>
      rw [ofTokens_eq_error_iff] at hts
      have hne : ts ≠ [] := by
        rintro rfl
        cases hts
      have hverdict : Agree R (advance [] ts >>= stop (Cursor.finishOf ts))
          (advance [] us >>= stop (Cursor.finishOf us)) := by
        refine (advance_moved h []).bind ?_
        rintro k _ rfl
        exact stop_moved (Cursor.finishOf_moved hR h hne) k
      rw [hts] at hverdict
      obtain ⟨e', hus, he⟩ := hverdict.exists_error
      rw [ofTokens_eq_error_iff.mpr hus]
      exact he

end FlatScript
