import FlatScript.Token.Basic

/-!
# Reserved words

Which words are keywords is a parameter of the scanner.  The reserved words keep the order in
which they were reserved, and no word is reserved twice; two sets that reserve the same words in
another order are different values, although they classify every word alike.
-/

namespace FlatScript

/-- The keywords whose words are reserved, each once, in the order of reservation. -/
structure Reserved where
  keywords : List Keyword
  nodup : keywords.Nodup
deriving DecidableEq

namespace Reserved

/-- No word is reserved. -/
def empty : Reserved := ⟨[], .nil⟩

/-- Reserves one more keyword, behind the others, unless it is reserved already. -/
def reserve (r : Reserved) (k : Keyword) : Reserved :=
  if h : k ∈ r.keywords then r
  else ⟨r.keywords ++ [k], List.nodup_append.2
    ⟨r.nodup, List.pairwise_singleton _ k, fun _ ha _ hb e =>
      h (List.mem_singleton.1 hb ▸ e ▸ ha)⟩⟩

/-- Frees the word of a keyword. -/
def without (r : Reserved) (k : Keyword) : Reserved :=
  ⟨r.keywords.filter (· != k), r.nodup.filter _⟩

/-- Reserves the keywords of a list one by one. -/
def ofList (ks : List Keyword) : Reserved := ks.foldl reserve empty

/-- All keywords are reserved unless a caller says otherwise. -/
def standard : Reserved := ofList Keyword.all

/-- The reserved keyword that a word spells. -/
def lookup (r : Reserved) (word : String) : Option Keyword :=
  r.keywords.find? (·.word == word)

/-- Whether a word is reserved. -/
def isReserved (r : Reserved) (word : String) : Bool := (r.lookup word).isSome

/-- A word is looked up as a keyword exactly when it spells one that is reserved. -/
theorem lookup_eq_some_iff {r : Reserved} {word : String} {k : Keyword} :
    r.lookup word = some k ↔ k ∈ r.keywords ∧ k.word = word := by
  constructor
  · intro h
    exact ⟨List.mem_of_find?_eq_some h, by simpa using List.find?_some h⟩
  · rintro ⟨hk, rfl⟩
    cases h : r.lookup k.word with
    | none =>
      have := List.find?_eq_none.1 h k hk
      simp at this
    | some l =>
      have : l.word = k.word := by simpa using List.find?_some h
      rw [Keyword.word_injective this]

/-- Reserving adds one keyword and keeps the others. -/
@[simp] theorem mem_reserve {r : Reserved} {k l : Keyword} :
    l ∈ (r.reserve k).keywords ↔ l ∈ r.keywords ∨ l = k := by
  unfold reserve
  split
  · next h => exact ⟨.inl, fun hl => hl.elim id (· ▸ h)⟩
  · simp

/-- Freeing removes one keyword and keeps the others. -/
@[simp] theorem mem_without {r : Reserved} {k l : Keyword} :
    l ∈ (r.without k).keywords ↔ l ∈ r.keywords ∧ l ≠ k := by
  simp [without]

end Reserved

end FlatScript
