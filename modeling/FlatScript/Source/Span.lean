/-!
# Spans

A span is a range of byte offsets into a source.  Offsets are 32-bit: the bound is part of the
type, so a token, an error and a label can only point at places that a source may have.  The two
ends are otherwise free, since a span built by hand may run backwards.
-/

namespace FlatScript

/-- The greatest byte offset that a span can hold. -/
abbrev maxOffset : Nat := 4294967295

/-- The bytes from `start` up to, and without, `stop`. -/
structure Span where
  start : Nat
  stop : Nat
  start_le : start ≤ maxOffset
  stop_le : stop ≤ maxOffset
deriving DecidableEq

/-- Which end of a range does not fit into a span. -/
inductive SpanError where
  | startTooLarge (offset : Nat)
  | stopTooLarge (offset : Nat)
deriving DecidableEq

namespace SpanError

/-- The text that reports the error. -/
def message : SpanError → String
  | startTooLarge offset => s!"span start {offset} exceeds u32::MAX"
  | stopTooLarge offset => s!"span end {offset} exceeds u32::MAX"

end SpanError

namespace Span

/-- The span of a range of offsets; of two ends that do not fit, the start is reported. -/
def ofRange (start stop : Nat) : Except SpanError Span :=
  if hs : start ≤ maxOffset then
    if he : stop ≤ maxOffset then .ok ⟨start, stop, hs, he⟩
    else .error (.stopTooLarge stop)
  else .error (.startTooLarge start)

/-- The empty span at an offset. -/
def point (offset : Nat) (h : offset ≤ maxOffset) : Span := ⟨offset, offset, h, h⟩

/-- The span at the start of every source. -/
def origin : Span := point 0 (Nat.zero_le _)

/-- The empty span behind a span. -/
def atStop (s : Span) : Span := point s.stop s.stop_le

/-- The span of `width` bytes at `offset`, both ends drawn back to the greatest offset. -/
def clamped (offset width : Nat) : Span :=
  let start := min offset maxOffset
  ⟨start, min (start + width) maxOffset, Nat.min_le_right .., Nat.min_le_right ..⟩

/-- The number of bytes covered.  A span that runs backwards covers no number of bytes: the
difference of its ends as 32-bit words stops the program or wraps around.  Zero stands for it here,
so nothing that is said of the width of such a span is said of the program. -/
def width (s : Span) : Nat := s.stop - s.start

/-- Whether the two ends meet. -/
def isEmpty (s : Span) : Bool := s.start == s.stop

/-- A span is written with two dots between its ends. -/
def text (s : Span) : String := s!"{s.start}..{s.stop}"

/-- A range within bounds is its own span. -/
theorem ofRange_eq_ok {start stop : Nat} (hs : start ≤ maxOffset) (he : stop ≤ maxOffset) :
    ofRange start stop = .ok ⟨start, stop, hs, he⟩ := by
  simp [ofRange, hs, he]

/-- A span keeps the ends it was built from. -/
theorem ofRange_ok {start stop : Nat} {s : Span} (h : ofRange start stop = .ok s) :
    s.start = start ∧ s.stop = stop := by
  unfold ofRange at h
  split at h
  · split at h
    · cases h; exact ⟨rfl, rfl⟩
    · cases h
  · cases h

end Span

end FlatScript
