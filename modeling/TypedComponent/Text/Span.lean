import TypedComponent.Text.Basic

/-!
Half-open spans of byte offsets, and the part of a text that a span covers.
-/

namespace TypedComponent

/-- The offsets from `start` up to but not including `stop`. -/
structure Span where
  start : Nat
  stop : Nat
deriving DecidableEq, Repr

namespace Span

/-- The span without bytes at an offset. -/
def empty (offset : Nat) : Span := ⟨offset, offset⟩

def length (span : Span) : Nat := span.stop - span.start

def isEmpty (span : Span) : Bool := span.start == span.stop

/-- Whether the byte at `offset` belongs to the span. -/
def contains (span : Span) (offset : Nat) : Bool :=
  span.start ≤ offset && offset < span.stop

/-- Whether `offset` lies in the span and at neither end of it. -/
def containsInner (span : Span) (offset : Nat) : Bool :=
  span.start < offset && offset < span.stop

def containsSpan (span inner : Span) : Bool :=
  span.start ≤ inner.start && inner.stop ≤ span.stop

/-- Whether each span begins before the other ends. -/
def overlaps (a b : Span) : Bool :=
  a.start < b.stop && b.start < a.stop

/-- Overlap in which neither span lies inside the other. -/
def crosses (a b : Span) : Bool :=
  a.overlaps b && !a.containsSpan b && !b.containsSpan a

/-- The span moved towards the end of the text. -/
def shifted (span : Span) (delta : Nat) : Span :=
  ⟨span.start + delta, span.stop + delta⟩

/-- The span moved towards the start of the text. -/
def shiftedBack (span : Span) (delta : Nat) : Span :=
  ⟨span.start - delta, span.stop - delta⟩

/-- The smallest span that begins with `a` and ends with `b`. -/
def through (a b : Span) : Span := ⟨a.start, b.stop⟩

theorem contains_iff (span : Span) (offset : Nat) :
    span.contains offset = true ↔ span.start ≤ offset ∧ offset < span.stop := by
  simp [contains]

theorem containsInner_iff (span : Span) (offset : Nat) :
    span.containsInner offset = true ↔ span.start < offset ∧ offset < span.stop := by
  simp [containsInner]

end Span

/-- The part of a text that a span covers. -/
def Text.slice (text : Text) (span : Span) : Text :=
  takeBytes (dropBytes text span.start) span.length

end TypedComponent
