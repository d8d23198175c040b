import TypedComponent.Text.Span

/-!
The reasons for which an edit is refused.
-/

namespace TypedComponent

inductive EditError where
  /-- The offset is past the end of the text. -/
  | outOfBounds (offset length : Nat)
  /-- The offset splits a character. -/
  | notBoundary (offset : Nat)
  /-- The range ends before it begins, or an overwrite covers nothing. -/
  | invalidRange (range : Span)
  /-- The destination lies inside the moved range. -/
  | moveIntoSelf (range : Span) (destination : Nat)
  /-- The edit at `range` cannot stand beside the accepted edit at `earlier`. -/
  | conflict (range earlier : Span)
deriving DecidableEq, Repr

namespace EditError

def message : EditError → String
  | .outOfBounds offset length =>
    s!"offset {offset} is out of bounds (text length is {length})"
  | .notBoundary offset => s!"offset {offset} is not on a character boundary"
  | .invalidRange range => s!"invalid range {range.start}..{range.stop}"
  | .moveIntoSelf range destination =>
    s!"cannot move {range.start}..{range.stop} to {destination}, which is inside the moved range"
  | .conflict range earlier =>
    s!"edit at {range.start}..{range.stop} conflicts with an earlier edit at {earlier.start}..{earlier.stop}"

end EditError

end TypedComponent
