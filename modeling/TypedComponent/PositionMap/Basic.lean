import TypedComponent.Text.Span

/-!
Position maps tie the bytes of a generated text to the bytes of its source, the
text it was made from. A map is a list of pairs of spans in generated order; looking
up an offset on one side finds a pair and carries the distance from the start
of its span over to the other side, where it stops at the last byte.
-/

namespace TypedComponent

/-- One piece of generated text and the part of the source it comes from. -/
structure Mapping where
  generated : Span
  source : Span
deriving DecidableEq, Repr

namespace Mapping

/-- A piece of the same length on both sides maps byte by byte. -/
def isVerbatim (mapping : Mapping) : Bool :=
  mapping.generated.length == mapping.source.length

/-- Carries an offset of one span over to another. -/
def carry (own other : Span) (offset : Nat) : Nat :=
  other.start + min (offset - own.start) (other.length - 1)

end Mapping

/-- The mappings of a generated text, in the order of that text. -/
structure PositionMap where
  mappings : List Mapping
deriving DecidableEq, Repr

namespace PositionMap

def empty : PositionMap := ⟨[]⟩

/-- The source offset of a generated one; none for text that was made up.
The generated spans are disjoint and in order, so the only candidate is the
last one that begins at or before the offset. -/
def sourcePosition? (map : PositionMap) (generated : Nat) : Option Nat :=
  match (map.mappings.takeWhile (·.generated.start ≤ generated)).getLast? with
  | none => none
  | some mapping =>
    if mapping.generated.contains generated then
      some (Mapping.carry mapping.generated mapping.source generated)
    else none

/-- The generated offset of a source one; none for text that was left out.
Source spans may come in any order, and the first one that holds the offset
decides. -/
def generatedPosition? (map : PositionMap) (source : Nat) : Option Nat :=
  (map.mappings.find? (·.source.contains source)).map fun mapping =>
    Mapping.carry mapping.source mapping.generated source

end PositionMap

end TypedComponent
