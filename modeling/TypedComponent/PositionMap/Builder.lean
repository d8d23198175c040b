import TypedComponent.PositionMap.Basic

/-!
A position map grows as its generated text is written from front to back. The
builder counts the bytes written so far and joins a piece with the one before
it when both sides simply go on.
-/

namespace TypedComponent.PositionMap

/-- A map under construction: the mappings so far, latest first, and the
length of the generated text. -/
structure Builder where
  reversed : List Mapping
  generatedLength : Nat
deriving DecidableEq, Repr

namespace Builder

def empty : Builder := ⟨[], 0⟩

/-- Whether a new piece continues the latest mapping on both sides, byte by
byte. -/
def continues (last : Mapping) (generated source : Span) : Bool :=
  last.isVerbatim && source.length == generated.length &&
    last.generated.stop == generated.start && last.source.stop == source.start

/-- Writes text that comes from nowhere in the source. -/
def addGenerated (builder : Builder) (text : Text) : Builder :=
  { builder with generatedLength := builder.generatedLength + Text.bytes text }

/-- Writes text that stands for the span `source`. -/
def addReplacing (builder : Builder) (source : Span) (text : Text) : Builder :=
  let generated : Span :=
    ⟨builder.generatedLength, builder.generatedLength + Text.bytes text⟩
  if text = [] then builder
  else
    match builder.reversed with
    | [] => ⟨[⟨generated, source⟩], generated.stop⟩
    | last :: earlier =>
      if continues last generated source then
        ⟨⟨last.generated.through generated, last.source.through source⟩ :: earlier,
          generated.stop⟩
      else ⟨⟨generated, source⟩ :: last :: earlier, generated.stop⟩

/-- Writes source text unchanged. -/
def addSource (builder : Builder) (start : Nat) (text : Text) : Builder :=
  builder.addReplacing ⟨start, start + Text.bytes text⟩ text

def build (builder : Builder) : PositionMap :=
  ⟨builder.reversed.reverse⟩

end Builder

end TypedComponent.PositionMap
