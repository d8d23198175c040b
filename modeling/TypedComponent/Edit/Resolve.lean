import TypedComponent.Edit.Buffer
import TypedComponent.PositionMap.Builder

/-!
What a buffer's edits come to. The text is cut into segments at every offset
that an edit mentions, the moves reorder the segments one move after another,
and each segment is written as a list of pieces: text inserted before it, its
own text or what replaces it, text inserted after it. The edited text is the
pieces one after another, and the position map is built from the same pieces.
-/

namespace TypedComponent

/-- A piece of edited text by its origin. -/
inductive Piece where
  /-- Text that an edit brought in. -/
  | made (text : Text)
  /-- Source text from `start` on. -/
  | source (start : Nat) (text : Text)
  /-- Text in place of a range of the source. -/
  | replacing (range : Span) (text : Text)
deriving DecidableEq, Repr

namespace Piece

def text : Piece → Text
  | made text | source _ text | replacing _ text => text

/-- Writes a piece to the map under construction. -/
def record (builder : PositionMap.Builder) : Piece → PositionMap.Builder
  | made text => builder.addGenerated text
  | source start text => builder.addSource start text
  | replacing range text => builder.addReplacing range text

end Piece

/-- An edited text and the map back to the text it was made from. -/
structure Edited where
  code : Text
  map : PositionMap
deriving DecidableEq, Repr

namespace Edited

def ofPieces (pieces : List Piece) : Edited :=
  ⟨pieces.flatMap Piece.text, (pieces.foldl Piece.record .empty).build⟩

end Edited

namespace EditBuffer

/-- Adds an offset to an ascending list without repetitions. -/
def insertCut (cut : Nat) : List Nat → List Nat
  | [] => [cut]
  | first :: rest =>
    if cut < first then cut :: first :: rest
    else if cut = first then first :: rest
    else first :: insertCut cut rest

/-- The offsets that the edits mention and the two ends of the text, each
once, in order. -/
def cuts (buffer : EditBuffer) : List Nat :=
  let mentioned :=
    buffer.insertions.map (·.offset) ++
      buffer.replacements.flatMap (fun r => [r.range.start, r.range.stop]) ++
      buffer.moves.flatMap (fun m => [m.range.start, m.range.stop, m.destination])
  (0 :: buffer.length :: mentioned).foldr insertCut []

/-- The spans between neighbouring cuts. -/
def between : List Nat → List Span
  | start :: stop :: rest => ⟨start, stop⟩ :: between (stop :: rest)
  | _ => []

/-- The source text in parts that every edit either covers or leaves alone. -/
def segments (buffer : EditBuffer) : List Span := between buffer.cuts

/-- Takes the segments inside the moved range out and puts them in front of
the segment that begins at the destination, or last if there is none. -/
def applyMove (order : List Span) (move : Move) : List Span :=
  let moved := order.filter (move.range.containsSpan ·)
  let others := order.filter (!move.range.containsSpan ·)
  others.takeWhile (·.start != move.destination) ++ moved ++
    others.dropWhile (·.start != move.destination)

/-- The segments in the order in which they are written. -/
def order (buffer : EditBuffer) : List Span :=
  buffer.moves.foldl applyMove buffer.segments

/-- A segment's own text, or what is written in its place. An overwritten
range gives its text at its start. -/
def content (buffer : EditBuffer) (segment : Span) : List Piece :=
  match buffer.replacements.find? (·.range.containsSpan segment) with
  | none => [.source segment.start (Text.slice buffer.source segment)]
  | some ⟨_, none⟩ => []
  | some ⟨range, some text⟩ =>
    if segment.start = range.start then [.replacing range text] else []

/-- The texts inserted on one side of an offset. -/
def insertedAt (buffer : EditBuffer) (side : Side) (offset : Nat) : List Piece :=
  (buffer.insertions.filter fun i => i.side = side && i.offset == offset).map
    fun i => .made i.text

/-- Everything written for a segment. -/
def segmentPieces (buffer : EditBuffer) (segment : Span) : List Piece :=
  buffer.insertedAt .before segment.start ++ buffer.content segment ++
    buffer.insertedAt .after segment.stop

/-- Everything written. Text inserted after offset zero or before the end of
the text has no segment to stay with and keeps to that end. -/
def pieces (buffer : EditBuffer) : List Piece :=
  .made buffer.intro :: buffer.insertedAt .after 0 ++
    buffer.order.flatMap buffer.segmentPieces ++
    buffer.insertedAt .before buffer.length ++ [.made buffer.outro]

/-- The text after all edits, with its map. -/
def finish (buffer : EditBuffer) : Edited := Edited.ofPieces buffer.pieces

end EditBuffer

end TypedComponent
