import TypedComponent.Edit.Resolve
import TypedComponent.Proofs.Text.Cells

/-!
What edits mean, character by character. A cell holds the texts inserted before
it, the character or what is written in its place, and the texts inserted after
it; moves carry whole cells. This reads the accepted edits alone and knows
nothing of segments, cuts or conflicts.
-/

namespace TypedComponent

namespace Edit

/-- The text that an edit inserts on one side of an offset. -/
def inserted? (side : Side) (offset : Nat) : Edit → Option Text
  | insertBefore place text => if side = .before ∧ place = offset then some text else none
  | insertAfter place text => if side = .after ∧ place = offset then some text else none
  | _ => none

def removes (offset : Nat) : Edit → Bool
  | remove range => range.contains offset
  | _ => false

/-- The range that an edit overwrites and the text in its place, if the byte at
an offset is in that range. -/
def overwritten? (offset : Nat) : Edit → Option (Span × Text)
  | overwrite range text => if range.contains offset then some (range, text) else none
  | _ => none

/-- The move that an edit makes. Moving nothing, or a range to an end of it,
is none. -/
def relocation? : Edit → Option Move
  | move range destination =>
    if range.start = range.stop ∨ destination = range.start ∨ destination = range.stop then none
    else some ⟨range, destination⟩
  | _ => none

def prepended? : Edit → Option Text
  | prepend text => some text
  | _ => none

def appended? : Edit → Option Text
  | append text => some text
  | _ => none

end Edit

namespace Cellwise

/-- The texts inserted on one side of an offset, in the order of their calls. -/
def inserted (edits : List Edit) (side : Side) (offset : Nat) : List Piece :=
  (edits.filterMap (Edit.inserted? side offset)).map .made

/-- What stands for a character: nothing if it is removed, the text in its place
if it is the first of an overwritten range, and nothing for the others of it. -/
def content (edits : List Edit) (cell : Cell) : List Piece :=
  if edits.any (Edit.removes cell.offset) then []
  else
    match edits.findSome? (Edit.overwritten? cell.offset) with
    | none => [.source cell.offset [cell.char]]
    | some (range, text) => if cell.offset = range.start then [.replacing range text] else []

/-- Everything that a cell holds. -/
def held (edits : List Edit) (cell : Cell) : List Piece :=
  inserted edits .before cell.offset ++ content edits cell ++ inserted edits .after cell.stop

/-- Takes the cells of a range out and puts them, as they are ordered, in front
of the cell that begins at the destination, or last if there is none. -/
def relocate (order : List Cell) (move : Move) : List Cell :=
  let moved := order.filter (move.range.contains ·.offset)
  let others := order.filter (!move.range.contains ·.offset)
  others.takeWhile (·.offset != move.destination) ++ moved ++
    others.dropWhile (·.offset != move.destination)

def order (source : Text) (edits : List Edit) : List Cell :=
  (edits.filterMap Edit.relocation?).foldl relocate (Text.cells source)

/-- What is prepended; later text comes first. -/
def intro (edits : List Edit) : Text := (edits.filterMap Edit.prepended?).reverse.flatten

def outro (edits : List Edit) : Text := (edits.filterMap Edit.appended?).flatten

def pieces (source : Text) (edits : List Edit) : List Piece :=
  .made (intro edits) :: inserted edits .after 0 ++
    (order source edits).flatMap (held edits) ++
    inserted edits .before (Text.bytes source) ++ [.made (outro edits)]

end Cellwise

/-- The edits of a list that a buffer accepts, one after another. -/
def EditBuffer.accepted (buffer : EditBuffer) : List Edit → List Edit
  | [] => []
  | edit :: rest =>
    match buffer.apply edit with
    | .ok next => edit :: next.accepted rest
    | .error _ => buffer.accepted rest

end TypedComponent
