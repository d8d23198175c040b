import TypedComponent.Text.Basic

/-!
The lines of a text. `Lines.position?` turns an offset into a line and a
column, both counted from zero, and `Lines.offset?` turns them back. A line
ends with the newline that belongs to it, and columns count bytes.
-/

namespace TypedComponent

/-- A place in a text by line and column, both counted from zero. -/
structure Position where
  line : Nat
  column : Nat
deriving DecidableEq, Repr

/-- Positions are shown to people, who count from one. -/
def Position.shown (position : Position) : String :=
  (position.line + 1).repr ++ ":" ++ (position.column + 1).repr

/-- What a search in a sorted list ends with: the place of the value, or the
place at which putting it in would keep the list sorted. -/
inductive SearchResult where
  | found (index : Nat)
  | missing (insertion : Nat)
deriving DecidableEq, Repr

/-- Where the lines of a text begin, and how long the text is. -/
structure Lines where
  starts : List Nat
  length : Nat
deriving DecidableEq, Repr

namespace Lines

/-- The offsets just after the newlines of a text that begins at `offset`. -/
def startsAfter : Nat → Text → List Nat
  | _, [] => []
  | offset, c :: rest =>
    let next := offset + c.utf8Size
    if c = '\n' then next :: startsAfter next rest else startsAfter next rest

def ofText (text : Text) : Lines :=
  ⟨0 :: startsAfter 0 text, Text.bytes text⟩

/-- The number of lines; an empty text has one. -/
def count (lines : Lines) : Nat := lines.starts.length

/-- Looks for a value from the place `low` up to the place `high`: first in the
middle, and then in the half that it belongs to. -/
def searchWithin (values : List Nat) (target low high : Nat) : SearchResult :=
  if low < high then
    let middle := (low + high) / 2
    let value := values.getD middle 0
    if value = target then .found middle
    else if value < target then searchWithin values target (middle + 1) high
    else searchWithin values target low middle
  else .missing low
termination_by high - low

/-- Looks for a value in a sorted list. -/
def search (values : List Nat) (target : Nat) : SearchResult :=
  searchWithin values target 0 values.length

/-- The line that an offset lies in. One that no line begins at belongs to the
line before the place where it would have to be put in. -/
def lineAt (lines : Lines) (offset : Nat) : Nat :=
  match search lines.starts offset with
  | .found line => line
  | .missing insertion => insertion - 1

/-- The line and column of an offset, unless it is past the end. -/
def position? (lines : Lines) (offset : Nat) : Option Position :=
  if lines.length < offset then none
  else
    let line := lines.lineAt offset
    some ⟨line, offset - lines.starts.getD line 0⟩

/-- The offset that lies `column` bytes after the start of a line, if there is
such a line. -/
def offset? (lines : Lines) (position : Position) : Option Nat :=
  (lines.starts[position.line]?).map (· + position.column)

end Lines

end TypedComponent
