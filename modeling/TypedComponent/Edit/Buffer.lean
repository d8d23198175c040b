import TypedComponent.Edit.Error

/-!
An edit buffer collects edits of one text. Every edit is written in offsets of
the unedited text, whatever came before it, so that passes over the text need
not know of each other.

An edit that cannot stand beside the accepted ones is refused and leaves the
buffer as it was. Refused are insertions and move destinations strictly inside
replaced text, replaced ranges that would swallow such a place or that cross
another range, and overwriting text twice. Removing text that is removed
already is accepted and changes nothing.
-/

namespace TypedComponent

/-- The neighbour that an inserted text stays with when text is moved. -/
inductive Side where
  /-- The character that begins at the offset. -/
  | before
  /-- The character that ends at the offset. -/
  | after
deriving DecidableEq, Repr

structure Insertion where
  offset : Nat
  side : Side
  text : Text
deriving DecidableEq, Repr

/-- A range of source text that is not written as it is: it is left out, or
other text is written in its place. -/
structure Replacement where
  range : Span
  /-- The text in its place; none when the range is removed. -/
  text : Option Text
deriving DecidableEq, Repr

structure Move where
  range : Span
  destination : Nat
deriving DecidableEq, Repr

/-- A text with the edits accepted so far, each kind in the order of its
calls. -/
structure EditBuffer where
  source : Text
  intro : Text
  outro : Text
  insertions : List Insertion
  replacements : List Replacement
  moves : List Move
deriving DecidableEq, Repr

namespace EditBuffer

def ofText (source : Text) : EditBuffer := ⟨source, [], [], [], [], []⟩

/-- The length of the unedited text. -/
def length (buffer : EditBuffer) : Nat := Text.bytes buffer.source

/-- Whether no edit has been recorded. -/
def isUnchanged (buffer : EditBuffer) : Bool :=
  buffer.intro.isEmpty && buffer.outro.isEmpty && buffer.insertions.isEmpty &&
    buffer.replacements.isEmpty && buffer.moves.isEmpty

/-- An offset is usable if it lies in the text and between characters. -/
def checkOffset (buffer : EditBuffer) (offset : Nat) : Except EditError Unit :=
  if buffer.length < offset then .error (.outOfBounds offset buffer.length)
  else if Text.isBoundary buffer.source offset then .ok ()
  else .error (.notBoundary offset)

/-- A range is usable if both ends are and they come in order. -/
def checkRange (buffer : EditBuffer) (range : Span) : Except EditError Unit := do
  buffer.checkOffset range.start
  buffer.checkOffset range.stop
  if range.stop < range.start then .error (.invalidRange range) else .ok ()

/-- Refuses a replaced range with an insertion point or a move destination
strictly inside. -/
def checkNothingInside (buffer : EditBuffer) (range : Span) : Except EditError Unit :=
  match buffer.insertions.find? (range.containsInner ·.offset) with
  | some insertion => .error (.conflict range (.empty insertion.offset))
  | none =>
    match buffer.moves.find? (range.containsInner ·.destination) with
    | some move => .error (.conflict range (.empty move.destination))
    | none => .ok ()

/-- Puts text in front of everything, earlier prepended text included. -/
def prepend (buffer : EditBuffer) (text : Text) : EditBuffer :=
  { buffer with intro := text ++ buffer.intro }

/-- Puts text after everything, earlier appended text included. -/
def append (buffer : EditBuffer) (text : Text) : EditBuffer :=
  { buffer with outro := buffer.outro ++ text }

/-- Inserts text at an offset. Several texts at one offset and side come in
the order of their calls. -/
def insert (buffer : EditBuffer) (offset : Nat) (side : Side) (text : Text) :
    Except EditError EditBuffer := do
  buffer.checkOffset offset
  match buffer.replacements.find? (·.range.containsInner offset) with
  | some earlier => .error (.conflict (.empty offset) earlier.range)
  | none =>
    if text = [] then .ok buffer
    else .ok { buffer with insertions := buffer.insertions ++ [⟨offset, side, text⟩] }

def insertBefore (buffer : EditBuffer) (offset : Nat) (text : Text) :
    Except EditError EditBuffer :=
  buffer.insert offset .before text

def insertAfter (buffer : EditBuffer) (offset : Nat) (text : Text) :
    Except EditError EditBuffer :=
  buffer.insert offset .after text

/-- The replacements that stay when `range` is removed as well: removals
inside it are absorbed. Returns nothing if an earlier removal covers `range`,
and refuses any other overlap. -/
def absorb? (range : Span) : List Replacement → Except EditError (Option (List Replacement))
  | [] => .ok (some [])
  | earlier :: rest =>
    if earlier.range.overlaps range then
      if earlier.text.isNone && earlier.range.containsSpan range then .ok none
      else if earlier.text.isNone && range.containsSpan earlier.range then absorb? range rest
      else .error (.conflict range earlier.range)
    else (absorb? range rest).map (Option.map (earlier :: ·))

/-- Removes a range. Removing nothing, or removed text, changes nothing. -/
def remove (buffer : EditBuffer) (range : Span) : Except EditError EditBuffer := do
  buffer.checkRange range
  if range.isEmpty then return buffer
  match ← absorb? range buffer.replacements with
  | none => .ok buffer
  | some kept =>
    buffer.checkNothingInside range
    match buffer.moves.find? (·.range.crosses range) with
    | some move => .error (.conflict range move.range)
    | none => .ok { buffer with replacements := kept ++ [⟨range, none⟩] }

/-- Writes `text` in place of a range that is not empty. Text inserted at the
ends of the range stays around it. -/
def overwrite (buffer : EditBuffer) (range : Span) (text : Text) :
    Except EditError EditBuffer := do
  buffer.checkRange range
  if range.isEmpty then throw (.invalidRange range)
  match buffer.replacements.find? (·.range.overlaps range) with
  | some earlier => .error (.conflict range earlier.range)
  | none =>
    buffer.checkNothingInside range
    match buffer.moves.find? fun move =>
        move.range.overlaps range && !move.range.containsSpan range with
    | some move => .error (.conflict range move.range)
    | none =>
      .ok { buffer with replacements := buffer.replacements ++ [⟨range, some text⟩] }

/-- Why the replacement `earlier` forbids moving `range` to `destination`, if
it does. -/
def moveConflict? (range : Span) (destination : Nat) (earlier : Replacement) :
    Option EditError :=
  if earlier.range.containsInner destination then
    some (.conflict (.empty destination) earlier.range)
  else if earlier.range.overlaps range && !range.containsSpan earlier.range then
    some (.conflict range earlier.range)
  else none

/-- Moves a range, and what is inserted into it, in front of the text at
`destination`. A move to an end of the range changes nothing. -/
def moveRange (buffer : EditBuffer) (range : Span) (destination : Nat) :
    Except EditError EditBuffer := do
  buffer.checkRange range
  buffer.checkOffset destination
  if range.isEmpty || destination == range.start || destination == range.stop then
    return buffer
  if range.containsInner destination then throw (.moveIntoSelf range destination)
  match buffer.moves.find? (·.range.overlaps range) with
  | some move => .error (.conflict range move.range)
  | none =>
    match buffer.replacements.findSome? (moveConflict? range destination) with
    | some error => .error error
    | none => .ok { buffer with moves := buffer.moves ++ [⟨range, destination⟩] }

end EditBuffer

/-- One call on an edit buffer. -/
inductive Edit where
  | insertBefore (offset : Nat) (text : Text)
  | insertAfter (offset : Nat) (text : Text)
  | remove (range : Span)
  | overwrite (range : Span) (text : Text)
  | move (range : Span) (destination : Nat)
  | prepend (text : Text)
  | append (text : Text)
deriving DecidableEq, Repr

namespace EditBuffer

def apply (buffer : EditBuffer) : Edit → Except EditError EditBuffer
  | .insertBefore offset text => buffer.insertBefore offset text
  | .insertAfter offset text => buffer.insertAfter offset text
  | .remove range => buffer.remove range
  | .overwrite range text => buffer.overwrite range text
  | .move range destination => buffer.moveRange range destination
  | .prepend text => .ok (buffer.prepend text)
  | .append text => .ok (buffer.append text)

/-- The buffer after an edit, which is the buffer before it if the edit is
refused. -/
def applyOrKeep (buffer : EditBuffer) (edit : Edit) : EditBuffer :=
  match buffer.apply edit with
  | .ok next => next
  | .error _ => buffer

/-- The buffer after a list of edits, refused ones skipped. -/
def run (buffer : EditBuffer) (edits : List Edit) : EditBuffer :=
  edits.foldl applyOrKeep buffer

/-- Applies edits up to the first that is refused, and says why it was. -/
def applyUntil (buffer : EditBuffer) : List Edit → EditBuffer × Option EditError
  | [] => (buffer, none)
  | edit :: rest =>
    match buffer.apply edit with
    | .ok next => next.applyUntil rest
    | .error refusal => (buffer, some refusal)

/-- The buffer after a list of edits, or the first refusal. -/
def applyAll (buffer : EditBuffer) (edits : List Edit) : Except EditError EditBuffer :=
  match buffer.applyUntil edits with
  | (last, none) => .ok last
  | (_, some refusal) => .error refusal

end EditBuffer

end TypedComponent
