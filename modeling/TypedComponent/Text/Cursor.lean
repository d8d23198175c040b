import TypedComponent.Text.Span

/-!
A place in a text: the offset and what follows it. Reading moves a cursor
forward over what it has read, so that offset and remaining text always fit.
-/

namespace TypedComponent

structure Cursor where
  offset : Nat
  rest : Text
deriving DecidableEq, Repr

namespace Cursor

/-- The start of a text. -/
def ofText (text : Text) : Cursor := ⟨0, text⟩

/-- The place `offset` bytes into a text. -/
def atOffset (text : Text) (offset : Nat) : Cursor := ⟨offset, Text.dropBytes text offset⟩

/-- The end of the text that the cursor is in. -/
def finish (cursor : Cursor) : Cursor :=
  ⟨cursor.offset + Text.bytes cursor.rest, []⟩

/-- Past the next character, if there is one. -/
def next (cursor : Cursor) : Cursor :=
  match cursor.rest with
  | [] => cursor
  | c :: rest => ⟨cursor.offset + c.utf8Size, rest⟩

/-- Past `passed` when the remaining text is `passed` followed by `rest`. -/
def past (cursor : Cursor) (passed rest : Text) : Cursor :=
  ⟨cursor.offset + Text.bytes passed, rest⟩

/-- The longest run of characters with a property, and the place after it. -/
def takeWhile (cursor : Cursor) (p : Char → Bool) : Text × Cursor :=
  let run := cursor.rest.takeWhile p
  (run, cursor.past run (cursor.rest.dropWhile p))

/-- Past the longest run of characters with a property. -/
def skipWhile (cursor : Cursor) (p : Char → Bool) : Cursor :=
  (cursor.takeWhile p).2

/-- The span from one place to a later one. -/
def upTo (start stop : Cursor) : Span := ⟨start.offset, stop.offset⟩

/-- The text from one place to a later one. -/
def textTo (start stop : Cursor) : Text := Text.takeBytes start.rest (stop.offset - start.offset)

/-- The place where `mark` next begins, if it does. -/
def find? (cursor : Cursor) (mark : Text) : Option Cursor :=
  (Text.splitAt? mark cursor.rest).map fun (before, found) => cursor.past before found

end Cursor

end TypedComponent
