import TypedComponent.Text.Category
import TypedComponent.Markup.Token
import TypedComponent.Markup.Braces
import TypedComponent.Markup.Error
import TypedComponent.Markup.Tree

/-!
Reading the attributes of a tag. Every reader returns what it found, the
faults on the way and the place it got to; a fault never ends the reading of a
document.
-/

namespace TypedComponent.Markup

/-- What a reader found, what was wrong, and how far it read. -/
structure Reading (α : Type) where
  value : α
  errors : List Error
  cursor : Cursor

namespace Fragment

/-- The text between two places as a fragment, or none if it is empty. -/
def textBetween (start stop : Cursor) : List Fragment :=
  if start.offset = stop.offset then []
  else [.text (start.upTo stop) (start.textTo stop)]

/-- Reads the expression in braces at the cursor. If it is never closed, the
rest of the source is lost. -/
def readExpression (cursor : Cursor) : Reading (Option (Span × Span)) :=
  match closingBrace? cursor with
  | some close =>
    let after := close.next
    ⟨some (cursor.upTo after, cursor.next.upTo close), [], after⟩
  | none =>
    ⟨none, [⟨.unclosedExpression, cursor.upTo cursor.finish⟩], cursor.finish⟩

/-- Reads a value in quotes from after the opening quote, at most as many
fragments as `steps`. -/
def readQuotedWithin (quote : Char) : Nat → Cursor → Reading (List Fragment)
  | 0, cursor => ⟨[], [], cursor⟩
  | steps + 1, cursor =>
    let mark := cursor.skipWhile fun c => c != quote && c != '\x7b'
    let text := textBetween cursor mark
    match mark.rest with
    | [] =>
      ⟨text, [⟨.unexpectedEnd ("closing " ++ String.singleton quote), .empty mark.offset⟩], mark⟩
    | c :: _ =>
      if c = quote then ⟨text, [], mark.next⟩
      else
        let expression := readExpression mark
        match expression.value with
        | none => ⟨text, expression.errors, expression.cursor⟩
        | some (span, inner) =>
          let more := readQuotedWithin quote steps expression.cursor
          ⟨text ++ .expression span inner :: more.value, expression.errors ++ more.errors,
            more.cursor⟩

/-- Reads a value in quotes from after the opening quote. An empty value is one
empty text, which tells it from no value. -/
def readQuoted (quote : Char) (cursor : Cursor) : Reading (List Fragment) :=
  let reading := readQuotedWithin quote (cursor.rest.length + 1) cursor
  if reading.value.isEmpty then
    { reading with value := [.text (.empty cursor.offset) []] }
  else reading

/-- Reads a value without quotes: the tokens that follow each other without
gap, up to the end of the tag. `textStart` is where the text before the cursor
begins. -/
def readUnquotedWithin : Nat → (textStart cursor : Cursor) → Reading (List Fragment)
  | 0, _, cursor => ⟨[], [], cursor⟩
  | steps + 1, textStart, cursor =>
    let (token, after) := Token.read cursor
    if token.span.start != cursor.offset || token.kind = .closeAngle ||
        token.kind = .slashAngle || token.kind = .finish then
      ⟨textBetween textStart cursor, [], cursor⟩
    else if token.kind.opensBrace then
      let expression := readExpression cursor
      match expression.value with
      | none => ⟨textBetween textStart cursor, expression.errors, expression.cursor⟩
      | some (span, inner) =>
        let more := readUnquotedWithin steps expression.cursor expression.cursor
        ⟨textBetween textStart cursor ++ .expression span inner :: more.value,
          expression.errors ++ more.errors, more.cursor⟩
    else readUnquotedWithin steps textStart after

def readUnquoted (cursor : Cursor) : Reading (List Fragment) :=
  readUnquotedWithin (cursor.rest.length + 1) cursor cursor

/-- Reads the value after an equals sign. -/
def readValue (cursor : Cursor) : Reading (List Fragment) :=
  let start := cursor.skipWhile isSeparator
  let (token, after) := Token.readHere start
  match token.kind with
  | .doubleQuote => readQuoted '"' after
  | .singleQuote => readQuoted '\'' after
  | .closeAngle | .slashAngle | .finish =>
    ⟨[], [⟨.invalidAttribute AttributeFault.missingValue.message, token.span⟩], cursor⟩
  | kind =>
    if kind.opensBrace then
      let expression := readExpression start
      ⟨(expression.value.map fun (span, inner) => .expression span inner).toList,
        expression.errors, expression.cursor⟩
    else readUnquoted start

end Fragment

namespace Attribute

/-- Reads an attribute from its name on. -/
def readNamed (start : Cursor) : Reading Attribute :=
  let (name, afterName) := start.takeWhile isNameChar
  let (token, after) := Token.read afterName
  if token.kind = .equals then
    let value := Fragment.readValue after
    ⟨.named (start.upTo value.cursor) name value.value, value.errors, value.cursor⟩
  else ⟨.named (start.upTo afterName) name [], [], afterName⟩

/-- What an expression that stands for a whole attribute means: three dots
spread an object, and anything else is a name that is its own value. -/
def ofExpression (source : Text) (span inner : Span) : Except Error Attribute :=
  let trimmed := Text.trimStart source
  match Text.after? "...".toList trimmed with
  | some rest => .ok (.spread span ⟨inner.stop - Text.bytes rest, inner.stop⟩)
  | none =>
    match Text.trimEnd trimmed with
    | [] => .error ⟨.invalidAttribute AttributeFault.emptyShorthand.message, span⟩
    | name => .ok (.named span name [.expression span inner])

/-- Reads an expression in braces in the place of an attribute. -/
def readBraced (start : Cursor) : Reading (Option Attribute) :=
  let expression := Fragment.readExpression start
  match expression.value with
  | none => ⟨none, expression.errors, expression.cursor⟩
  | some (span, inner) =>
    match ofExpression (Text.takeBytes start.next.rest inner.length) span inner with
    | .ok found => ⟨some found, [], expression.cursor⟩
    | .error error => ⟨none, [error], expression.cursor⟩

/-- Reads attributes up to the end of the tag, at most as many as `steps`. -/
def readListWithin : Nat → Cursor → Reading (List Attribute)
  | 0, cursor => ⟨[], [], cursor⟩
  | steps + 1, cursor =>
    let start := cursor.skipWhile isSeparator
    let (token, after) := Token.readHere start
    match token.kind with
    | .closeAngle | .slashAngle | .finish => ⟨[], [], cursor⟩
    | .name =>
      let first := readNamed start
      let more := readListWithin steps first.cursor
      ⟨first.value :: more.value, first.errors ++ more.errors, more.cursor⟩
    | kind =>
      if kind.opensBrace then
        let first := readBraced start
        let more := readListWithin steps first.cursor
        ⟨first.value.toList ++ more.value, first.errors ++ more.errors, more.cursor⟩
      else
        let fault := AttributeFault.unexpectedToken kind.shown
        let more := readListWithin steps after
        ⟨more.value, ⟨.invalidAttribute fault.message, token.span⟩ :: more.errors, more.cursor⟩

/-- Reads the attributes of a tag, up to the sign that ends the tag. -/
def readList (cursor : Cursor) : Reading (List Attribute) :=
  readListWithin (cursor.rest.length + 1) cursor

end Attribute

end TypedComponent.Markup
