import TypedComponent.Markup.AttributeList

/-!
The outline of a component: reading its source into a document. A reader
state holds the place in the source, the elements that are open there, and all
that is finished. Each step either reads at least one character or closes an
element, and opening an element reads two; so the characters left and the open
elements together become fewer with every step, and the reading ends at the end
of the source with no element open.
-/

namespace TypedComponent.Markup

/-- An element whose closing tag is still to come. -/
structure OpenElement where
  start : Nat
  name : Text
  attributes : List Attribute
  /-- The children so far, latest first. -/
  children : List Node

/-- A place in the reading of a source. All lists have the latest first. -/
structure Outline where
  cursor : Cursor
  opened : List OpenElement
  nodes : List Node
  scripts : List ScriptBlock
  styles : List StyleBlock
  errors : List Error

/-- The names of elements that never have content. -/
def voidNames : List Text :=
  ["area", "base", "br", "col", "embed", "hr", "img", "input", "link", "meta", "param",
    "source", "track", "wbr"].map String.toList

def isVoid (name : Text) : Bool := voidNames.any (Text.sameLetters name ·)

def isScriptName (name : Text) : Bool := Text.sameLetters name "script".toList

def isStyleName (name : Text) : Bool := Text.sameLetters name "style".toList

/-- Whether a tag, a closing tag, a comment or an expression in braces begins a
text. -/
def startsMarkup : Text → Bool
  | '\x7b' :: _ => true
  | '<' :: c :: _ => c = '/' || c = '!' || Text.isAsciiLetter c
  | _ => false

/-- The place of the next markup, or the end. -/
def nextMarkup (offset : Nat) : Text → Cursor
  | [] => ⟨offset, []⟩
  | c :: rest =>
    if startsMarkup (c :: rest) then ⟨offset, c :: rest⟩
    else nextMarkup (offset + c.utf8Size) rest

/-- Skips to past the sign that ends a closing tag. Without one the rest of the
source is lost. -/
def skipClosingTagWithin : Nat → Cursor → Reading Unit
  | 0, cursor => ⟨(), [], cursor⟩
  | steps + 1, cursor =>
    let (token, after) := Token.read cursor
    match token.kind with
    | .closeAngle => ⟨(), [], after⟩
    | .finish =>
      ⟨(), [⟨.unexpectedEnd TokenKind.closeAngle.shown, .empty token.span.stop⟩], after⟩
    | _ => skipClosingTagWithin steps after

def skipClosingTag (cursor : Cursor) : Reading Unit :=
  skipClosingTagWithin (cursor.rest.length + 1) cursor

namespace Outline

def ofSource (source : Text) : Outline := ⟨.ofText source, [], [], [], [], []⟩

/-- Goes on at another place, with faults found on the way. -/
def advance (outline : Outline) (errors : List Error) (cursor : Cursor) : Outline :=
  { outline with cursor, errors := errors.reverse ++ outline.errors }

/-- Adds a finished node to the innermost open element, or to the document. -/
def add (outline : Outline) (node : Node) : Outline :=
  match outline.opened with
  | [] => { outline with nodes := node :: outline.nodes }
  | innermost :: outer =>
    { outline with
      opened := { innermost with children := node :: innermost.children } :: outer }

/-- Finishes the innermost open element at the cursor. -/
def close (outline : Outline) : Outline :=
  match outline.opened with
  | [] => outline
  | innermost :: outer =>
    { outline with opened := outer }.add
      (.element ⟨innermost.start, outline.cursor.offset⟩ innermost.name innermost.attributes
        false innermost.children.reverse)

/-- Reads text up to the next markup. A sign that begins no markup is text. -/
def readText (outline : Outline) : Outline :=
  let start := outline.cursor
  let first := start.next
  let stop := nextMarkup first.offset first.rest
  (outline.advance [] stop).add (.text (start.upTo stop) (Text.allBlank (start.textTo stop)))

/-- Reads a comment, or a declaration, which ends with the next sign `mark`. -/
def readComment (outline : Outline) (inside : Cursor) (mark : Text) : Outline :=
  let start := outline.cursor
  match inside.find? mark with
  | some found =>
    let stop : Cursor := ⟨found.offset + Text.bytes mark, found.rest.drop mark.length⟩
    (outline.advance [] stop).add (.comment (start.upTo stop))
  | none =>
    let stop := start.finish
    let expected := "'" ++ String.ofList mark ++ "'"
    (outline.advance [⟨.unexpectedEnd expected, start.upTo stop⟩] stop).add
      (.comment (start.upTo stop))

/-- What an expression in braces is for. -/
def mustacheKind : TokenKind → MustacheKind
  | .braceHash => .blockOpen
  | .braceColon => .blockContinue
  | .braceSlash => .blockClose
  | .braceAt => .special
  | _ => .expression

/-- Reads an expression in braces, whose opening token ends at `inside`. If it
is never closed, the rest of the source is text. -/
def readMustache (outline : Outline) (kind : TokenKind) (inside : Cursor) : Outline :=
  let start := outline.cursor
  match closingBrace? start with
  | some close =>
    (outline.advance [] close.next).add
      (.mustache (start.upTo close.next) (inside.upTo close) (mustacheKind kind))
  | none =>
    let stop := start.finish
    (outline.advance [⟨.unclosedExpression, start.upTo stop⟩] stop).add
      (.text (start.upTo stop) false)

/-- Whether the script belongs to the module: it says so in its context, or by
a bare attribute. -/
def scriptContext (attributes : List Attribute) : ScriptContext :=
  if Attribute.textOf? "context".toList attributes = some "module".toList ||
      Attribute.isBare "module".toList attributes then .perModule
  else .perInstance

def scriptLanguage (attributes : List Attribute) : ScriptLanguage :=
  match Attribute.textOf? "lang".toList attributes with
  | some lang =>
    if lang = "ts".toList || lang = "typescript".toList then .typeScript else .javaScript
  | none => .javaScript

/-- The end of a raw element's content, which goes from `inside` up to the next
text that begins like the closing tag, and the reading of that tag. -/
def readRawEnd (start inside : Cursor) (name : Text) : Cursor × Reading Unit :=
  let mark := "</".toList ++ name
  match inside.find? mark with
  | some found =>
    (found, skipClosingTag ⟨found.offset + Text.bytes mark, found.rest.drop mark.length⟩)
  | none =>
    let finish := inside.finish
    (finish, ⟨(), [⟨.unclosedTag name, start.upTo finish⟩], finish⟩)

/-- Adds a script or style element. At the top level it is a block of the
document. -/
def addRaw (outline : Outline) (name : Text) (attributes : List Attribute) (span content : Span)
    (blank : Bool) : Outline :=
  if !outline.opened.isEmpty then
    outline.add (.element span name attributes false [.text content blank])
  else if isScriptName name then
    let block : ScriptBlock :=
      ⟨span, content, scriptLanguage attributes, scriptContext attributes, attributes⟩
    { outline with scripts := block :: outline.scripts }
  else { outline with styles := ⟨span, content, attributes⟩ :: outline.styles }

/-- Reads a script or style element whose opening tag ends at the cursor. Its
content is not markup. -/
def readRaw (outline : Outline) (start : Cursor) (name : Text)
    (attributes : List Attribute) : Outline :=
  let inside := outline.cursor
  let (stop, closed) := readRawEnd start inside name
  (outline.advance closed.errors closed.cursor).addRaw name attributes
    (start.upTo closed.cursor) (inside.upTo stop) (Text.allBlank (inside.textTo stop))

/-- Reads an opening tag, whose name is at `afterSign`, and with it the whole
element if it can have no children. -/
def readElement (outline : Outline) (afterSign : Cursor) : Outline :=
  let start := outline.cursor
  let (name, afterName) := afterSign.takeWhile isNameChar
  let attributes := Attribute.readList afterName
  let (token, after) := Token.read attributes.cursor
  let (ending, stop, selfClosing) : List Error × Cursor × Bool :=
    match token.kind with
    | .slashAngle => ([], after, true)
    | .closeAngle => ([], after, false)
    | _ =>
      let finish := start.finish
      ([⟨.unexpectedEnd TokenKind.closeAngle.shown, start.upTo finish⟩], finish, true)
  let read := outline.advance (attributes.errors ++ ending) stop
  if (isScriptName name || isStyleName name) && !selfClosing then
    read.readRaw start name attributes.value
  else if selfClosing || isVoid name then
    read.add (.element (start.upTo stop) name attributes.value selfClosing [])
  else { read with opened := ⟨start.offset, name, attributes.value, []⟩ :: read.opened }

/-- Reads a closing tag, whose sign ends at `afterSign`. It closes the innermost
open element, or that element ends before it because it closes one further out,
or it closes nothing and is skipped. -/
def readClosingTag (outline : Outline) (afterSign : Cursor) : Outline :=
  let start := outline.cursor
  let nameStart := afterSign.skipWhile isSeparator
  let (name, afterName) := nameStart.takeWhile isNameChar
  let stop := if name.isEmpty then afterSign else afterName
  let span := start.upTo stop
  let skipped := skipClosingTag stop
  match outline.opened with
  | [] => outline.advance (⟨.unexpectedClosingTag name, span⟩ :: skipped.errors) skipped.cursor
  | innermost :: outer =>
    if innermost.name = name then
      (outline.advance skipped.errors skipped.cursor).close
    else if outer.any (·.name = name) then
      (outline.advance [⟨.unclosedTag innermost.name, span⟩] start).close
    else
      outline.advance (⟨.mismatchedClosingTag innermost.name name, span⟩ :: skipped.errors)
        skipped.cursor

/-- Ends the innermost open element at the end of the source. -/
def closeAtEnd (outline : Outline) : Outline :=
  match outline.opened with
  | [] => outline
  | innermost :: _ =>
    (outline.advance [⟨.unclosedTag innermost.name, .empty outline.cursor.offset⟩]
      outline.cursor).close

/-- Reads whatever begins at the cursor. -/
def step (outline : Outline) : Outline :=
  let (token, after) := Token.readHere outline.cursor
  match outline.cursor.rest with
  | [] => outline.closeAtEnd
  | c :: rest =>
    if !startsMarkup (c :: rest) then outline.readText
    else
      match token.kind with
      | .angleSlash => outline.readClosingTag after
      | .commentOpen => outline.readComment after "-->".toList
      | .angleBang => outline.readComment after ">".toList
      | .angle => outline.readElement after
      | kind => outline.readMustache kind after

/-- Whether the source is read and every element closed. -/
def isFinished (outline : Outline) : Bool :=
  outline.cursor.rest.isEmpty && outline.opened.isEmpty

def run : Nat → Outline → Outline
  | 0, outline => outline
  | steps + 1, outline => if outline.isFinished then outline else run steps outline.step

end Outline

/-- A document and what is wrong with its source, in the order of reading. -/
structure Parsed where
  document : Document
  errors : List Error

/-- Reads the source of a component. -/
def parse (source : Text) : Parsed :=
  let read := Outline.run (source.length + 1) (.ofSource source)
  ⟨⟨⟨0, Text.bytes source⟩, read.nodes.reverse, read.scripts.reverse, read.styles.reverse⟩,
    read.errors.reverse⟩

end TypedComponent.Markup
