import TypedComponent.Text.Category
import TypedComponent.Text.Cursor

/-!
What lies between the tokens of a script: whitespace, line ends and comments.
Besides the usual comments there are lines that a sign at their start makes a
comment. One is the sign that opens a markup comment, and after a line end also
the sign that closes one, and the signs between two versions of a text. The
token after such lines counts from where the first of them began. A comment
that is not closed goes on to the end of the script.
-/

namespace TypedComponent.Script

/-- The characters that end a line. -/
def isLineEnd (c : Char) : Bool :=
  c = '\n' || c = '\r' || c = '\u2028' || c = '\u2029'

/-- The characters that separate tokens within a line: blanks, and two
invisible ones. -/
def isSpace (c : Char) : Bool :=
  !isLineEnd c && (Text.isBlank c || c = '\u200B' || c = '\uFEFF')

/-- Whether a text begins with a sign that makes its line a comment. Most do so
only after a line end. -/
def startsSkippedLine (lineEnded : Bool) (text : Text) : Bool :=
  Text.startsWith text "<!--".toList ||
    (lineEnded &&
      (Text.startsWith text "-->".toList || Text.startsWith text "=======".toList ||
        Text.startsWith text "<<<<<<< ".toList || Text.startsWith text ">>>>>>> ".toList))

inductive TriviaContext where
  | outside
  | lineComment
  | blockComment
deriving DecidableEq, Repr

structure Gap where
  /-- Whether a line ended in the gap, or before it. -/
  lineEnded : Bool
  /-- Where the first line began that a sign made a comment. -/
  skippedLine : Option Nat
  /-- The place of the token. -/
  next : Cursor
deriving Repr

namespace Gap

def tokenStart (gap : Gap) : Nat := gap.skippedLine.getD gap.next.offset

end Gap

def skipTrivia (context : TriviaContext) (lineEnded : Bool) (skippedLine : Option Nat)
    (offset : Nat) : Text → Gap
  | [] => ⟨lineEnded, skippedLine, ⟨offset, []⟩⟩
  | c :: rest =>
    let next := offset + c.utf8Size
    match context, c, rest with
    | .outside, '/', '/' :: rest =>
      skipTrivia .lineComment lineEnded skippedLine (next + 1) rest
    | .outside, '/', '*' :: rest =>
      skipTrivia .blockComment lineEnded skippedLine (next + 1) rest
    | .outside, c, rest =>
      if isLineEnd c then skipTrivia .outside true skippedLine next rest
      else if isSpace c then skipTrivia .outside lineEnded skippedLine next rest
      else if startsSkippedLine lineEnded (c :: rest) then
        skipTrivia .lineComment lineEnded (skippedLine <|> some offset) next rest
      else ⟨lineEnded, skippedLine, ⟨offset, c :: rest⟩⟩
    | .lineComment, c, rest =>
      if isLineEnd c then skipTrivia .outside true skippedLine next rest
      else skipTrivia .lineComment lineEnded skippedLine next rest
    | .blockComment, '*', '/' :: rest =>
      skipTrivia .outside lineEnded skippedLine (next + 1) rest
    | .blockComment, c, rest =>
      skipTrivia .blockComment (lineEnded || isLineEnd c) skippedLine next rest

def skipHashbang (cursor : Cursor) : Cursor :=
  if Text.startsWith cursor.rest "#!".toList then cursor.skipWhile (!isLineEnd ·) else cursor

end TypedComponent.Script
