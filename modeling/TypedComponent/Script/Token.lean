import TypedComponent.Script.Numeral

/-!
Tokens of a script. Three things are read only where the grammar asks for them,
since a character alone does not tell: regular expressions, how a template
literal goes on after a substitution, and operators that begin with an angle
bracket, which is always a token of its own.
-/

namespace TypedComponent.Script

/-- Punctuation. -/
inductive Mark where
  | openParen
  | closeParen
  | openBracket
  | closeBracket
  | openBrace
  | closeBrace
  | semicolon
  | comma
  | dot
  | ellipsis
  | question
  | colon
  | arrow
  | hash
  | atSign
  | less
  | greater
  | plus
  | minus
  | star
  | slash
  | percent
  | power
  | increment
  | decrement
  | ampersand
  | bar
  | caret
  | tilde
  | bang
  | bothAnd
  | eitherOr
  | coalesce
  /-- The comparisons for equality and inequality, strict and loose. -/
  | equality
  | assign
  /-- An assignment that computes, other than the division one. -/
  | computingAssign
  | dividingAssign
deriving DecidableEq, Repr

namespace Mark

/-- How marks are written, those that begin with another one before it. -/
def spellings : List (Text × Mark) :=
  [("...", ellipsis), ("===", equality), ("!==", equality), ("**=", computingAssign),
    ("&&=", computingAssign), ("||=", computingAssign), ("??=", computingAssign),
    ("=>", arrow), ("==", equality), ("!=", equality), ("**", power), ("++", increment),
    ("--", decrement), ("&&", bothAnd), ("||", eitherOr), ("??", coalesce),
    ("+=", computingAssign), ("-=", computingAssign), ("*=", computingAssign),
    ("/=", dividingAssign), ("%=", computingAssign), ("&=", computingAssign),
    ("|=", computingAssign), ("^=", computingAssign), ("(", openParen), (")", closeParen),
    ("[", openBracket), ("]", closeBracket), ("\x7b", openBrace), ("\x7d", closeBrace),
    (";", semicolon), (",", comma), (".", dot), ("?", question), (":", colon), ("#", hash),
    ("@", atSign), ("<", less), (">", greater), ("+", plus), ("-", minus), ("*", star),
    ("/", slash), ("%", percent), ("&", ampersand), ("|", bar), ("^", caret), ("~", tilde),
    ("!", bang), ("=", assign)].map fun (spelling, mark) => (spelling.toList, mark)

/-- Reads the longest mark at the start of a text. -/
def read? (text : Text) : Option (Mark × Text) :=
  spellings.findSome? fun (spelling, mark) => (Text.after? spelling text).map ((mark, ·))

end Mark

inductive Token where
  /-- A name or a keyword. -/
  | word (name : Text)
  /-- A name that is written with escapes, so that it is never a keyword. -/
  | name (name : Text)
  /-- A string literal, with its escapes decoded. -/
  | string (value : Text)
  | number
  | bigInteger
  /-- A template literal up to its end, if that makes it whole, or else to its
  first substitution. -/
  | template (isWhole wellFormed : Bool)
  | mark (mark : Mark)
  /-- Characters that are no token. -/
  | invalid
  /-- A regular expression that does not end, which hides what follows. -/
  | unreadable
  /-- The end of the script. -/
  | finish
deriving DecidableEq, Repr

/-- The words that are never names. -/
def keywords : List Text :=
  ["break", "case", "catch", "class", "const", "continue", "debugger", "default", "delete",
    "do", "else", "export", "extends", "false", "finally", "for", "function", "if",
    "import", "in", "instanceof", "new", "null", "return", "super", "switch", "this", "throw",
    "true", "try", "typeof", "var", "void", "while", "with"].map String.toList

/-- The words that cannot be referred to by name in a module, whose code is
always strict. -/
def strictKeywords : List Text :=
  ["await", "enum", "implements", "interface", "let", "package", "private", "protected",
    "public", "static", "yield"].map String.toList

def isKeyword (name : Text) : Bool := keywords.contains name

def isReserved (name : Text) : Bool := isKeyword name || strictKeywords.contains name

def isWordStart (c : Char) : Bool := Text.isIdentifierStart c || c = '$' || c = '_'

/-- The characters that go on with a name; two of them are invisible joiners. -/
def isWordPart (c : Char) : Bool :=
  Text.isIdentifierPart c || c = '$' || c = '\u200C' || c = '\u200D'

/-- Reads the rest of a name, with at most as many escapes as given. Returns
also whether there is one. An escape may stand for any character. -/
def wordWithin : Nat → Text → Except Text ((Text × Bool) × Text)
  | 0, text => .error text
  | escapes + 1, text =>
    let run := text.takeWhile isWordPart
    match text.dropWhile isWordPart with
    | '\\' :: 'u' :: digits => do
      let (written, rest) ← unicodeEscape digits
      let ((name, _), after) ← wordWithin escapes rest
      .ok ((run ++ written ++ name, true), after)
    | '\\' :: rest => .error rest
    | rest => .ok ((run, false), rest)

/-- Reads a name or keyword. A keyword is not written with escapes, except that
one which begins with an escape is a name, and that the first word of a script
may be a keyword of strict code. -/
def readWord (atStart : Bool) (text : Text) : Token × Text :=
  match wordWithin (text.length + 1) text with
  | .error rest => (.invalid, rest)
  | .ok ((name, false), rest) => (.word name, rest)
  | .ok ((name, true), rest) =>
    if Text.startsWith text ['\\'] || !isReserved name then (.name name, rest)
    else if atStart && !isKeyword name && name != "enum".toList then (.word name, rest)
    else (.invalid, rest)

/-- The characters that neither a number nor a regular expression can stand
right before. -/
def isLatinWordStart (c : Char) : Bool := Text.isAsciiLetter c || c = '$' || c = '_'

/-- Reads a number. No name may follow without a gap, except after the sign of
a big integer. -/
def readNumber (text : Text) : Token × Text :=
  match skipNumber text with
  | .error rest => (.invalid, rest)
  | .ok (true, rest) => (.bigInteger, rest)
  | .ok (false, rest) => (if rest.head?.any isLatinWordStart then .invalid else .number, rest)

/-- Reads a string from after its opening quote, of which the next `read`
characters belong to an escape that is read already. A string that is not
closed ends with its line. -/
def stringRest (quote : Char) : Nat → Text → Except Text (Text × Text)
  | _, [] => .ok ([], [])
  | read + 1, _ :: rest => stringRest quote read rest
  | 0, c :: rest =>
    if c = quote then .ok ([], rest)
    else if c = '\n' || c = '\r' then .ok ([], c :: rest)
    else if c = '\\' then do
      let (written, after) ← stringEscape rest
      let (value, last) ← stringRest quote (rest.length - after.length) rest
      .ok (written ++ value, last)
    else do
      let (value, last) ← stringRest quote 0 rest
      .ok (c :: value, last)

/-- Skips the text of a template literal to after its closing backtick (`true`),
or to after the sign that opens a substitution (`false`). Returns also whether
all escapes are well formed. -/
def skipTemplateText (wellFormed : Bool) : Text → Option ((Bool × Bool) × Text)
  | [] => none
  | '\\' :: c :: rest => skipTemplateText (wellFormed && isTemplateEscape (c :: rest)) rest
  | '\x60' :: rest => some ((true, wellFormed), rest)
  | '$' :: '\x7b' :: rest => some ((false, wellFormed), rest)
  | _ :: rest => skipTemplateText wellFormed rest

/-- Reads the token at the start of a text, which may be the start of the
script. -/
def Token.read (atStart : Bool) : Text → Token × Text
  | [] => (.finish, [])
  | c :: rest =>
    let isNumber :=
      match c, rest with
      | '.', d :: _ => Text.isAsciiDigit d
      | c, _ => Text.isAsciiDigit c
    if isWordStart c || c = '\\' then readWord atStart (c :: rest)
    else if isNumber then readNumber (c :: rest)
    else if c = '"' || c = '\'' then
      match stringRest c 0 rest with
      | .ok (value, after) => (.string value, after)
      | .error after => (.invalid, after)
    else if c = '\x60' then
      match skipTemplateText true rest with
      | some ((isWhole, wellFormed), after) => (.template isWhole wellFormed, after)
      | none => (.invalid, [])
    else
      match Mark.read? (c :: rest) with
      | some (m, after) => (.mark m, after)
      | none => (.invalid, rest)

/-- Skips the flags of a regular expression, which make up a name. -/
def skipFlags (text : Text) : Option Text :=
  if text.head?.any isLatinWordStart then
    (wordWithin (text.length + 1) text).toOption.map (·.2)
  else some text

/-- Skips a regular expression from after its opening slash, with its flags.
None if it does not end on its line. -/
def skipRegularExpression (inClass : Bool) : Text → Option Text
  | [] => none
  | '\\' :: c :: rest =>
    if c = '\n' || c = '\r' then none else skipRegularExpression inClass rest
  | c :: rest =>
    if c = '\n' || c = '\r' then none
    else if c = '/' && !inClass then skipFlags rest
    else skipRegularExpression (c = '[' || (inClass && c != ']')) rest

end TypedComponent.Script
