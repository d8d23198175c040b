import TypedComponent.Text.Cursor

/-!
Tokens of component markup. Punctuation is read by longest match and a run of
characters that stand for nothing else is one name. Space, tab, newline,
carriage return and form feed separate tokens and belong to none.
-/

namespace TypedComponent.Markup

inductive TokenKind where
  | angle
  | angleSlash
  | commentOpen
  | angleBang
  | closeAngle
  | slashAngle
  | slash
  | equals
  | doubleQuote
  | singleQuote
  | brace
  | braceHash
  | braceColon
  | braceSlash
  | braceAt
  | closeBrace
  | name
  /-- The end of the text. -/
  | finish
deriving DecidableEq, Repr

namespace TokenKind

/-- How messages call a kind of token. -/
def shown : TokenKind → String
  | angle => "'<'"
  | angleSlash => "'</'"
  | commentOpen => "'<!--'"
  | angleBang => "'<!'"
  | closeAngle => "'>'"
  | slashAngle => "'/>'"
  | slash => "'/'"
  | equals => "'='"
  | doubleQuote => "'\"'"
  | singleQuote => "'''"
  | brace => "'\x7b'"
  | braceHash => "'\x7b#'"
  | braceColon => "'\x7b:'"
  | braceSlash => "'\x7b/'"
  | braceAt => "'\x7b@'"
  | closeBrace => "'\x7d'"
  | name => "name"
  | finish => "end of file"

/-- Whether the token begins an expression in braces. -/
def opensBrace : TokenKind → Bool
  | brace | braceHash | braceColon | braceSlash | braceAt => true
  | _ => false

end TokenKind

structure Token where
  kind : TokenKind
  span : Span
deriving DecidableEq, Repr

/-- The characters between tokens. -/
def isSeparator (c : Char) : Bool :=
  c = ' ' || c = '\t' || c = '\r' || c = '\n' || c = '\x0c'

/-- The characters that names are made of: all but separators, quotes, braces
and the signs of tags. -/
def isNameChar (c : Char) : Bool :=
  !isSeparator c && c != '"' && c != '\'' && c != '<' && c != '>' && c != '/' && c != '=' &&
    c != '\x7b' && c != '\x7d'

/-- The kind of the token at the start of a text and the number of its bytes,
except for names, whose length is still to be found. -/
def TokenKind.leading : Text → TokenKind × Nat
  | [] => (.finish, 0)
  | '<' :: '/' :: _ => (.angleSlash, 2)
  | '<' :: '!' :: '-' :: '-' :: _ => (.commentOpen, 4)
  | '<' :: '!' :: _ => (.angleBang, 2)
  | '<' :: _ => (.angle, 1)
  | '>' :: _ => (.closeAngle, 1)
  | '/' :: '>' :: _ => (.slashAngle, 2)
  | '/' :: _ => (.slash, 1)
  | '=' :: _ => (.equals, 1)
  | '"' :: _ => (.doubleQuote, 1)
  | '\'' :: _ => (.singleQuote, 1)
  | '\x7b' :: '#' :: _ => (.braceHash, 2)
  | '\x7b' :: ':' :: _ => (.braceColon, 2)
  | '\x7b' :: '/' :: _ => (.braceSlash, 2)
  | '\x7b' :: '@' :: _ => (.braceAt, 2)
  | '\x7b' :: _ => (.brace, 1)
  | '\x7d' :: _ => (.closeBrace, 1)
  | _ => (.name, 0)

/-- Reads the token that begins at the cursor. -/
def Token.readHere (cursor : Cursor) : Token × Cursor :=
  let (kind, length) := TokenKind.leading cursor.rest
  let after :=
    if kind = .name then cursor.skipWhile isNameChar
    else ⟨cursor.offset + length, cursor.rest.drop length⟩
  (⟨kind, cursor.upTo after⟩, after)

/-- Reads the next token, and returns the place after it too. -/
def Token.read (cursor : Cursor) : Token × Cursor :=
  Token.readHere (cursor.skipWhile isSeparator)

/-- The next token, which stays unread. -/
def Token.peek (cursor : Cursor) : Token := (Token.read cursor).1

/-- The tokens from the cursor on, with the end of the text as the last. Every
other token has at least one character, so as many steps as characters are
left, and one more, are enough. -/
def Token.listWithin : Nat → Cursor → List Token
  | 0, _ => []
  | steps + 1, cursor =>
    let (token, after) := Token.read cursor
    if token.kind = .finish then [token] else token :: listWithin steps after

def Token.list (cursor : Cursor) : List Token :=
  Token.listWithin (cursor.rest.length + 1) cursor

end TypedComponent.Markup
