import TypedComponent.Text.Cursor

/-!
Expressions in braces. An expression ends at the brace that closes it, and
braces in strings, in the text of template literals and in comments close
nothing. The scan keeps what is open as a stack: plain braces, and the
substitutions of template literals, after which the literal goes on.
-/

namespace TypedComponent.Markup

/-- What an opening brace belongs to. -/
inductive Opening where
  | brace
  /-- A substitution in a template literal. -/
  | substitution
deriving DecidableEq, Repr

/-- The lexical context of a place in an expression. -/
inductive BraceContext where
  | code
  | quoted (quote : Char)
  | template
  | lineComment
  | blockComment
deriving DecidableEq, Repr

/-- The place of the brace that closes the last of the open ones. -/
def closingBraceIn (context : BraceContext) (opened : List Opening) (offset : Nat) :
    Text → Option Cursor
  | [] => none
  | c :: rest =>
    let next := offset + c.utf8Size
    match context, c, rest with
    | .code, '\x7b', rest => closingBraceIn .code (.brace :: opened) next rest
    | .code, '\x7d', rest =>
      match opened with
      | [] | [.brace] => some ⟨offset, '\x7d' :: rest⟩
      | .brace :: outer => closingBraceIn .code outer next rest
      | .substitution :: outer => closingBraceIn .template outer next rest
    | .code, '"', rest => closingBraceIn (.quoted '"') opened next rest
    | .code, '\'', rest => closingBraceIn (.quoted '\'') opened next rest
    | .code, '\x60', rest => closingBraceIn .template opened next rest
    | .code, '/', '/' :: rest => closingBraceIn .lineComment opened (next + 1) rest
    | .code, '/', '*' :: rest => closingBraceIn .blockComment opened (next + 1) rest
    | .code, _, rest => closingBraceIn .code opened next rest
    | .quoted _, '\\', d :: rest => closingBraceIn context opened (next + d.utf8Size) rest
    | .quoted quote, c, rest =>
      closingBraceIn (if c = quote then .code else context) opened next rest
    | .template, '\\', d :: rest => closingBraceIn .template opened (next + d.utf8Size) rest
    | .template, '\x60', rest => closingBraceIn .code opened next rest
    | .template, '$', '\x7b' :: rest =>
      closingBraceIn .code (.substitution :: opened) (next + 1) rest
    | .template, _, rest => closingBraceIn .template opened next rest
    | .lineComment, c, rest =>
      closingBraceIn (if c = '\n' then .code else .lineComment) opened next rest
    | .blockComment, '*', '/' :: rest => closingBraceIn .code opened (next + 1) rest
    | .blockComment, _, rest => closingBraceIn .blockComment opened next rest

/-- The place of the brace that closes the one at the cursor. -/
def closingBrace? (cursor : Cursor) : Option Cursor :=
  closingBraceIn .code [] cursor.offset cursor.rest

end TypedComponent.Markup
