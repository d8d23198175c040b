import TypedComponent.Text.Basic
import TypedComponent.Text.Table.Letter
import TypedComponent.Text.Table.Alphabetic
import TypedComponent.Text.Table.Number
import TypedComponent.Text.Table.IdentifierPart

/-!
Character classes of all of Unicode: blanks, alphabetic characters, numbers,
and the characters that begin or continue an identifier. ASCII is decided
without a look into the tables.
-/

namespace TypedComponent.Text

/-- Whether a code point lies in one of some ascending ranges. -/
def inRanges (code : Nat) : List (Nat × Nat) → Bool
  | [] => false
  | (first, last) :: rest =>
    if code < first then false
    else if code ≤ last then true
    else inRanges code rest

/-- The characters with the property White_Space. -/
def isBlank (c : Char) : Bool :=
  c = ' ' || ('\t' ≤ c && c ≤ '\r') ||
    (0x80 ≤ c.toNat &&
      inRanges c.toNat
        [(0x85, 0x85), (0xA0, 0xA0), (0x1680, 0x1680), (0x2000, 0x200A), (0x2028, 0x2029),
          (0x202F, 0x202F), (0x205F, 0x205F), (0x3000, 0x3000)])

def isAsciiLetter (c : Char) : Bool :=
  ('a' ≤ c && c ≤ 'z') || ('A' ≤ c && c ≤ 'Z')

def isAsciiDigit (c : Char) : Bool := '0' ≤ c && c ≤ '9'

/-- The characters with the property Alphabetic. -/
def isAlphabetic (c : Char) : Bool :=
  if c.toNat < 0x80 then isAsciiLetter c
  else inRanges c.toNat letterRanges || inRanges c.toNat otherAlphabeticRanges

/-- The characters of the number categories. -/
def isNumeric (c : Char) : Bool :=
  if c.toNat < 0x80 then isAsciiDigit c else inRanges c.toNat numberRanges

def isAlphanumeric (c : Char) : Bool := isAlphabetic c || isNumeric c

/-- The characters with the property ID_Start: the letters but for one dash-like
letter, four characters kept for old identifiers, and the letters that are
newer than the other tables. -/
def isIdentifierStart (c : Char) : Bool :=
  if c.toNat < 0x80 then isAsciiLetter c
  else
    (inRanges c.toNat letterRanges && c.toNat != 0x2E2F) ||
      inRanges c.toNat
        [(0x558, 0x558), (0x58B, 0x58B), (0x1885, 0x1886), (0x208F, 0x208F), (0x209D, 0x209F),
          (0x2118, 0x2118), (0x212E, 0x212E), (0x309B, 0x309C), (0x3D000, 0x3FC3F)]

/-- The characters with the property ID_Continue. -/
def isIdentifierPart (c : Char) : Bool :=
  if c.toNat < 0x80 then isAsciiLetter c || isAsciiDigit c || c = '_'
  else isIdentifierStart c || inRanges c.toNat identifierPartRanges

/-- The text without the blanks at its start. -/
def trimStart (text : Text) : Text := text.dropWhile isBlank

/-- The text without the blanks at its end. -/
def trimEnd (text : Text) : Text := (text.reverse.dropWhile isBlank).reverse

def trim (text : Text) : Text := trimEnd (trimStart text)

/-- Whether the text holds nothing but blanks. -/
def allBlank (text : Text) : Bool := text.all isBlank

end TypedComponent.Text
