import TypedComponent.Script.Trivia

/-!
Characters written by their code, in names, strings and templates. Reading an
escape returns the text that it stands for and the text after it. A malformed
one is an error with the text in front of which reading stopped, for the next
token is read from there.
-/

namespace TypedComponent.Script

def hexValue? (c : Char) : Option Nat :=
  if '0' ≤ c ∧ c ≤ '9' then some (c.toNat - 48)
  else if 'a' ≤ c ∧ c ≤ 'f' then some (c.toNat - 87)
  else if 'A' ≤ c ∧ c ≤ 'F' then some (c.toNat - 55)
  else none

def isHexDigit (c : Char) : Bool := (hexValue? c).isSome

def hexNumber (digits : Text) : Nat :=
  digits.foldl (fun value c => value * 16 + (hexValue? c).getD 0) 0

/-- Reads `count` more hexadecimal digits of a number that is `value` so far.
Separators may stand before each of them. -/
def hexDigits (count value : Nat) : Text → Except Text (Nat × Text)
  | [] => if count = 0 then .ok (value, []) else .error []
  | c :: rest =>
    if count = 0 then .ok (value, c :: rest)
    else if c = '_' then hexDigits count value rest
    else
      match hexValue? c with
      | some digit => hexDigits (count - 1) (value * 16 + digit) rest
      | none => .error (c :: rest)

/-- Reads four hexadecimal digits that stand side by side. -/
def fourDigits : Text → Except Text (Nat × Text)
  | a :: b :: c :: d :: rest =>
    if [a, b, c, d].all isHexDigit then .ok (hexNumber [a, b, c, d], rest)
    else .error (a :: b :: c :: d :: rest)
  | text => .error text

/-- The codes that are no characters but halves of a character's code. -/
def isHalf (code : Nat) : Bool := 0xD800 ≤ code && code < 0xE000

def isSecondHalf (code : Nat) : Bool := 0xDC00 ≤ code && code < 0xE000

/-- A half that stands alone, as an escape. -/
def writtenHalf (half : Nat) : Text :=
  "\\u".toList ++ (Nat.toDigits 16 half).map Text.asciiUpper

/-- The character made of two halves. -/
def joinedHalves (first second : Nat) : Char :=
  Char.ofNat (0x10000 + (first - 0xD800) * 0x400 + (second - 0xDC00))

/-- Reads the digits of a half. The other half may follow it as an escape of
its own, which must have four digits. -/
def halves (text : Text) : Except Text (Text × Text) := do
  let (first, rest) ← fourDigits text
  match rest with
  | '\\' :: 'u' :: digits =>
    if isSecondHalf first then .ok (writtenHalf first, rest)
    else
      let (second, after) ← fourDigits digits
      if isSecondHalf second then .ok ([joinedHalves first second], after)
      else .ok (writtenHalf first, rest)
  | _ => .ok (writtenHalf first, rest)

def codeInBraces (text : Text) : Except Text (Text × Text) :=
  let isPart (c : Char) : Bool := isHexDigit c || c = '_'
  let digits := (text.takeWhile isPart).filter isHexDigit
  let rest := text.dropWhile isPart
  let code := hexNumber digits
  if digits.isEmpty || 0x10FFFF < code then .error rest
  else if isHalf code then halves text
  else .ok ([Char.ofNat code], rest)

/-- Reads what follows the backslash and the letter of a Unicode escape: four
digits, or any number of digits in braces. -/
def unicodeEscape : Text → Except Text (Text × Text)
  | '\x7b' :: digits => do
    match ← codeInBraces digits with
    | (written, '\x7d' :: rest) => .ok (written, rest)
    | (_, rest) => .error rest
  | text => do
    let (code, rest) ← hexDigits 4 0 text
    if isHalf code then halves text else .ok ([Char.ofNat code], rest)

def isOctalDigit (c : Char) : Bool := '0' ≤ c && c ≤ '7'

/-- Reads at most `count` more octal digits of a number that is `value` so far
and stays below 256. -/
def octalDigits (count value : Nat) : Text → Nat × Text
  | [] => (value, [])
  | c :: rest =>
    let next := value * 8 + (c.toNat - 48)
    if 0 < count && isOctalDigit c && next < 256 then octalDigits (count - 1) next rest
    else (value, c :: rest)

/-- The character that a letter after a backslash stands for. -/
def controlCharacter : Char → Char
  | 'b' => '\x08'
  | 'f' => '\x0C'
  | 'n' => '\n'
  | 'r' => '\r'
  | 't' => '\t'
  | 'v' => '\x0B'
  | c => c

/-- Reads what follows the backslash of an escape in a string. An escaped line
end stands for nothing. -/
def stringEscape : Text → Except Text (Text × Text)
  | [] => .error []
  | 'x' :: rest => do
    let (code, after) ← hexDigits 2 0 rest
    .ok ([Char.ofNat code], after)
  | 'u' :: rest => unicodeEscape rest
  | '\r' :: '\n' :: rest => .ok ([], rest)
  | c :: rest =>
    if isOctalDigit c then
      let (code, after) := octalDigits 3 0 (c :: rest)
      .ok ([Char.ofNat code], after)
    else .ok (if isLineEnd c then [] else [controlCharacter c], rest)

/-- Whether what follows a backslash is an escape that a template without a tag
may hold. Octal ones are not. -/
def isTemplateEscape : Text → Bool
  | '0' :: d :: _ => !isOctalDigit d
  | c :: rest => (c = '0' || !isOctalDigit c) && (stringEscape (c :: rest)).isOk
  | [] => false

end TypedComponent.Script
