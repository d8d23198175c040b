import TypedComponent.Script.Escape

/-!
Numbers. Separators may stand anywhere among the digits. A number that begins
with a zero, goes on with digits or separators and has no digit above seven is
octal, and ends with its digits.
-/

namespace TypedComponent.Script

/-- Skips digits and separators, as many as there are. -/
def skipRun (isDigit : Char → Bool) (text : Text) : Text :=
  text.dropWhile fun c => isDigit c || c = '_'

def leadingRun (isDigit : Char → Bool) (text : Text) : Text :=
  text.takeWhile fun c => isDigit c || c = '_'

/-- Skips digits and separators, of which one must be a digit. -/
def skipDigits (isDigit : Char → Bool) (text : Text) : Except Text Text :=
  if (leadingRun isDigit text).any isDigit then .ok (skipRun isDigit text)
  else .error (skipRun isDigit text)

/-- Skips the sign of a big integer. Returns whether there is one. -/
def skipBigSign : Text → Bool × Text
  | 'n' :: rest => (true, rest)
  | text => (false, text)

def skipFraction : Text → Text
  | '.' :: rest => skipRun Text.isAsciiDigit rest
  | text => text

def skipExponent : Text → Except Text Text
  | 'e' :: rest | 'E' :: rest =>
    match rest with
    | '+' :: digits | '-' :: digits => skipDigits Text.isAsciiDigit digits
    | digits => skipDigits Text.isAsciiDigit digits
  | text => .ok text

def skipDecimals (text : Text) : Except Text (Bool × Text) :=
  (skipExponent (skipFraction text)).map ((false, ·))

/-- Skips the digits of a number after the sign of its base. -/
def skipBased (isDigit : Char → Bool) (text : Text) : Except Text (Bool × Text) :=
  (skipDigits isDigit text).map skipBigSign

/-- Skips a number. Returns whether it is a big integer. -/
def skipNumber (text : Text) : Except Text (Bool × Text) :=
  match text with
  | '0' :: 'x' :: rest | '0' :: 'X' :: rest => skipBased isHexDigit rest
  | '0' :: 'o' :: rest | '0' :: 'O' :: rest => skipBased isOctalDigit rest
  | '0' :: 'b' :: rest | '0' :: 'B' :: rest => skipBased (fun c => c = '0' || c = '1') rest
  | _ =>
    let rest := skipRun Text.isAsciiDigit text
    match leadingRun Text.isAsciiDigit text with
    | '0' :: second :: others =>
      if (second :: others).any fun c => c = '8' || c = '9' then skipDecimals rest
      else .ok (false, rest)
    | [] => skipDecimals text
    | _ =>
      match skipBigSign rest with
      | (true, after) => .ok (true, after)
      | (false, _) => skipDecimals rest

end TypedComponent.Script
