import Mathlib.Tactic.SplitIfs
import TypedComponent.Script.Token
import TypedComponent.Text.Quoted

/-!
A text that is written as a literal is read back by a script: the literal is
one token, and its value is the text.
-/

namespace TypedComponent.Script

theorem hexDigits_zero (value : Nat) (rest : Text) : hexDigits 0 value rest = .ok (value, rest) := by
  cases rest <;> simp [hexDigits]

/-- The characters that a reader counts off are passed over. -/
theorem stringRest_counted (quote : Char) (counted rest : Text) :
    stringRest quote counted.length (counted ++ rest) = stringRest quote 0 rest := by
  induction counted with
  | nil => rfl
  | cons c counted ih => exact ih

/-- An escape stands for the text that is read behind the backslash. -/
theorem stringRest_escape (part : Text) {rest value : Text}
    (h : stringEscape (part ++ rest) = .ok (value, rest)) :
    stringRest '"' 0 ('\\' :: (part ++ rest)) =
      (stringRest '"' 0 rest).map fun (more, last) => (value ++ more, last) := by
  have past := stringRest_counted '"' part rest
  cases read : stringRest '"' 0 rest <;>
    simp [stringRest, h, past, read, Except.map, Bind.bind, Except.bind]

/-- A character outside the escapes stands for itself. -/
theorem stringRest_plain {c : Char} (quote : c ≠ '"') (backslash : c ≠ '\\') (line : c ≠ '\n')
    (feed : c ≠ '\r') (rest : Text) :
    stringRest '"' 0 (c :: rest) =
      (stringRest '"' 0 rest).map fun (more, last) => (c :: more, last) := by
  cases read : stringRest '"' 0 rest <;>
    simp [stringRest, quote, backslash, line, feed, read, Except.map, Bind.bind, Except.bind]

/-- The four digits of a separator's escape. -/
theorem stringEscape_digits (rest : Text) :
    stringEscape ("u2028".toList ++ rest) = .ok (['\u2028'], rest) ∧
      stringEscape ("u2029".toList ++ rest) = .ok (['\u2029'], rest) := by
  constructor <;>
    simp [stringEscape, unicodeEscape, hexDigits, hexValue?, hexDigits_zero, isHalf, Bind.bind,
      Except.bind]

/-- What is written for a character is read back as that character. -/
theorem stringRest_escaped (c : Char) (rest : Text) :
    stringRest '"' 0 (Text.escaped c ++ rest) =
      (stringRest '"' 0 rest).map fun (more, last) => (c :: more, last) := by
  unfold Text.escaped
  split_ifs with quote backslash line feed tab separator paragraph
  · subst quote
    exact stringRest_escape ['"'] rfl
  · subst backslash
    exact stringRest_escape ['\\'] rfl
  · subst line
    exact stringRest_escape ['n'] rfl
  · subst feed
    exact stringRest_escape ['r'] rfl
  · subst tab
    exact stringRest_escape ['t'] rfl
  · subst separator
    exact stringRest_escape "u2028".toList (stringEscape_digits rest).1
  · subst paragraph
    exact stringRest_escape "u2029".toList (stringEscape_digits rest).2
  · exact stringRest_plain quote backslash line feed rest

theorem stringRest_quoted (text rest : Text) :
    stringRest '"' 0 (text.flatMap Text.escaped ++ '"' :: rest) = .ok (text, rest) := by
  induction text with
  | nil => simp [stringRest]
  | cons c text ih =>
    rw [List.flatMap_cons, List.append_assoc, stringRest_escaped, ih]
    rfl

/-- The literal for a text is one token with that text as its value, whatever
stands behind it. -/
theorem read_quoted (atStart : Bool) (text rest : Text) :
    Token.read atStart (Text.quoted text ++ rest) = (.string text, rest) := by
  have read := stringRest_quoted text rest
  have noWord : isWordStart '"' = false := by decide
  have noNumber : Text.isAsciiDigit '"' = false := by decide
  simp [Text.quoted, Token.read, noWord, noNumber, read]

end TypedComponent.Script
