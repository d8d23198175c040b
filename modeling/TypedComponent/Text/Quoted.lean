import TypedComponent.Text.Category

/-!
String literals in double quotes, and object keys. A key that could be an
identifier is written as it is, any other as a literal.
-/

namespace TypedComponent.Text

/-- A character inside a literal. The quote, the backslash and all that would
end a line are escaped, and so is the tab. -/
def escaped (c : Char) : Text :=
  if c = '"' then ['\\', '"']
  else if c = '\\' then ['\\', '\\']
  else if c = '\n' then ['\\', 'n']
  else if c = '\r' then ['\\', 'r']
  else if c = '\t' then ['\\', 't']
  else if c = '\u2028' then "\\u2028".toList
  else if c = '\u2029' then "\\u2029".toList
  else [c]

/-- The literal that stands for a text. -/
def quoted (text : Text) : Text :=
  '"' :: (text.flatMap escaped ++ ['"'])

/-- Whether a text can be a key without quotes. -/
def isPlainKey : Text → Bool
  | [] => false
  | c :: rest =>
    (isAlphabetic c || c = '_' || c = '$') &&
      rest.all fun c => isAlphanumeric c || c = '_' || c = '$'

/-- An object key for a text. -/
def objectKey (text : Text) : Text :=
  if isPlainKey text then text else quoted text

/-- An object from its written entries. -/
def inBraces (content : Text) : Text :=
  '\x7b' :: (content ++ ['\x7d'])

/-- A key without quotes is made of the characters of names. -/
theorem isPlainKey_mem {name : Text} (h : isPlainKey name = true) {c : Char} (hc : c ∈ name) :
    (isAlphanumeric c || c = '_' || c = '$') = true := by
  cases name with
  | nil => cases hc
  | cons first rest =>
    simp only [isPlainKey, Bool.and_eq_true, List.all_eq_true] at h
    obtain ⟨hfirst, hrest⟩ := h
    rcases List.mem_cons.mp hc with rfl | hlater
    · simp only [isAlphanumeric, Bool.or_eq_true] at hfirst ⊢
      exact hfirst.imp_left (Or.imp_left Or.inl)
    · exact hrest c hlater

end TypedComponent.Text
