/-!
Text as a list of characters, measured in the bytes of its UTF-8 form. Every
offset of this library counts bytes, so the length of a text is `Text.bytes`
and cutting goes by `Text.takeBytes` and `Text.dropBytes`. The two cuts are
exact at the offsets that `Text.isBoundary` accepts.
-/

namespace TypedComponent

/-- A text, or a part of one. -/
abbrev Text := List Char

namespace Text

instance instLawfulBEq : LawfulBEq Text := inferInstance

/-- The length of a text in bytes. -/
def bytes : Text → Nat
  | [] => 0
  | c :: rest => c.utf8Size + bytes rest

/-- Whether an offset lies between two characters, or at an end of the text. -/
def isBoundary : Text → Nat → Bool
  | _, 0 => true
  | [], _ + 1 => false
  | c :: rest, offset + 1 =>
    c.utf8Size ≤ offset + 1 && isBoundary rest (offset + 1 - c.utf8Size)

/-- What follows the first `count` bytes. A character that the cut would split
goes with the part before it. -/
def dropBytes : Text → Nat → Text
  | text, 0 => text
  | [], _ + 1 => []
  | c :: rest, count + 1 => dropBytes rest (count + 1 - c.utf8Size)

/-- The first `count` bytes, with a character that the cut would split. -/
def takeBytes : Text → Nat → Text
  | _, 0 => []
  | [], _ + 1 => []
  | c :: rest, count + 1 => c :: takeBytes rest (count + 1 - c.utf8Size)

/-- What follows `start`, if the text begins with it. -/
def after? : Text → Text → Option Text
  | [], text => some text
  | _ :: _, [] => none
  | c :: start, d :: text => if c = d then after? start text else none

/-- Whether the text begins with `start`. -/
def startsWith (text start : Text) : Bool :=
  (after? start text).isSome

/-- The part before the first place where `mark` begins, and the part from
there on; nothing when `mark` does not occur. -/
def splitAt? (mark : Text) : Text → Option (Text × Text)
  | [] => if mark = [] then some ([], []) else none
  | c :: rest =>
    if startsWith (c :: rest) mark then some ([], c :: rest)
    else (splitAt? mark rest).map fun (before, found) => (c :: before, found)

/-- Upper case for the ASCII letters, all other characters as they are. -/
def asciiUpper (c : Char) : Char :=
  if 'a' ≤ c ∧ c ≤ 'z' then Char.ofNat (c.toNat - 32) else c

/-- Lower case for the ASCII letters, all other characters as they are. -/
def asciiLower (c : Char) : Char :=
  if 'A' ≤ c ∧ c ≤ 'Z' then Char.ofNat (c.toNat + 32) else c

/-- Whether two texts agree up to the case of ASCII letters. -/
def sameLetters (a b : Text) : Bool :=
  a.map asciiLower = b.map asciiLower

/-- The texts one after another with `separator` between neighbours. -/
def join (separator : Text) : List Text → Text
  | [] => []
  | [only] => only
  | first :: second :: rest => first ++ separator ++ join separator (second :: rest)

@[simp] theorem bytes_nil : bytes [] = 0 := rfl

@[simp] theorem bytes_cons (c : Char) (rest : Text) :
    bytes (c :: rest) = c.utf8Size + bytes rest := rfl

@[simp] theorem bytes_append (a b : Text) : bytes (a ++ b) = bytes a + bytes b := by
  induction a with
  | nil => simp
  | cons c rest ih => simp [ih, Nat.add_assoc]

/-- A text has at least as many bytes as characters. -/
theorem length_le_bytes (text : Text) : text.length ≤ bytes text := by
  induction text with
  | nil => simp
  | cons c rest ih =>
    have := c.utf8Size_pos
    simp only [List.length_cons, bytes_cons]
    omega

theorem bytes_pos_of_ne_nil {text : Text} (h : text ≠ []) : 0 < bytes text := by
  have hlength := length_le_bytes text
  have hpos := List.length_pos_iff.mpr h
  omega

@[simp] theorem dropBytes_zero (text : Text) : dropBytes text 0 = text := by
  cases text <;> rfl

@[simp] theorem takeBytes_zero (text : Text) : takeBytes text 0 = [] := by
  cases text <;> rfl

/-- Cutting after a first part gives back the second. -/
theorem dropBytes_append (a b : Text) : dropBytes (a ++ b) (bytes a) = b := by
  induction a with
  | nil => simp
  | cons c rest ih =>
    have hpos := c.utf8Size_pos
    obtain ⟨n, hn⟩ : ∃ n, c.utf8Size + bytes rest = n + 1 :=
      ⟨c.utf8Size + bytes rest - 1, by omega⟩
    have hrest : n + 1 - c.utf8Size = bytes rest := by omega
    simp only [List.cons_append, bytes_cons, hn, dropBytes, hrest, ih]

/-- The text is its beginning followed by what `after?` returns. -/
theorem eq_append_of_after? {start text rest : Text} (h : after? start text = some rest) :
    text = start ++ rest := by
  induction start generalizing text with
  | nil => simpa [after?] using h
  | cons c start ih =>
    cases text with
    | nil => simp [after?] at h
    | cons d text =>
      by_cases hc : c = d
      · simp only [after?, hc, if_true] at h
        simp [hc, ih h]
      · simp [after?, hc] at h

theorem after?_append (start rest : Text) : after? start (start ++ rest) = some rest := by
  induction start with
  | nil => rfl
  | cons c start ih => simpa [after?] using ih

theorem startsWith_append (start rest : Text) : startsWith (start ++ rest) start = true := by
  rw [startsWith, after?_append]
  rfl

end Text

end TypedComponent
