import TypedComponent.Proofs.Markup.ClosingBrace
import TypedComponent.Proofs.Markup.Lockstep

/-!
Regular expressions in braces. Where a slash begins a regular expression, quotes and
braces up to the slash at its end stand for themselves. The search for the closing
brace takes such a slash for any other character, so the expression is found whole just
if its text is balanced in spite of that; it is if the text of every regular expression
in it is.
-/

namespace TypedComponent.Markup

/-- The text between the slashes of a regular expression, outside of a class in
brackets or inside of one. A slash in a class does not end it. -/
inductive PatternBody : (inClass : Bool) → Text → Prop
  | done : PatternBody false []
  | plain {c : Char} {rest : Text} (away : c ∉ "\\/[\n\r\u2028\u2029".toList)
      (more : PatternBody false rest) : PatternBody false (c :: rest)
  | escaped {inClass : Bool} {c : Char} {rest : Text} (line : c ∉ "\n\r\u2028\u2029".toList)
      (more : PatternBody inClass rest) : PatternBody inClass ('\\' :: c :: rest)
  | opening {rest : Text} (more : PatternBody true rest) : PatternBody false ('[' :: rest)
  | member {c : Char} {rest : Text} (away : c ∉ "\\]\n\r\u2028\u2029".toList)
      (more : PatternBody true rest) : PatternBody true (c :: rest)
  | closing {rest : Text} (more : PatternBody false rest) : PatternBody true (']' :: rest)

/-- What makes a text the body of a regular expression: without any the slashes would
begin a comment, and so would the first one with a star. -/
structure IsPattern (body : Text) : Prop where
  nonempty : body ≠ []
  star : body.head? ≠ some '*'
  whole : PatternBody false body

/-- The signs behind which a slash begins a regular expression. -/
def literalSigns : Text := "(,=:[!&|?\x7b".toList

/-- The last sign of a text that is no blank, when a character follows a sign. -/
def lastSign (before c : Char) : Char := if Text.isBlank c then before else c

/-- Text made of balanced pieces and regular expressions: of an expression, behind a
sign, or of a template literal between its substitutions. Every regular expression
with the text behind it is one of those allowed. -/
inductive Composed (allowed : Text → Text → Prop) : BraceContext → Char → Text → Prop
  | done {before : Char} : Composed allowed .code before []
  | plain {before c : Char} {rest : Text} (away : c ∉ "\x7b\x7d\"'\x60".toList)
      (slash : c = '/' → ∀ d ∈ rest.head?, d ≠ '/' ∧ d ≠ '*')
      (more : Composed allowed .code (lastSign before c) rest) :
      Composed allowed .code before (c :: rest)
  | pattern {before : Char} {body rest : Text} (sign : before ∈ literalSigns)
      (inside : IsPattern body) (fits : allowed body rest)
      (more : Composed allowed .code '/' rest) :
      Composed allowed .code before ('/' :: body ++ '/' :: rest)
  | braces {before : Char} {inner rest : Text} (inside : Composed allowed .code '\x7b' inner)
      (more : Composed allowed .code '\x7d' rest) :
      Composed allowed .code before ('\x7b' :: inner ++ '\x7d' :: rest)
  | quoted {before quote : Char} {body rest : Text} (quotes : quote = '"' ∨ quote = '\'')
      (inside : InQuotes quote body) (more : Composed allowed .code quote rest) :
      Composed allowed .code before (quote :: body ++ quote :: rest)
  | template {before : Char} {body rest : Text} (inside : Composed allowed .template '\x60' body)
      (more : Composed allowed .code '\x60' rest) :
      Composed allowed .code before ('\x60' :: body ++ '\x60' :: rest)
  | lineComment {before : Char} {body rest : Text} (inside : '\n' ∉ body)
      (more : Composed allowed .code before rest) :
      Composed allowed .code before ('/' :: '/' :: body ++ '\n' :: rest)
  | blockComment {before : Char} {body rest : Text} (inside : ∀ a b, body ≠ a ++ '*' :: '/' :: b)
      (more : Composed allowed .code before rest) :
      Composed allowed .code before ('/' :: '*' :: body ++ '*' :: '/' :: rest)
  | literalDone {before : Char} : Composed allowed .template before []
  | literal {before c : Char} {rest : Text} (away : c ≠ '\x60' ∧ c ≠ '\\')
      (dollar : c = '$' → rest.head? ≠ some '\x7b') (more : Composed allowed .template c rest) :
      Composed allowed .template before (c :: rest)
  | escaped {before : Char} (c : Char) {rest : Text} (more : Composed allowed .template c rest) :
      Composed allowed .template before ('\\' :: c :: rest)
  | substitution {before : Char} {inner rest : Text} (inside : Composed allowed .code '\x7b' inner)
      (more : Composed allowed .template '\x7d' rest) :
      Composed allowed .template before ('$' :: '\x7b' :: inner ++ '\x7d' :: rest)

/-- A regular expression that does no harm when it is taken for other code: its text
closes what it opens, and its last slash begins no comment. -/
structure Harmless (body rest : Text) : Prop where
  balanced : Balanced .code ('/' :: body ++ ['/'])
  apart : ∀ d ∈ rest.head?, d ≠ '/' ∧ d ≠ '*'

/-- Balanced texts one behind the other are balanced, unless a slash at the end of the
first begins a comment with the second. -/
theorem Balanced.append {context : BraceContext} {first second : Text}
    (hfirst : Balanced context first) (hcontext : context = .code)
    (hsecond : Balanced .code second)
    (apart : ∀ front, first = front ++ ['/'] → ∀ d ∈ second.head?, d ≠ '/' ∧ d ≠ '*') :
    Balanced .code (first ++ second) := by
  induction hfirst with
  | done => exact hsecond
  | @plain c rest away slash more ih =>
    refine .plain away (fun hc d hd => ?_)
      (ih hcontext fun front h => apart (c :: front) (by rw [h]; rfl))
    cases rest with
    | nil => exact apart [] (by rw [hc]; rfl) d hd
    | cons e rest => exact slash hc d hd
  | @braces inner rest inside more _ ih =>
    rw [List.append_assoc, List.cons_append]
    exact .braces inside (ih hcontext fun front h =>
      apart ('\x7b' :: inner ++ '\x7d' :: front) (by simp [h]))
  | @quoted quote body rest quotes inside more ih =>
    rw [List.append_assoc, List.cons_append]
    exact .quoted quotes inside (ih hcontext fun front h =>
      apart (quote :: body ++ quote :: front) (by simp [h]))
  | @template body rest inside more _ ih =>
    rw [List.append_assoc, List.cons_append]
    exact .template inside (ih hcontext fun front h =>
      apart ('\x60' :: body ++ '\x60' :: front) (by simp [h]))
  | @lineComment body rest inside more ih =>
    rw [List.append_assoc, List.cons_append]
    exact .lineComment inside (ih hcontext fun front h =>
      apart ('/' :: '/' :: body ++ '\n' :: front) (by simp [h]))
  | @blockComment body rest inside more ih =>
    rw [List.append_assoc, List.cons_append, List.cons_append]
    exact .blockComment inside (ih hcontext fun front h =>
      apart ('/' :: '*' :: body ++ '*' :: '/' :: front) (by simp [h]))
  | literalDone | literal | escaped | substitution => cases hcontext

/-- Where every regular expression is harmless, the text is balanced. -/
theorem Composed.balanced {allowed : Text → Text → Prop} {context : BraceContext} {before : Char}
    {text : Text} (h : Composed allowed context before text)
    (hallowed : ∀ body rest, allowed body rest → Harmless body rest) : Balanced context text := by
  induction h with
  | done => exact .done
  | plain away slash more ih => exact .plain away slash ih
  | @pattern before body rest sign inside fits more ih =>
    obtain ⟨hbalanced, hapart⟩ := hallowed body rest fits
    have hjoined := hbalanced.append rfl ih fun _ _ => hapart
    rwa [List.append_assoc] at hjoined
  | braces inside more ihInside ihMore => exact .braces ihInside ihMore
  | quoted quotes inside more ih => exact .quoted quotes inside ih
  | template inside more ihInside ihMore => exact .template ihInside ihMore
  | lineComment inside more ih => exact .lineComment inside ih
  | blockComment inside more ih => exact .blockComment inside ih
  | literalDone => exact .literalDone
  | literal away dollar more ih => exact .literal away dollar ih
  | escaped c more ih => exact .escaped c ih
  | substitution inside more ihInside ihMore => exact .substitution ihInside ihMore

section Whole

variable {inner rest : Text}

/-- Whether the search finds the brace behind an expression, when a text follows. -/
def FoundWhole (inner rest : Text) : Prop :=
  closingBrace? (.ofText ('\x7b' :: inner ++ '\x7d' :: rest)) =
    some ⟨1 + Text.bytes inner, '\x7d' :: rest⟩

theorem foundWhole_iff : FoundWhole inner rest ↔ Balanced .code inner := by
  have hplace (text : Text) : (⟨0 + 1 + Text.bytes inner, text⟩ : Cursor) =
      ⟨1 + Text.bytes inner, text⟩ := by rw [Nat.zero_add]
  constructor
  · intro h
    have hscan : closingBrace? ⟨0, '\x7b' :: (inner ++ '\x7d' :: rest)⟩ =
        some ⟨1 + Text.bytes inner, '\x7d' :: rest⟩ := h
    obtain ⟨found, behind, hsplit, hbalanced, hclose⟩ := closingBrace?_eq_some.mp hscan
    obtain ⟨hbytes, hbehind⟩ := Cursor.mk.inj hclose
    obtain ⟨rfl, -⟩ := Text.append_inj_of_bytes hsplit (by omega)
    exact hbalanced
  · intro h
    have hfound : closingBrace? ⟨0, '\x7b' :: inner ++ '\x7d' :: rest⟩ = some _ :=
      closingBrace?_balanced h
    rwa [hplace] at hfound

/-- An expression with regular expressions is found whole, whatever follows, just if it
is balanced when their slashes are characters like any other; and it is found whole if
every regular expression in it is harmless. -/
theorem closingBrace?_composed {allowed : Text → Text → Prop}
    (hinner : Composed allowed .code '\x7b' inner) :
    (∀ rest, FoundWhole inner rest ↔ Balanced .code inner) ∧
      ((∀ body behind, allowed body behind → Harmless body behind) →
        ∀ rest, FoundWhole inner rest) := by
  refine ⟨fun rest => foundWhole_iff, fun hallowed rest => ?_⟩
  exact foundWhole_iff.mpr (hinner.balanced hallowed)

/-- A regular expression behind an opening parenthesis, as the one argument of a call. -/
theorem composed_call {allowed : Text → Text → Prop} {body : Text} (inside : IsPattern body)
    (fits : allowed body [')']) :
    Composed allowed .code '\x7b' ("f(/".toList ++ body ++ "/)".toList) := by
  have hclosing : Composed allowed .code '/' [')'] :=
    .plain (by decide) (fun h => absurd h (by decide)) .done
  have hpattern : Composed allowed .code '(' ('/' :: body ++ '/' :: [')']) :=
    .pattern (by decide) inside fits hclosing
  exact .plain (by decide) (fun h => absurd h (by decide))
    (.plain (by decide) (fun h => absurd h (by decide)) hpattern)

/-- A count in braces and a text in quotes close what they open. -/
theorem closingBrace?_composed_count :
    Composed Harmless .code '\x7b' "f(/\\d\x7b2\x7d\"x\"/)".toList ∧
      FoundWhole "f(/\\d\x7b2\x7d\"x\"/)".toList "\"\x7d".toList := by
  have hpattern : IsPattern "\\d\x7b2\x7d\"x\"".toList := by
    refine ⟨by decide, by decide, .escaped (by decide) ?_⟩
    repeat' first
      | exact .done
      | refine .plain (by decide) ?_
  have hletter : InQuotes '"' ['x'] := .plain (by decide) .done
  have hdigit : Balanced .code ['2'] := .plain (by decide) (by decide) .done
  have hquoted : Balanced .code "\"x\"/".toList :=
    .quoted (.inl rfl) hletter (.plain (by decide) (fun _ d hd => nomatch hd) .done)
  have hcount : Balanced .code "\x7b2\x7d\"x\"/".toList := .braces hdigit hquoted
  have hharmless : Harmless "\\d\x7b2\x7d\"x\"".toList [')'] := by
    refine ⟨.plain (by decide) ?_ (.plain (by decide) (by decide)
      (.plain (by decide) (by decide) hcount)), ?_⟩
    · rintro - _ ⟨⟩
      decide
    · rintro _ ⟨⟩
      decide
  have hcall := composed_call hpattern hharmless
  exact ⟨hcall, (closingBrace?_composed hcall).2 (fun _ _ h => h) _⟩

/-- A source that begins with a brace that is never closed is one text. -/
theorem parse_unclosed {text : Text}
    (h : closingBrace? (.ofText ('\x7b' :: text)) = none) :
    parse ('\x7b' :: text) =
      let span : Span := ⟨0, Text.bytes ('\x7b' :: text)⟩
      ⟨⟨span, [.text span false], [], []⟩, [⟨.unclosedExpression, span⟩]⟩ := by
  have hrest : (Outline.ofSource ('\x7b' :: text)).cursor.rest = '\x7b' :: text := rfl
  have hmarkup : startsMarkup (Outline.ofSource ('\x7b' :: text)).cursor.rest = true := rfl
  have hstep := Outline.step_of_markup hmarkup
  rw [Outline.readMarkup_brace (readHere_brace hrest).1] at hstep
  have hnone : closingBrace? (Outline.ofSource ('\x7b' :: text)).cursor = none := h
  unfold Outline.readMustache at hstep
  simp only [hnone] at hstep
  have hfinished : (Outline.ofSource ('\x7b' :: text)).step.isFinished = true := by
    rw [hstep]
    rfl
  have hrun (steps : Nat) : Outline.run (steps + 1) (.ofSource ('\x7b' :: text)) =
      (Outline.ofSource ('\x7b' :: text)).step := by
    rw [Outline.run, if_neg (by simp [Outline.isFinished, hrest])]
    cases steps with
    | zero => rfl
    | succ steps => rw [Outline.run, if_pos hfinished]
  unfold parse
  simp only [hrun, hstep]
  simp [Outline.add, Outline.advance, Outline.ofSource, Cursor.ofText, Cursor.upTo, Cursor.finish]

/-- A quote in a regular expression opens a string for the search, which swallows the
closing brace. -/
theorem quote_hides_closingBrace :
    IsPattern ['"'] ∧ Composed (fun _ _ => True) .code '\x7b' "f(/\"/)".toList ∧
      parse "\x7bf(/\"/)\x7d".toList =
        ⟨⟨⟨0, 8⟩, [.text ⟨0, 8⟩ false], [], []⟩, [⟨.unclosedExpression, ⟨0, 8⟩⟩]⟩ ∧
      ¬ ∀ inner rest, Composed (fun _ _ => True) .code '\x7b' inner → FoundWhole inner rest := by
  have hpattern : IsPattern ['"'] := ⟨by decide, by decide, .plain (by decide) .done⟩
  have hcall : Composed (fun _ _ => True) .code '\x7b' ("f(/".toList ++ ['"'] ++ "/)".toList) :=
    composed_call hpattern trivial
  have hnone : closingBrace? (.ofText "\x7bf(/\"/)\x7d".toList) = none := by decide +kernel
  refine ⟨hpattern, hcall, parse_unclosed hnone, fun hall => ?_⟩
  have hfound := hall _ [] hcall
  have hsome : closingBrace? (.ofText "\x7bf(/\"/)\x7d".toList) = some ⟨7, ['\x7d']⟩ := hfound
  rw [hnone] at hsome
  cases hsome

end Whole

end TypedComponent.Markup
