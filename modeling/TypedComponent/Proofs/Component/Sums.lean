import TypedComponent.Component.Slots
import TypedComponent.Proofs.Script.Literals

/-!
What an attribute's value of several fragments is worth. Its operands are added
up from left to right, and a literal comes first, so that the sum is a text:
the texts and the values one after another, and never a sum of numbers.
-/

namespace TypedComponent.Component

open Markup (Fragment)
open Script (Token)

variable {Number : Type}

/-- What an operand of an addition may be worth. -/
inductive Value (Number : Type) where
  | text (raw : Text)
  | number (n : Number)

/-- How numbers are added and how they are written. -/
structure Numerals (Number : Type) where
  add : Number → Number → Number
  write : Number → Text

namespace Value

def written (numerals : Numerals Number) : Value Number → Text
  | .text raw => raw
  | .number n => numerals.write n

/-- An addition. It puts texts together as soon as one of the sides is a text. -/
def plus (numerals : Numerals Number) : Value Number → Value Number → Value Number
  | .number a, .number b => .number (numerals.add a b)
  | a, b => .text (a.written numerals ++ b.written numerals)

/-- Values added up from left to right. -/
def sum? (numerals : Numerals Number) : List (Value Number) → Option (Value Number)
  | [] => none
  | first :: rest => some (rest.foldl (plus numerals) first)

/-- A sum that is a text at one place stays a text. -/
theorem foldl_plus_text (numerals : Numerals Number) (values : List (Value Number)) (text : Text) :
    values.foldl (plus numerals) (.text text) =
      .text (text ++ values.flatMap (written numerals)) := by
  induction values generalizing text with
  | nil => simp
  | cons value rest ih =>
    have hstep : plus numerals (.text text) value = .text (text ++ value.written numerals) := by
      cases value <;> rfl
    rw [List.foldl_cons, hstep, ih, List.flatMap_cons, List.append_assoc]

theorem sum?_text (numerals : Numerals Number) (text : Text) (values : List (Value Number)) :
    sum? numerals (.text text :: values) =
      some (.text (text ++ values.flatMap (written numerals))) :=
  congrArg some (foldl_plus_text numerals values text)

end Value

/-- The text that a literal stands for. None if a script does not read all of
it as one literal. -/
def literal? (part : Text) : Option Text :=
  match Token.read false (part ++ [';']) with
  | (.string value, [';']) => some value
  | _ => none

theorem literal?_quoted (text : Text) : literal? (Text.quoted text) = some text := by
  simp [literal?, Script.read_quoted]

/-- What operands are worth, given each expression with its value. An operand
in parentheses must be the next of the expressions and any other one a literal,
and no expression may be left over. -/
def worths? : List Text → List (Text × Value Number) → Option (List (Value Number))
  | [], [] => some []
  | ('(' :: inner) :: parts, (expression, value) :: given =>
    if inner = expression ++ [')'] then (worths? parts given).map (value :: ·) else none
  | part :: parts, given => do
    let text ← literal? part
    return .text text :: (← worths? parts given)
  | [], _ :: _ => none

/-- The expressions of a value, as they stand in the source. -/
def expressions (source : Text) (fragments : List Fragment) : List Text :=
  fragments.filterMap fun
    | .text .. => none
    | .expression _ inner => some (Text.slice source inner)

/-- Fragments one after another, the texts as they are and each expression by
what its value is written as. -/
def interpolated (numerals : Numerals Number) : List Fragment → List (Value Number) → Text
  | .text _ raw :: fragments, given => raw ++ interpolated numerals fragments given
  | .expression .. :: fragments, value :: given =>
    value.written numerals ++ interpolated numerals fragments given
  | _, _ => []

theorem worths?_quoted (text : Text) (parts : List Text) (given : List (Text × Value Number)) :
    worths? (Text.quoted text :: parts) given = (worths? parts given).map (.text text :: ·) := by
  have hliteral := literal?_quoted text
  rw [Text.quoted] at hliteral ⊢
  rw [worths?, hliteral]
  · cases worths? parts given <;> rfl
  -- a quote is no parenthesis, so the literal is not taken for an expression
  · intro inner _ _ _ _ hbegins
    exact absurd (List.cons.inj hbegins).1 (by decide)

/-- Each operand of a fragment is worth what the fragment stands for. -/
theorem worths?_operands (numerals : Numerals Number) (source : Text) (fragments : List Fragment)
    (given : List (Value Number)) (hgiven : given.length = (expressions source fragments).length) :
    ∃ worths, worths? (fragments.map (operand source)) ((expressions source fragments).zip given) =
        some worths ∧
      worths.flatMap (Value.written numerals) = interpolated numerals fragments given := by
  induction fragments generalizing given with
  | nil => exact ⟨[], rfl, rfl⟩
  | cons fragment fragments ih =>
    cases fragment with
    | text span raw =>
      obtain ⟨worths, hworths, hwritten⟩ := ih given hgiven
      refine ⟨.text raw :: worths, ?_, ?_⟩
      · have hquoted := worths?_quoted raw (fragments.map (operand source))
          ((expressions source fragments).zip given)
        rw [hworths] at hquoted
        exact hquoted
      · rw [List.flatMap_cons, hwritten]
        rfl
    | expression span inner =>
      cases given with
      | nil => simp [expressions] at hgiven
      | cons value given =>
        have hrest : given.length = (expressions source fragments).length := by
          simpa [expressions] using hgiven
        obtain ⟨worths, hworths, hwritten⟩ := ih given hrest
        refine ⟨value :: worths, ?_, ?_⟩
        · simp only [expressions] at hworths
          simp [expressions, operand, worths?, hworths]
        · rw [List.flatMap_cons, hwritten]
          rfl

/-- A value of several fragments is an addition, and whatever its expressions
are worth, texts or numbers, it comes to the text of all fragments in their
order. -/
theorem valueExpression_sum (numerals : Numerals Number) (source : Text)
    (fragments : List Fragment) (given : List (Value Number)) (hseveral : 2 ≤ fragments.length)
    (hgiven : given.length = (expressions source fragments).length) :
    valueExpression source fragments = Text.join ['+'] (operands source fragments) ∧
      (worths? (operands source fragments) ((expressions source fragments).zip given)).bind
          (Value.sum? numerals) =
        some (.text (interpolated numerals fragments given)) := by
  match fragments, hseveral with
  | .text span raw :: second :: rest, _ =>
    refine ⟨rfl, ?_⟩
    obtain ⟨worths, hworths, hwritten⟩ :=
      worths?_operands numerals source (second :: rest) given hgiven
    have hall : worths? (operands source (.text span raw :: second :: rest))
        ((expressions source (second :: rest)).zip given) = some (.text raw :: worths) := by
      have hquoted := worths?_quoted raw ((second :: rest).map (operand source))
        ((expressions source (second :: rest)).zip given)
      rw [hworths] at hquoted
      exact hquoted
    rw [show expressions source (.text span raw :: second :: rest) =
      expressions source (second :: rest) from rfl, hall]
    simp only [Option.bind_some, Value.sum?_text, hwritten, interpolated]
  | .expression span inner :: second :: rest, _ =>
    refine ⟨rfl, ?_⟩
    obtain ⟨worths, hworths, hwritten⟩ := worths?_operands numerals source _ given hgiven
    have hall : worths? (operands source (.expression span inner :: second :: rest))
        ((expressions source (.expression span inner :: second :: rest)).zip given) =
          some (.text [] :: worths) := by
      rw [operands, worths?_quoted, hworths]
      rfl
    simp only [hall, Option.bind_some, Value.sum?_text, hwritten, List.nil_append]

/-- Two expressions side by side, a text and another expression. -/
def pairSource : Text := "\x7ba\x7d\x7bb\x7d of \"\x7bn\x7d".toList

def pairFragments : List Fragment :=
  [.expression ⟨0, 3⟩ ⟨1, 2⟩, .expression ⟨3, 6⟩ ⟨4, 5⟩, .text ⟨6, 11⟩ " of \"".toList,
    .expression ⟨11, 14⟩ ⟨12, 13⟩]

/-- Whole numbers, written in decimal digits. -/
def wholeNumerals : Numerals Nat where
  add := Nat.add
  write number := Nat.toDigits 10 number

theorem valueExpression_sum_pair :
    2 ≤ pairFragments.length ∧
      [Value.number 1, .number 2, .text "x".toList].length =
        (expressions pairSource pairFragments).length ∧
      valueExpression pairSource pairFragments = "\"\"+(a)+(b)+\" of \\\"\"+(n)".toList ∧
      (worths? (operands pairSource pairFragments)
          ((expressions pairSource pairFragments).zip
            [.number 1, .number 2, .text "x".toList])).bind (Value.sum? wholeNumerals) =
        some (.text "12 of \"x".toList) := by
  obtain ⟨hvalue, hsum⟩ := valueExpression_sum wholeNumerals pairSource pairFragments
    [.number 1, .number 2, .text "x".toList] (by decide) (by decide +kernel)
  refine ⟨by decide, by decide +kernel, ?_, ?_⟩
  · exact hvalue.trans (by decide +kernel)
  · exact hsum.trans (congrArg (some ∘ Value.text) (by decide +kernel))

end TypedComponent.Component
