import TypedComponent.Proofs.Markup.TwinAttributes

/-!
The loops that read attributes and values, told by what one pass of them does. A pass
leaves the loop, or it goes on from a place further on; so a loop ends, and what it
reads is what its passes find one after the other. The bound on the number of passes
with which the readers are defined is never met.
-/

namespace TypedComponent

theorem Cursor.Reaches.length_lt {start stop : Cursor} (h : start.Reaches stop)
    (hlt : start.offset < stop.offset) : stop.rest.length < start.rest.length := by
  obtain ⟨passed, hrest, hoffset⟩ := h
  have hne : passed ≠ [] := by
    rintro rfl
    simp at hoffset
    omega
  have hpos := List.length_pos_iff.mpr hne
  rw [hrest, List.length_append]
  omega

namespace Markup

open Cursor (Reaches)

/-- What one pass of a loop comes to. -/
inductive Pass (State Found : Type) where
  /-- The loop is left, and this is what the pass has read. -/
  | leaves (last : Reading (List Found))
  /-- The pass has found something, and the next one begins in another state. -/
  | goesOn (found : List Found) (errors : List Error) (next : State)

section Loop

variable {State Found : Type}

/-- What is read from some place on, behind what has been found before. -/
def Reading.behind (more : Reading (List Found)) (found : List Found) (errors : List Error) :
    Reading (List Found) :=
  ⟨found ++ more.value, errors ++ more.errors, more.cursor⟩

/-- What is read by a loop with such a pass, when the others read as given. -/
def Pass.before (others : State → Reading (List Found)) :
    Pass State Found → Reading (List Found)
  | leaves last => last
  | goesOn found errors next => (others next).behind found errors

/-- The passes of a loop from a state up to the one that leaves it, and what they read. -/
inductive Loop (pass : State → Pass State Found) : State → Reading (List Found) → Prop
  | leaves {state : State} {last : Reading (List Found)} (left : pass state = .leaves last) :
      Loop pass state last
  | goesOn {state next : State} {found : List Found} {errors : List Error}
      {more : Reading (List Found)} (passed : pass state = .goesOn found errors next)
      (others : Loop pass next more) : Loop pass state (more.behind found errors)

/-- Every pass that does not leave the loop ends behind the place where it begins. -/
def PassesAdvance (place : State → Cursor) (pass : State → Pass State Found) : Prop :=
  ∀ {state next : State} {found : List Found} {errors : List Error},
    pass state = .goesOn found errors next →
      (place state).Reaches (place next) ∧ (place state).offset < (place next).offset

/-- A loop ends in every state with what a reader reads there. -/
structure LoopEnds (place : State → Cursor) (pass : State → Pass State Found)
    (reader : State → Reading (List Found)) : Prop where
  advances : PassesAdvance place pass
  loop : ∀ state, Loop pass state (reader state)

/-- As many passes as characters are left, and one more, are enough. -/
theorem loop_of_passesAdvance {place : State → Cursor} {pass : State → Pass State Found}
    {within : Nat → State → Reading (List Found)} (hadvances : PassesAdvance place pass)
    (hwithin : ∀ steps state, within (steps + 1) state = (pass state).before (within steps))
    {steps : Nat} {state : State} (hsteps : (place state).rest.length < steps) :
    Loop pass state (within steps state) := by
  induction steps generalizing state with
  | zero => omega
  | succ steps ih =>
    rw [hwithin]
    cases hpass : pass state with
    | leaves last => exact .leaves hpass
    | goesOn found errors next =>
      obtain ⟨hreach, hlt⟩ := hadvances hpass
      have hfewer := hreach.length_lt hlt
      exact .goesOn hpass (ih (by omega))

end Loop

section Attributes

namespace Attribute

/-- One pass of the loop over the attributes of a tag. -/
def listPass (cursor : Cursor) : Pass Cursor Attribute :=
  let start := cursor.skipWhile isSeparator
  let (token, after) := Token.readHere start
  match token.kind with
  | .closeAngle | .slashAngle | .finish => .leaves ⟨[], [], cursor⟩
  | .name => .goesOn [(readNamed start).value] (readNamed start).errors (readNamed start).cursor
  | kind =>
    if kind.opensBrace then
      .goesOn (readBraced start).value.toList (readBraced start).errors (readBraced start).cursor
    else
      .goesOn [] [⟨.invalidAttribute (AttributeFault.unexpectedToken kind.shown).message,
        token.span⟩] after

theorem readListWithin_succ (steps : Nat) (cursor : Cursor) :
    readListWithin (steps + 1) cursor = (listPass cursor).before (readListWithin steps) := by
  rw [readListWithin]
  unfold listPass
  dsimp only
  rcases Token.readHere (cursor.skipWhile isSeparator) with ⟨⟨kind, span⟩, after⟩
  cases kind <;> rfl

theorem listPass_advances : PassesAdvance id listPass := by
  intro cursor next found errors hpass
  have hstart := Reaches.skipWhile cursor isSeparator
  unfold listPass at hpass
  dsimp only at hpass
  cases hrest : (cursor.skipWhile isSeparator).rest with
  | nil =>
    have hfinish : (Token.readHere (cursor.skipWhile isSeparator)).1.kind = .finish := by
      rw [readHere_kind, hrest]
      rfl
    rw [hfinish] at hpass
    cases hpass
  | cons c rest =>
    have hc := Cursor.skipWhile_head hrest
    have hle := hstart.offset_le
    split at hpass
    · cases hpass
    · cases hpass
    · cases hpass
    · next hname =>
      cases hpass
      rw [readHere_kind, hrest] at hname
      have hreach := readNamed_reaches (cursor.skipWhile isSeparator)
      have hlt := hreach.offset_lt (readNamed_passes hrest (TokenKind.leading_name hname hc))
      exact ⟨hstart.trans hreach, Nat.lt_of_le_of_lt hle hlt⟩
    · split at hpass
      · next hopens =>
        cases hpass
        obtain ⟨behind, hbrace⟩ := readHere_opensBrace hopens
        have hreach := readBraced_reaches (cursor.skipWhile isSeparator)
        have hlt := hreach.offset_lt (readBraced_passes hbrace)
        exact ⟨hstart.trans hreach, Nat.lt_of_le_of_lt hle hlt⟩
      · cases hpass
        have hreach := readHere_reaches (cursor.skipWhile isSeparator)
        have hpassed := readHere_passes hrest hc
        have hlt := hreach.offset_lt (by rw [hrest, List.length_cons]; omega)
        exact ⟨hstart.trans hreach, Nat.lt_of_le_of_lt hle hlt⟩

/-- The loop over the attributes of a tag ends. -/
theorem readList_ends : LoopEnds id listPass readList where
  advances := listPass_advances
  loop cursor := loop_of_passesAdvance listPass_advances readListWithin_succ
    (Nat.lt_succ_self cursor.rest.length)

end Attribute

end Attributes

namespace Fragment

/-- One pass of the loop over a value in quotes: a text, and the expression behind it. -/
def quotedPass (quote : Char) (cursor : Cursor) : Pass Cursor Fragment :=
  let mark := cursor.skipWhile fun c => c != quote && c != '\x7b'
  let text := textBetween cursor mark
  match mark.rest with
  | [] => .leaves
      ⟨text, [⟨.unexpectedEnd ("closing " ++ String.singleton quote), .empty mark.offset⟩], mark⟩
  | c :: _ =>
    if c = quote then .leaves ⟨text, [], mark.next⟩
    else
      match (readExpression mark).value with
      | none => .leaves ⟨text, (readExpression mark).errors, (readExpression mark).cursor⟩
      | some (span, inner) =>
        .goesOn (text ++ [.expression span inner]) (readExpression mark).errors
          (readExpression mark).cursor

theorem readQuotedWithin_succ (quote : Char) (steps : Nat) (cursor : Cursor) :
    readQuotedWithin quote (steps + 1) cursor =
      (quotedPass quote cursor).before (readQuotedWithin quote steps) := by
  rw [readQuotedWithin]
  unfold quotedPass
  dsimp only
  generalize (cursor.skipWhile fun c => c != quote && c != '\x7b') = mark
  cases mark.rest with
  | nil => rfl
  | cons c rest =>
    by_cases hc : c = quote
    · simp [hc, Pass.before]
    · cases (readExpression mark).value <;> simp [hc, Pass.before, Reading.behind]

theorem quotedPass_advances (quote : Char) : PassesAdvance id (quotedPass quote) := by
  intro cursor next found errors hpass
  have hmark := Reaches.skipWhile cursor fun c => c != quote && c != '\x7b'
  unfold quotedPass at hpass
  dsimp only at hpass
  generalize (cursor.skipWhile fun c => c != quote && c != '\x7b') = mark at hmark hpass
  split at hpass
  · cases hpass
  · split at hpass
    · cases hpass
    · split at hpass
      · cases hpass
      · next span inner hvalue =>
        cases hpass
        have hreach := readExpression_reaches mark
        have hlt := hreach.offset_lt (readExpression_passes hvalue)
        exact ⟨hmark.trans hreach, Nat.lt_of_le_of_lt hmark.offset_le hlt⟩

/-- A value in quotes, before it is seen whether it is empty. -/
def quotedParts (quote : Char) (cursor : Cursor) : Reading (List Fragment) :=
  readQuotedWithin quote (cursor.rest.length + 1) cursor

theorem readQuoted_eq (quote : Char) (cursor : Cursor) :
    readQuoted quote cursor =
      if (quotedParts quote cursor).value.isEmpty then
        { quotedParts quote cursor with value := [.text (.empty cursor.offset) []] }
      else quotedParts quote cursor := rfl

/-- The loop over a value in quotes ends. -/
theorem quotedParts_ends (quote : Char) : LoopEnds id (quotedPass quote) (quotedParts quote) where
  advances := quotedPass_advances quote
  loop cursor := loop_of_passesAdvance (quotedPass_advances quote) (readQuotedWithin_succ quote)
    (Nat.lt_succ_self cursor.rest.length)

/-- A place in a value without quotes: where the text before it begins, and the place. -/
structure UnquotedPlace where
  textStart : Cursor
  cursor : Cursor

/-- One pass of the loop over a value without quotes: an expression with the text before
it, or a token that belongs to a text. -/
def unquotedPass (place : UnquotedPlace) : Pass UnquotedPlace Fragment :=
  let (token, after) := Token.read place.cursor
  let text := textBetween place.textStart place.cursor
  if token.span.start != place.cursor.offset || token.kind = .closeAngle ||
      token.kind = .slashAngle || token.kind = .finish then
    .leaves ⟨text, [], place.cursor⟩
  else if token.kind.opensBrace then
    let expression := readExpression place.cursor
    match expression.value with
    | none => .leaves ⟨text, expression.errors, expression.cursor⟩
    | some (span, inner) =>
      .goesOn (text ++ [.expression span inner]) expression.errors
        ⟨expression.cursor, expression.cursor⟩
  else .goesOn [] [] ⟨place.textStart, after⟩

/-- A value without quotes from some place in it on, within a number of passes. -/
def unquotedWithin (steps : Nat) (place : UnquotedPlace) : Reading (List Fragment) :=
  readUnquotedWithin steps place.textStart place.cursor

theorem unquotedWithin_succ (steps : Nat) (place : UnquotedPlace) :
    unquotedWithin (steps + 1) place = (unquotedPass place).before (unquotedWithin steps) := by
  rw [unquotedWithin, readUnquotedWithin]
  unfold unquotedPass
  dsimp only
  split
  · simp [Pass.before]
  · split
    · cases (readExpression place.cursor).value <;>
        simp [Pass.before, Reading.behind, unquotedWithin]
    · simp [Pass.before, Reading.behind, unquotedWithin]

theorem unquotedPass_advances : PassesAdvance UnquotedPlace.cursor unquotedPass := by
  intro place next found errors hpass
  unfold unquotedPass at hpass
  dsimp only at hpass
  split at hpass
  · cases hpass
  · next hmore =>
    split at hpass
    · split at hpass
      · cases hpass
      · next span inner hvalue =>
        cases hpass
        have hreach := readExpression_reaches place.cursor
        exact ⟨hreach, hreach.offset_lt (readExpression_passes hvalue)⟩
    · cases hpass
      have hfinish : (Token.read place.cursor).1.kind ≠ .finish := by
        intro hfinish
        simp [hfinish] at hmore
      have hreach := read_reaches place.cursor
      exact ⟨hreach, hreach.offset_lt (read_passes hfinish)⟩

/-- A value without quotes, from some place in it on. -/
def unquotedParts (place : UnquotedPlace) : Reading (List Fragment) :=
  unquotedWithin (place.cursor.rest.length + 1) place

theorem readUnquoted_eq (cursor : Cursor) :
    readUnquoted cursor = unquotedParts ⟨cursor, cursor⟩ := rfl

/-- The loop over a value without quotes ends. -/
theorem unquotedParts_ends : LoopEnds UnquotedPlace.cursor unquotedPass unquotedParts where
  advances := unquotedPass_advances
  loop place := loop_of_passesAdvance unquotedPass_advances unquotedWithin_succ
    (Nat.lt_succ_self place.cursor.rest.length)

end Fragment

end Markup

end TypedComponent
