import TypedComponent.Proofs.Markup.Advance
import Mathlib.Data.List.TakeWhile

/-!
Where the parts of a tag are. The fragments of a value follow each other without
a gap, attributes follow each other, and all of them, like the faults met on the
way, lie between places that the reading passes.
-/

namespace TypedComponent

namespace Cursor.Reaches

variable {start stop : Cursor}

theorem finish_eq (h : start.Reaches stop) : stop.finish = start.finish := by
  obtain ⟨passed, hrest, hoffset⟩ := h
  simp only [Cursor.finish, hrest, hoffset, Text.bytes_append, Nat.add_assoc]

/-- From wherever the reading gets to, it can go on to the end. -/
theorem to_finish (h : start.Reaches stop) : stop.Reaches start.finish := by
  rw [← h.finish_eq]
  exact finish stop

theorem eq_of_offset (h : start.Reaches stop) (hoffset : start.offset = stop.offset) :
    start = stop := by
  obtain ⟨passed, hrest, hstop⟩ := h
  have hpassed : passed = [] := Text.eq_nil_of_bytes_eq_zero (by omega)
  subst hpassed
  obtain ⟨startOffset, startRest⟩ := start
  obtain ⟨stopOffset, stopRest⟩ := stop
  dsimp only at hrest hoffset
  rw [hoffset, hrest, List.nil_append]

theorem textTo_eq {passed : Text} (h : start.rest = passed ++ stop.rest)
    (hoffset : stop.offset = start.offset + Text.bytes passed) : start.textTo stop = passed := by
  rw [Cursor.textTo, h, hoffset, Nat.add_sub_cancel_left, Text.takeBytes_append]

/-- What is read between two places stands between them. -/
theorem rest_eq (h : start.Reaches stop) : start.rest = start.textTo stop ++ stop.rest := by
  obtain ⟨passed, hrest, hoffset⟩ := h
  rw [textTo_eq hrest hoffset, hrest]

/-- A place with less text behind it is further on. -/
theorem offset_lt (h : start.Reaches stop) (hlt : stop.rest.length < start.rest.length) :
    start.offset < stop.offset := by
  rcases Nat.lt_or_eq_of_le h.offset_le with hless | hsame
  · exact hless
  · rw [h.eq_of_offset hsame] at hlt
    exact absurd hlt (Nat.lt_irrefl _)

theorem textTo_trans {between : Cursor} (hstart : start.Reaches between)
    (hstop : between.Reaches stop) :
    start.textTo stop = start.textTo between ++ between.textTo stop := by
  have hall := (hstart.trans hstop).rest_eq
  rw [hstart.rest_eq, hstop.rest_eq, ← List.append_assoc] at hall
  exact (List.append_cancel_right hall).symm

end Cursor.Reaches

theorem Cursor.textTo_takeWhile (cursor : Cursor) (p : Char → Bool) :
    cursor.textTo (cursor.takeWhile p).2 = (cursor.takeWhile p).1 :=
  Reaches.textTo_eq List.takeWhile_append_dropWhile.symm rfl

theorem Cursor.textTo_skipWhile (cursor : Cursor) (p : Char → Bool) :
    cursor.textTo (cursor.skipWhile p) = cursor.rest.takeWhile p :=
  textTo_takeWhile cursor p

/-- A span goes from one place to a later one, both on the way between two
places. -/
def Span.OnWay (start stop : Cursor) (span : Span) : Prop :=
  ∃ a b, start.Reaches a ∧ a.Reaches b ∧ b.Reaches stop ∧ span = a.upTo b

theorem Span.OnWay.mono {start stop start' stop' : Cursor} {span : Span}
    (h : span.OnWay start stop) (hstart : start'.Reaches start) (hstop : stop.Reaches stop') :
    span.OnWay start' stop' := by
  obtain ⟨a, b, ha, hab, hb, rfl⟩ := h
  exact ⟨a, b, hstart.trans ha, hab, hb.trans hstop, rfl⟩

namespace Markup

open Cursor (Reaches)

/-- Faults that lie behind a place. -/
def FaultsBehind (start : Cursor) (errors : List Error) : Prop :=
  ∀ error ∈ errors, error.span.OnWay start start.finish

namespace FaultsBehind

variable {start : Cursor}

theorem nil (start : Cursor) : FaultsBehind start [] := List.forall_mem_nil _

theorem append {first second : List Error} (hfirst : FaultsBehind start first)
    (hsecond : FaultsBehind start second) : FaultsBehind start (first ++ second) :=
  List.forall_mem_append.mpr ⟨hfirst, hsecond⟩

theorem mono {later : Cursor} (hreach : start.Reaches later) {errors : List Error}
    (h : FaultsBehind later errors) : FaultsBehind start errors := by
  intro error herror
  refine (h error herror).mono hreach ?_
  rw [hreach.finish_eq]
  exact Reaches.refl _

theorem upTo {a b : Cursor} (ha : start.Reaches a) (hab : a.Reaches b) (fault : Fault) :
    FaultsBehind start [⟨fault, a.upTo b⟩] := by
  intro error herror
  rw [List.mem_singleton.mp herror]
  exact ⟨a, b, ha, hab, (ha.trans hab).to_finish, rfl⟩

theorem empty {a : Cursor} (ha : start.Reaches a) (fault : Fault) :
    FaultsBehind start [⟨fault, .empty a.offset⟩] :=
  upTo ha (Reaches.refl a) fault

end FaultsBehind

theorem closingBraceIn_rest {context : BraceContext} {opened : List Opening} {offset : Nat}
    {text : Text} {close : Cursor}
    (h : closingBraceIn context opened offset text = some close) :
    ∃ rest, close.rest = '\x7d' :: rest := by
  fun_induction closingBraceIn context opened offset text with
  | case1 => cases h
  | case3 offset rest | case4 offset rest =>
    cases h
    exact ⟨_, rfl⟩
  | _ =>
    rename_i ih
    exact ih h

/-- The closing brace of an expression is behind its opening one. -/
theorem closingBrace?_inner {cursor close : Cursor} {rest : Text}
    (hbrace : cursor.rest = '\x7b' :: rest) (h : closingBrace? cursor = some close) :
    cursor.next.Reaches close := by
  obtain ⟨offset, text⟩ := cursor
  cases hbrace
  have hinner : closingBraceIn .code [.brace] (offset + 1) rest = some close := h
  exact closingBraceIn_reaches hinner

/-- A token that opens an expression begins with a brace. -/
theorem TokenKind.opensBrace_leading {text : Text} (h : (leading text).1.opensBrace = true) :
    ∃ rest, text = '\x7b' :: rest := by
  unfold leading at h
  split at h <;> first
    | exact ⟨_, rfl⟩
    | cases h

theorem readHere_kind (cursor : Cursor) :
    (Token.readHere cursor).1.kind = (TokenKind.leading cursor.rest).1 := rfl

theorem readHere_opensBrace {cursor : Cursor}
    (h : (Token.readHere cursor).1.kind.opensBrace = true) : ∃ rest, cursor.rest = '\x7b' :: rest :=
  TokenKind.opensBrace_leading (by rwa [readHere_kind] at h)

/-- The braces of an expression: `inside` is behind the opening one, and `close` is
the place of the closing one. -/
structure Braced (start inside close : Cursor) : Prop where
  opens : ∃ rest, start.rest = '\x7b' :: rest
  inside_eq : inside = start.next
  closes : closingBrace? start = some close

theorem Braced.opening {start inside close : Cursor} (h : Braced start inside close) :
    start.Reaches inside := by
  rw [h.inside_eq]
  exact Reaches.next start

theorem Braced.inner {start inside close : Cursor} (h : Braced start inside close) :
    inside.Reaches close := by
  obtain ⟨rest, hbrace⟩ := h.opens
  rw [h.inside_eq]
  exact closingBrace?_inner hbrace h.closes

namespace Fragment

/-- Fragments that follow each other from one place to another, of which no two
texts are neighbours. -/
inductive Row : Cursor → List Fragment → Cursor → Prop
  | nil (place : Cursor) : Row place [] place
  | text {a b c : Cursor} {others : List Fragment} (reaches : a.Reaches b)
      (apart : ∀ span raw, others.head? ≠ some (.text span raw)) (rest : Row b others c) :
      Row a (.text (a.upTo b) (a.textTo b) :: others) c
  | expression {a inside close after c : Cursor} {others : List Fragment}
      (braced : Braced a inside close) (closing : close.Reaches after)
      (rest : Row after others c) :
      Row a (.expression (a.upTo after) (inside.upTo close) :: others) c

theorem Row.reaches {start stop : Cursor} {values : List Fragment} (h : Row start values stop) :
    start.Reaches stop := by
  induction h with
  | nil => exact Reaches.refl _
  | text reaches _ _ ih => exact reaches.trans ih
  | expression braced closing _ ih =>
    exact ((braced.opening.trans braced.inner).trans closing).trans ih

theorem textBetween_row {a b c : Cursor} {others : List Fragment} (hreach : a.Reaches b)
    (hapart : ∀ span raw, others.head? ≠ some (.text span raw)) (hrest : Row b others c) :
    Row a (textBetween a b ++ others) c := by
  unfold textBetween
  split
  · next hoffset => rwa [List.nil_append, hreach.eq_of_offset hoffset]
  · exact Row.text hreach hapart hrest

theorem textBetween_row_nil {a b : Cursor} (hreach : a.Reaches b) : Row a (textBetween a b) b := by
  have hrow : Row a (textBetween a b ++ []) b :=
    textBetween_row hreach (fun _ _ h => nomatch h) (Row.nil b)
  rwa [List.append_nil] at hrow

theorem readExpression_faults (cursor : Cursor) :
    FaultsBehind cursor (readExpression cursor).errors := by
  unfold readExpression
  split
  · exact FaultsBehind.nil _
  · exact FaultsBehind.upTo (Reaches.refl _) (Reaches.finish _) _

/-- An expression that is closed stands between its braces. -/
theorem readExpression_some {cursor : Cursor} {rest : Text} (hbrace : cursor.rest = '\x7b' :: rest)
    {span inner : Span} (h : (readExpression cursor).value = some (span, inner)) :
    (readExpression cursor).errors = [] ∧ span = cursor.upTo (readExpression cursor).cursor ∧
      ∃ close, Braced cursor cursor.next close ∧ close.Reaches (readExpression cursor).cursor ∧
        inner = cursor.next.upTo close := by
  unfold readExpression at h ⊢
  cases hclose : closingBrace? cursor with
  | none =>
    rw [hclose] at h
    cases h
  | some close =>
    rw [hclose] at h
    cases h
    exact ⟨rfl, rfl, close, ⟨⟨rest, hbrace⟩, rfl, hclose⟩, Reaches.next close, rfl⟩

theorem readExpression_none {cursor : Cursor} (h : (readExpression cursor).value = none) :
    (readExpression cursor).errors ≠ [] := by
  unfold readExpression at h ⊢
  split at h
  · cases h
  · exact List.cons_ne_nil _ _

theorem row_of_expression {cursor stop : Cursor} {rest : Text} (hbrace : cursor.rest = '\x7b' :: rest)
    {span inner : Span} (h : (readExpression cursor).value = some (span, inner))
    {others : List Fragment} (hothers : Row (readExpression cursor).cursor others stop) :
    Row cursor (.expression span inner :: others) stop := by
  obtain ⟨-, rfl, close, hbraced, hclosing, rfl⟩ := readExpression_some hbrace h
  exact Row.expression hbraced hclosing hothers

/-- Fragments in a row, read from one place on. -/
structure ReadsRow (start : Cursor) (reading : Reading (List Fragment)) : Prop where
  faults : FaultsBehind start reading.errors
  row : ∃ last, Row start reading.value last ∧ last.Reaches reading.cursor

theorem ReadsRow.expression {start cursor : Cursor} {rest : Text}
    (hstart : start.Reaches cursor) (hbrace : cursor.rest = '\x7b' :: rest) {span inner : Span}
    (h : (readExpression cursor).value = some (span, inner)) {more : Reading (List Fragment)}
    (hmore : ReadsRow (readExpression cursor).cursor more) :
    ReadsRow start ⟨textBetween start cursor ++ .expression span inner :: more.value,
      (readExpression cursor).errors ++ more.errors, more.cursor⟩ := by
  obtain ⟨last, hrow, hlast⟩ := hmore.row
  have hreach := hstart.trans (readExpression_reaches cursor)
  exact {
    faults := ((readExpression_faults cursor).mono hstart).append (hmore.faults.mono hreach)
    row := ⟨last, textBetween_row hstart (fun _ _ h => nomatch h)
      (row_of_expression hbrace h hrow), hlast⟩ }

theorem ReadsRow.unclosed {start cursor : Cursor} (hstart : start.Reaches cursor) :
    ReadsRow start ⟨textBetween start cursor, (readExpression cursor).errors,
      (readExpression cursor).cursor⟩ where
  faults := (readExpression_faults cursor).mono hstart
  row := ⟨cursor, textBetween_row_nil hstart, readExpression_reaches cursor⟩

theorem readQuotedWithin_row (quote : Char) (steps : Nat) (cursor : Cursor) :
    ReadsRow cursor (readQuotedWithin quote steps cursor) := by
  induction steps generalizing cursor with
  | zero => exact ⟨FaultsBehind.nil _, cursor, Row.nil _, Reaches.refl _⟩
  | succ steps ih =>
    have hmark := Reaches.skipWhile cursor fun c => c != quote && c != '\x7b'
    have hhead := List.head?_dropWhile_not (fun c => c != quote && c != '\x7b') cursor.rest
    unfold readQuotedWithin
    dsimp only
    generalize hplace : (cursor.skipWhile fun c => c != quote && c != '\x7b') = mark at hmark ⊢
    have hrest : mark.rest = cursor.rest.dropWhile fun c => c != quote && c != '\x7b' := by
      rw [← hplace]
      rfl
    rw [← hrest] at hhead
    split
    · exact ⟨FaultsBehind.empty hmark _, mark, textBetween_row_nil hmark, Reaches.refl _⟩
    · next c rest hc =>
      rw [hc] at hhead
      split
      · exact ⟨FaultsBehind.nil _, mark, textBetween_row_nil hmark, Reaches.next mark⟩
      · next hquote =>
        have hbrace : mark.rest = '\x7b' :: rest := by
          rw [hc]
          simpa [hquote] using hhead
        split
        · exact ReadsRow.unclosed hmark
        · next span inner hvalue => exact ReadsRow.expression hmark hbrace hvalue (ih _)

theorem readQuoted_row (quote : Char) (cursor : Cursor) :
    ReadsRow cursor (readQuoted quote cursor) := by
  have hwithin := readQuotedWithin_row quote (cursor.rest.length + 1) cursor
  unfold readQuoted
  dsimp only
  split
  · refine ⟨hwithin.faults, cursor, ?_, readQuotedWithin_reaches _ _ _⟩
    have hempty : cursor.textTo cursor = [] := by simp [Cursor.textTo]
    have hrow := Row.text (Reaches.refl cursor) (fun _ _ h => by cases h) (Row.nil cursor)
    rwa [hempty] at hrow
  · exact hwithin

theorem readUnquotedWithin_row (steps : Nat) {textStart cursor : Cursor}
    (hstart : textStart.Reaches cursor) :
    ReadsRow textStart (readUnquotedWithin steps textStart cursor) := by
  induction steps generalizing textStart cursor with
  | zero => exact ⟨FaultsBehind.nil _, textStart, Row.nil _, hstart⟩
  | succ steps ih =>
    unfold readUnquotedWithin
    dsimp only
    split
    · exact ⟨FaultsBehind.nil _, cursor, textBetween_row_nil hstart, Reaches.refl _⟩
    · next hgoes =>
      split
      · next hopens =>
        have hplace : (cursor.skipWhile isSeparator).offset = cursor.offset := by
          simp only [Bool.or_eq_true, bne_iff_ne, decide_eq_true_eq, not_or,
            Decidable.not_not] at hgoes
          exact hgoes.1.1.1
        have hhere := (Reaches.skipWhile cursor isSeparator).eq_of_offset hplace.symm
        obtain ⟨rest, hbrace⟩ := readHere_opensBrace hopens
        rw [← hhere] at hbrace
        split
        · exact ReadsRow.unclosed hstart
        · next span inner hvalue =>
          exact ReadsRow.expression hstart hbrace hvalue (ih (Reaches.refl _))
      · exact ih (hstart.trans (read_reaches cursor))

theorem readValue_row (cursor : Cursor) :
    FaultsBehind cursor (readValue cursor).errors ∧
      ∃ first last, cursor.Reaches first ∧ Row first (readValue cursor).value last ∧
        last.Reaches (readValue cursor).cursor := by
  have hstart := Reaches.skipWhile cursor isSeparator
  have hhere := readHere_reaches (cursor.skipWhile isSeparator)
  have hplaced {first : Cursor} (hfirst : cursor.Reaches first)
      {reading : Reading (List Fragment)} (h : ReadsRow first reading) :
      FaultsBehind cursor reading.errors ∧ ∃ first last, cursor.Reaches first ∧
        Row first reading.value last ∧ last.Reaches reading.cursor := by
    obtain ⟨last, hrow, hlast⟩ := h.row
    exact ⟨h.faults.mono hfirst, first, last, hfirst, hrow, hlast⟩
  have hmissing (fault : Fault) : FaultsBehind cursor
      [⟨fault, (Token.readHere (cursor.skipWhile isSeparator)).1.span⟩] :=
    FaultsBehind.upTo hstart hhere fault
  unfold readValue
  dsimp only
  split
  · exact hplaced (hstart.trans hhere) (readQuoted_row _ _)
  · exact hplaced (hstart.trans hhere) (readQuoted_row _ _)
  · exact ⟨hmissing _, cursor, cursor, Reaches.refl _, Row.nil _, Reaches.refl _⟩
  · exact ⟨hmissing _, cursor, cursor, Reaches.refl _, Row.nil _, Reaches.refl _⟩
  · exact ⟨hmissing _, cursor, cursor, Reaches.refl _, Row.nil _, Reaches.refl _⟩
  · split
    · next hopens =>
      obtain ⟨rest, hbrace⟩ := readHere_opensBrace hopens
      refine hplaced hstart ⟨readExpression_faults _, ?_⟩
      cases hvalue : (readExpression (cursor.skipWhile isSeparator)).value with
      | none => exact ⟨_, Row.nil _, readExpression_reaches _⟩
      | some found => exact ⟨_, row_of_expression hbrace hvalue (Row.nil _), Reaches.refl _⟩
    · exact hplaced hstart (readUnquotedWithin_row _ (Reaches.refl _))

end Fragment

namespace Attribute

/-- What an attribute is read from, with its value or expression in it. -/
def Along (start stop : Cursor) : Attribute → Prop
  | .named span _ values => span = start.upTo stop ∧ ∃ first last, start.Reaches first ∧
      Fragment.Row first values last ∧ last.Reaches stop
  | .spread span inner => span = start.upTo stop ∧ ∃ inside close, start.Reaches inside ∧
      inside.Reaches close ∧ close.Reaches stop ∧ inner = inside.upTo close

/-- Only separators lie between two places, unless the reading finds a fault. -/
def Spaced (errors : List Error) (start stop : Cursor) : Prop :=
  start.Reaches stop ∧ (errors = [] → ∀ c ∈ start.textTo stop, isSeparator c = true)

namespace Spaced

variable {errors : List Error} {start stop : Cursor}

theorem refl (errors : List Error) (place : Cursor) : Spaced errors place place :=
  ⟨Reaches.refl _, fun _ => by simp [Cursor.textTo]⟩

theorem skipWhile (errors : List Error) (cursor : Cursor) :
    Spaced errors cursor (cursor.skipWhile isSeparator) := by
  refine ⟨Reaches.skipWhile cursor isSeparator, fun _ c hc => ?_⟩
  rw [Cursor.textTo_skipWhile] at hc
  exact List.mem_takeWhile_imp hc

theorem of_faults (hfaults : errors ≠ []) (h : start.Reaches stop) : Spaced errors start stop :=
  ⟨h, fun hnone => absurd hnone hfaults⟩

theorem trans {between : Cursor} (hstart : Spaced errors start between)
    (hstop : Spaced errors between stop) : Spaced errors start stop := by
  refine ⟨hstart.1.trans hstop.1, fun hnone => ?_⟩
  rw [hstart.1.textTo_trans hstop.1]
  exact List.forall_mem_append.mpr ⟨hstart.2 hnone, hstop.2 hnone⟩

theorem mono {more : List Error} (hmore : more = [] → errors = [])
    (h : Spaced errors start stop) : Spaced more start stop :=
  ⟨h.1, fun hnone => h.2 (hmore hnone)⟩

end Spaced

/-- Attributes that follow each other from one place to another, with nothing
but separators around them unless the reading finds a fault. -/
inductive Row (errors : List Error) : Cursor → List Attribute → Cursor → Prop
  | nil {start stop : Cursor} (gap : Spaced errors start stop) : Row errors start [] stop
  | cons {start first after stop : Cursor} {attr : Attribute} {others : List Attribute}
      (gap : Spaced errors start first) (along : attr.Along first after)
      (rest : Row errors after others stop) : Row errors start (attr :: others) stop

namespace Row

variable {errors : List Error} {start between stop : Cursor} {attributes : List Attribute}

theorem skip (hgap : Spaced errors start between) (h : Row errors between attributes stop) :
    Row errors start attributes stop := by
  cases h with
  | nil gap => exact nil (hgap.trans gap)
  | cons gap along rest => exact cons (hgap.trans gap) along rest

theorem reaches (h : Row errors start attributes stop) : start.Reaches stop := by
  induction h with
  | nil gap => exact gap.1
  | @cons _ _ _ _ attr _ gap along rest ih =>
    cases attr with
    | named span name values =>
      obtain ⟨-, first, last, hfirst, hrow, hlast⟩ := along
      exact gap.1.trans ((hfirst.trans (hrow.reaches.trans hlast)).trans ih)
    | spread span inner =>
      obtain ⟨-, inside, close, hinside, hclose, hafter, -⟩ := along
      exact gap.1.trans ((hinside.trans (hclose.trans hafter)).trans ih)

theorem extend (h : Row errors start attributes between) (hgap : Spaced errors between stop) :
    Row errors start attributes stop := by
  induction h with
  | nil gap => exact nil (gap.trans hgap)
  | cons gap along rest ih => exact cons gap along (ih hgap)

theorem mono {more : List Error} (hmore : more = [] → errors = [])
    (h : Row errors start attributes stop) : Row more start attributes stop := by
  induction h with
  | nil gap => exact nil (gap.mono hmore)
  | cons gap along rest ih => exact cons (gap.mono hmore) along ih

end Row

theorem readNamed_along (start : Cursor) :
    FaultsBehind start (readNamed start).errors ∧
      (readNamed start).value.Along start (readNamed start).cursor := by
  have hname := Reaches.takeWhile start isNameChar
  have hafter := hname.trans (read_reaches (start.takeWhile isNameChar).2)
  unfold readNamed
  dsimp only
  split
  · obtain ⟨hfaults, first, last, hfirst, hrow, hlast⟩ :=
      Fragment.readValue_row (Token.read (start.takeWhile isNameChar).2).2
    exact ⟨hfaults.mono hafter, rfl, first, last, hafter.trans hfirst, hrow, hlast⟩
  · exact ⟨FaultsBehind.nil _, rfl, _, _, hname, Fragment.Row.nil _, Reaches.refl _⟩

/-- What is spread begins after the dots. -/
theorem ofExpression_spec {start inside close stop : Cursor} (hbraced : Braced start inside close)
    (hstop : close.Reaches stop) :
    (∀ found, ofExpression (inside.textTo close) (start.upTo stop) (inside.upTo close) =
        .ok found → found.Along start stop) ∧
      ∀ error, ofExpression (inside.textTo close) (start.upTo stop) (inside.upTo close) =
        .error error → error.span = start.upTo stop := by
  have hrow : Fragment.Row start [.expression (start.upTo stop) (inside.upTo close)] stop :=
    Fragment.Row.expression hbraced hstop (Fragment.Row.nil stop)
  have hclose := hbraced.inner
  unfold ofExpression
  dsimp only
  split
  · next rest hrest =>
    refine ⟨?_, by rintro _ ⟨⟩⟩
    rintro found ⟨⟩
    have hdots := Text.eq_append_of_after? hrest
    have hblanks : inside.textTo close =
        (inside.textTo close).takeWhile Text.isBlank ++ "...".toList ++ rest := by
      rw [List.append_assoc, ← hdots]
      exact List.takeWhile_append_dropWhile.symm
    have hall := hclose.rest_eq
    rw [hblanks, List.append_assoc] at hall
    have hend : close.offset = inside.offset + Text.bytes (inside.textTo close) := by
      obtain ⟨passed, hpassed, hoffset⟩ := hclose
      rw [Cursor.Reaches.textTo_eq hpassed hoffset, hoffset]
    rw [hblanks, Text.bytes_append] at hend
    refine ⟨rfl, inside.past _ (rest ++ close.rest), close,
      hbraced.opening.trans (Reaches.past hall), ⟨rest, rfl, ?_⟩, hstop, ?_⟩
    · simp only [Cursor.past]
      omega
    · simp only [Cursor.past, Cursor.upTo, Span.mk.injEq, and_true]
      omega
  · split
    · refine ⟨by rintro _ ⟨⟩, ?_⟩
      rintro error ⟨⟩
      rfl
    · refine ⟨?_, by rintro _ ⟨⟩⟩
      rintro found ⟨⟩
      exact ⟨rfl, start, stop, Reaches.refl _, hrow, Reaches.refl _⟩

theorem readBraced_along {start : Cursor} {rest : Text} (hbrace : start.rest = '\x7b' :: rest) :
    FaultsBehind start (readBraced start).errors ∧
      ((readBraced start).value = none → (readBraced start).errors ≠ []) ∧
      ∀ found, (readBraced start).value = some found →
        found.Along start (readBraced start).cursor := by
  have hfaults := Fragment.readExpression_faults start
  have hreach := Fragment.readExpression_reaches start
  unfold readBraced
  dsimp only
  split
  · next hvalue => exact ⟨hfaults, fun _ => Fragment.readExpression_none hvalue, fun _ h => nomatch h⟩
  · next span inner hvalue =>
    obtain ⟨-, rfl, close, hbraced, hclosing, rfl⟩ := Fragment.readExpression_some hbrace hvalue
    obtain ⟨hok, herror⟩ := ofExpression_spec hbraced hclosing
    have hlength : (start.next.upTo close).length = close.offset - start.next.offset := rfl
    rw [hlength]
    split
    · next found hfound =>
      refine ⟨FaultsBehind.nil _, fun h => (nomatch h), ?_⟩
      rintro _ ⟨⟩
      exact hok found hfound
    · next error hfound =>
      refine ⟨?_, fun _ => List.cons_ne_nil _ _, fun _ h => nomatch h⟩
      intro fault hfault
      rw [List.mem_singleton.mp hfault, herror error hfound]
      exact ⟨start, _, Reaches.refl _, hreach, hreach.to_finish, rfl⟩

theorem readListWithin_row (steps : Nat) (cursor : Cursor) :
    FaultsBehind cursor (readListWithin steps cursor).errors ∧
      Row (readListWithin steps cursor).errors cursor (readListWithin steps cursor).value
        (readListWithin steps cursor).cursor := by
  induction steps generalizing cursor with
  | zero => exact ⟨FaultsBehind.nil _, Row.nil (Spaced.refl _ _)⟩
  | succ steps ih =>
    have hgap (errors : List Error) := Spaced.skipWhile errors cursor
    have hstart := Reaches.skipWhile cursor isSeparator
    unfold readListWithin
    dsimp only
    generalize cursor.skipWhile isSeparator = start at hgap hstart ⊢
    split
    · exact ⟨FaultsBehind.nil _, Row.nil (Spaced.refl _ _)⟩
    · exact ⟨FaultsBehind.nil _, Row.nil (Spaced.refl _ _)⟩
    · exact ⟨FaultsBehind.nil _, Row.nil (Spaced.refl _ _)⟩
    · obtain ⟨hfaults, halong⟩ := readNamed_along start
      obtain ⟨hmore, hrow⟩ := ih (readNamed start).cursor
      exact ⟨(hfaults.append (hmore.mono (readNamed_reaches start))).mono hstart,
        Row.cons (hgap _) halong (hrow.mono fun h => (List.append_eq_nil_iff.mp h).2)⟩
    · split
      · next hopens =>
        obtain ⟨rest, hbrace⟩ := readHere_opensBrace hopens
        obtain ⟨hfaults, hnone, halong⟩ := readBraced_along hbrace
        obtain ⟨hmore, hrow⟩ := ih (readBraced start).cursor
        refine ⟨(hfaults.append (hmore.mono (readBraced_reaches start))).mono hstart, ?_⟩
        replace hrow := hrow.mono fun h : (readBraced start).errors ++ _ = [] =>
          (List.append_eq_nil_iff.mp h).2
        cases hfound : (readBraced start).value with
        | none =>
          have hne := List.append_ne_nil_of_left_ne_nil (hnone hfound)
          exact Row.skip (Spaced.of_faults (hne _) (hstart.trans (readBraced_reaches start))) hrow
        | some found => exact Row.cons (hgap _) (halong found hfound) hrow
      · have hhere := hstart.trans (readHere_reaches start)
        obtain ⟨hmore, hrow⟩ := ih (Token.readHere start).2
        refine ⟨(FaultsBehind.upTo hstart (readHere_reaches start) _).append (hmore.mono hhere), ?_⟩
        exact Row.skip (Spaced.of_faults (List.cons_ne_nil _ _) hhere)
          (hrow.mono fun h => absurd h (List.cons_ne_nil _ _))

theorem readList_row (cursor : Cursor) :
    FaultsBehind cursor (readList cursor).errors ∧
      Row (readList cursor).errors cursor (readList cursor).value (readList cursor).cursor :=
  readListWithin_row _ cursor

end Attribute

end Markup

end TypedComponent
