import TypedComponent.Proofs.Markup.Twins

/-!
Attributes of the same tag in two texts. Every reader of a tag's parts is taken
through in the same way: what it finds without a fault in front of the sign at
the end of the tag it finds in both texts, and where the texts are the same to
their ends it meets the same faults as well.
-/

namespace TypedComponent.Markup

open Cursor (Reaches Twin)

/-- Two readings that found the same, at the offsets that it has in each text. -/
structure Reading.Twin {α : Type} (place : Nat → Nat) (rest rest' : Text) (renumber : α → α)
    (a b : Reading α) : Prop where
  value : b.value = renumber a.value
  errors : b.errors = a.errors.map (·.renumbered place)
  cursor : a.cursor.Twin place rest rest' b.cursor

/-- A reading inside of a tag that what stands behind the tag does not matter to. -/
def Reading.Settled {α : Type} (rest rest' : Text) (reading : Reading α) : Prop :=
  (rest = [] ∧ rest' = []) ∨ (reading.errors = [] ∧ '>' :: rest <:+ reading.cursor.rest)

namespace Reading.Settled

variable {α β : Type} {rest rest' : Text} {reading : Reading α} {other : Reading β}

theorem inTag (h : reading.Settled rest rest') : InTag rest rest' reading.cursor :=
  h.imp id And.right

/-- Faults are the same in two texts only if these are the same. -/
theorem same (h : reading.Settled rest rest') (hfaults : reading.errors ≠ []) :
    rest = [] ∧ rest' = [] :=
  h.resolve_right fun hclean => hfaults hclean.1

/-- What is read first is settled with what is read in the end. -/
theorem first (h : reading.Settled rest rest')
    (herrors : reading.errors = [] → other.errors = [])
    (hreach : other.cursor.Reaches reading.cursor) : other.Settled rest rest' := by
  rcases h with hsame | ⟨hclean, hends⟩
  · exact .inl hsame
  · obtain ⟨passed, hpassed, -⟩ := hreach
    exact .inr ⟨herrors hclean, hends.trans ⟨passed, hpassed.symm⟩⟩

end Reading.Settled

namespace Fragment

variable {place : Nat → Nat} {rest rest' : Text} {a b stop stop' : Cursor}

theorem textBetween_twin (h : a.Twin place rest rest' b) (hstop : stop.Twin place rest rest' stop')
    (hreach : a.Reaches stop) :
    textBetween b stop' = (textBetween a stop).map (·.renumbered place) := by
  obtain ⟨hreach', htext, hlength⟩ := h.between hstop hreach
  have hle := hreach.offset_le
  have hle' := hreach'.offset_le
  unfold textBetween
  by_cases hempty : a.offset = stop.offset
  · rw [if_pos hempty, if_pos (by omega)]
    rfl
  · rw [if_neg hempty, if_neg (by omega), htext, h.upTo_eq hstop]
    rfl

theorem readExpression_twin (h : a.Twin place rest rest' b)
    (hsettled : (readExpression a).Settled rest rest') :
    (readExpression a).Twin place rest rest'
      (Option.map fun (span, inner) => (span.renumbered place, inner.renumbered place))
      (readExpression b) := by
  unfold readExpression at hsettled ⊢
  cases hclose : closingBrace? a with
  | none =>
    rw [hclose] at hsettled
    obtain ⟨rfl, rfl⟩ := hsettled.same (List.cons_ne_nil _ _)
    rw [closingBrace?_none h.rest_eq hclose]
    exact ⟨rfl, by simp [Error.renumbered, h.upTo_eq h.finish], h.finish⟩
  | some close =>
    rw [hclose] at hsettled
    obtain ⟨close', hclose', htwin, hnext⟩ := closingBrace?_twin h hclose hsettled.inTag.suffix
    have hafter : a.next.Twin place rest rest' b.next := by
      obtain ⟨passed, behind, ha, rfl, -⟩ := closingBrace?_findsBrace hclose
      have hbehind : rest <:+ behind := hsettled.inTag.suffix
      cases passed with
      | nil => exact h.next ha hbehind
      | cons c passed =>
        exact h.next ha (hbehind.trans ((List.suffix_cons _ _).trans (List.suffix_append _ _)))
    rw [hclose']
    exact ⟨by simp [h.upTo_eq hnext, hafter.upTo_eq htwin], rfl, hnext⟩

/-- An expression has its braces at least. -/
theorem readExpression_passes {cursor : Cursor} {found : Span × Span}
    (h : (readExpression cursor).value = some found) :
    (readExpression cursor).cursor.rest.length < cursor.rest.length := by
  unfold readExpression at h ⊢
  cases hclose : closingBrace? cursor with
  | none =>
    rw [hclose] at h
    cases h
  | some close =>
    obtain ⟨behind, hbehind⟩ := closingBraceIn_rest hclose
    have hle := (closingBrace?_reaches hclose).length_le
    rw [hbehind, List.length_cons] at hle
    simp only [Cursor.next, hbehind]
    omega

/-- The text in front of the first quote or brace is passed in any case. -/
theorem readQuotedWithin_mark (quote : Char) (steps : Nat) (cursor : Cursor) :
    (cursor.skipWhile fun c => c != quote && c != '\x7b').Reaches
      (readQuotedWithin quote (steps + 1) cursor).cursor := by
  unfold readQuotedWithin
  dsimp only
  split
  · exact Reaches.refl _
  · split
    · exact Reaches.next _
    · split
      · exact readExpression_reaches _
      · exact (readExpression_reaches _).trans (readQuotedWithin_reaches _ _ _)

theorem readQuotedWithin_twin (quote : Char) {steps steps' : Nat} {a b : Cursor}
    (hsteps : a.rest.length < steps) (hsteps' : b.rest.length < steps')
    (h : a.Twin place rest rest' b)
    (hsettled : (readQuotedWithin quote steps a).Settled rest rest') :
    (readQuotedWithin quote steps a).Twin place rest rest' (List.map (·.renumbered place))
      (readQuotedWithin quote steps' b) := by
  induction steps generalizing steps' a b with
  | zero => omega
  | succ steps ih =>
    obtain ⟨steps', rfl⟩ := Nat.exists_eq_succ_of_ne_zero (Nat.ne_of_gt (Nat.zero_lt_of_lt hsteps'))
    have hrun := Reaches.skipWhile a fun c => c != quote && c != '\x7b'
    have hmark := hsettled.inTag.of_reaches (readQuotedWithin_mark quote steps a)
    have htwin := skipWhile_twin h hmark
    have htext := textBetween_twin h htwin hrun
    have hhead := head_twin htwin hmark
    have hlength := hrun.length_le
    have hlength' := (Reaches.skipWhile b fun c => c != quote && c != '\x7b').length_le
    unfold readQuotedWithin at hsettled ⊢
    dsimp only at hsettled ⊢
    generalize (a.skipWhile fun c => c != quote && c != '\x7b') = mark at *
    generalize (b.skipWhile fun c => c != quote && c != '\x7b') = mark' at *
    cases hrest : mark.rest with
    | nil =>
      have hrest' : mark'.rest = [] := by simpa [hrest] using hhead
      rw [hrest']
      exact ⟨htext, by simp [Error.renumbered, ← htwin.offset_eq, Span.renumbered, Span.empty],
        htwin⟩
    | cons c behind =>
      obtain ⟨behind', hrest'⟩ : ∃ behind', mark'.rest = c :: behind' := by
        rw [hrest] at hhead
        exact ⟨_, List.eq_cons_of_mem_head? hhead⟩
      rw [hrest] at hsettled
      rw [hrest']
      dsimp only at hsettled ⊢
      by_cases hquote : c = quote
      · rw [if_pos hquote] at hsettled ⊢
        rw [if_pos hquote]
        have hbehind : rest <:+ behind := by
          have hsuffix := hsettled.inTag.suffix
          simpa [Cursor.next, hrest] using hsuffix
        exact ⟨htext, rfl, htwin.next hrest hbehind⟩
      · rw [if_neg hquote] at hsettled ⊢
        rw [if_neg hquote]
        cases hvalue : (readExpression mark).value with
        | none =>
          rw [hvalue] at hsettled
          have hexpression := readExpression_twin htwin (hsettled.first id (Reaches.refl _))
          rw [show (readExpression mark').value = none by rw [hexpression.value, hvalue]; rfl]
          exact ⟨htext, hexpression.errors, hexpression.cursor⟩
        | some found =>
          obtain ⟨span, inner⟩ := found
          rw [hvalue] at hsettled
          have hexpression := readExpression_twin htwin (hsettled.first
            (fun h => (List.append_eq_nil_iff.mp h).1) (readQuotedWithin_reaches _ _ _))
          have hvalue' : (readExpression mark').value =
              some (span.renumbered place, inner.renumbered place) := by
            rw [hexpression.value, hvalue]
            rfl
          have hpasses := readExpression_passes hvalue
          have hpasses' := readExpression_passes hvalue'
          have hfuel : (readExpression mark').cursor.rest.length < steps' := by omega
          have hmore := ih (by omega) hfuel hexpression.cursor
            (hsettled.first (fun h => (List.append_eq_nil_iff.mp h).2) (Reaches.refl _))
          rw [hvalue']
          refine ⟨?_, ?_, hmore.cursor⟩
          · simp only [htext, hmore.value, List.map_append, List.map_cons, Fragment.renumbered]
          · simp only [hexpression.errors, hmore.errors, List.map_append]

theorem readQuoted_twin (quote : Char) (h : a.Twin place rest rest' b)
    (hsettled : (readQuoted quote a).Settled rest rest') :
    (readQuoted quote a).Twin place rest rest' (List.map (·.renumbered place))
      (readQuoted quote b) := by
  have hsame : (readQuotedWithin quote (a.rest.length + 1) a).Settled rest rest' := by
    unfold readQuoted at hsettled
    dsimp only at hsettled
    split at hsettled <;> exact hsettled.first id (Reaches.refl _)
  obtain ⟨hvalue, herrors, hcursor⟩ := readQuotedWithin_twin quote (Nat.lt_succ_self _)
    (Nat.lt_succ_self b.rest.length) h hsame
  unfold readQuoted
  dsimp only
  rw [hvalue, List.isEmpty_map]
  split
  · refine ⟨?_, herrors, hcursor⟩
    simp [Fragment.renumbered, Span.empty, Span.renumbered, ← h.offset_eq]
  · exact ⟨hvalue, herrors, hcursor⟩

theorem readUnquotedWithin_twin {steps steps' : Nat} {textStart textStart' a b : Cursor}
    (hsteps : a.rest.length < steps) (hsteps' : b.rest.length < steps')
    (hstart : textStart.Twin place rest rest' textStart') (hreach : textStart.Reaches a)
    (h : a.Twin place rest rest' b)
    (hsettled : (readUnquotedWithin steps textStart a).Settled rest rest') :
    (readUnquotedWithin steps textStart a).Twin place rest rest' (List.map (·.renumbered place))
      (readUnquotedWithin steps' textStart' b) := by
  induction steps generalizing steps' textStart textStart' a b with
  | zero => omega
  | succ steps ih =>
    obtain ⟨steps', rfl⟩ := Nat.exists_eq_succ_of_ne_zero (Nat.ne_of_gt (Nat.zero_lt_of_lt hsteps'))
    have hin := hsettled.inTag.of_reaches (readUnquotedWithin_reaches _ _ _)
    have htext := textBetween_twin hstart h hreach
    obtain ⟨htoken, hafter⟩ := read_twin h hin
    have hkind : (Token.read b).1.kind = (Token.read a).1.kind := by rw [htoken]; rfl
    have hgapless : ((Token.read b).1.span.start != b.offset) =
        ((Token.read a).1.span.start != a.offset) := by
      have hgap := Reaches.skipWhile a isSeparator
      obtain ⟨hgap', -, hlength⟩ := h.between (skipWhile_twin h (hin.takeWhile (by decide))) hgap
      have hle := hgap.offset_le
      have hle' := hgap'.offset_le
      rw [Bool.eq_iff_iff, bne_iff_ne, bne_iff_ne]
      simp only [Token.read, Token.readHere, Cursor.upTo]
      omega
    unfold readUnquotedWithin at hsettled ⊢
    dsimp only at hsettled ⊢
    rw [hgapless, hkind]
    split at hsettled
    · next hend =>
      rw [if_pos hend, if_pos hend]
      exact ⟨htext, rfl, h⟩
    · next hmore =>
      rw [if_neg hmore, if_neg hmore]
      split at hsettled
      · next hopens =>
        rw [if_pos hopens, if_pos hopens]
        cases hvalue : (readExpression a).value with
        | none =>
          rw [hvalue] at hsettled
          have hexpression := readExpression_twin h (hsettled.first id (Reaches.refl _))
          rw [show (readExpression b).value = none by rw [hexpression.value, hvalue]; rfl]
          exact ⟨htext, hexpression.errors, hexpression.cursor⟩
        | some found =>
          obtain ⟨span, inner⟩ := found
          rw [hvalue] at hsettled
          have hexpression := readExpression_twin h (hsettled.first
            (fun h => (List.append_eq_nil_iff.mp h).1) (readUnquotedWithin_reaches _ _ _))
          have hvalue' : (readExpression b).value =
              some (span.renumbered place, inner.renumbered place) := by
            rw [hexpression.value, hvalue]
            rfl
          have hpasses := readExpression_passes hvalue
          have hpasses' := readExpression_passes hvalue'
          have hfuel : (readExpression b).cursor.rest.length < steps' := by omega
          have hrest := ih (by omega) hfuel hexpression.cursor
            (Reaches.refl _) hexpression.cursor
            (hsettled.first (fun h => (List.append_eq_nil_iff.mp h).2) (Reaches.refl _))
          rw [hvalue']
          refine ⟨?_, ?_, hrest.cursor⟩
          · simp only [htext, hrest.value, List.map_append, List.map_cons, Fragment.renumbered]
          · simp only [hexpression.errors, hrest.errors, List.map_append]
      · next hopens =>
        rw [if_neg hopens, if_neg hopens]
        have hfinish : (Token.read a).1.kind ≠ .finish := by
          intro heq
          simp [heq] at hmore
        have hpasses := read_passes hfinish
        have hpasses' := read_passes (hkind ▸ hfinish)
        exact ih (by omega) (by omega) hstart (hreach.trans (read_reaches a)) hafter hsettled

theorem readValue_twin (h : a.Twin place rest rest' b)
    (hsettled : (readValue a).Settled rest rest') :
    (readValue a).Twin place rest rest' (List.map (·.renumbered place)) (readValue b) := by
  have hin := hsettled.inTag.of_reaches (readValue_reaches a)
  have hgap : InTag rest rest' (a.skipWhile isSeparator) := hin.takeWhile (by decide)
  have hstart := skipWhile_twin h hgap
  obtain ⟨htoken, hafter⟩ := readHere_twin hstart hgap
  have hkind : (Token.readHere (b.skipWhile isSeparator)).1.kind =
      (Token.readHere (a.skipWhile isSeparator)).1.kind := by rw [htoken]; rfl
  unfold readValue at hsettled ⊢
  dsimp only at hsettled ⊢
  rw [hkind]
  split at hsettled
  · exact readQuoted_twin _ hafter hsettled
  · exact readQuoted_twin _ hafter hsettled
  · exact ⟨rfl, by simp [Error.renumbered, htoken, Token.renumbered], h⟩
  · exact ⟨rfl, by simp [Error.renumbered, htoken, Token.renumbered], h⟩
  · exact ⟨rfl, by simp [Error.renumbered, htoken, Token.renumbered], h⟩
  · split at hsettled
    · next hopens =>
      rw [if_pos hopens, if_pos hopens]
      obtain ⟨hvalue, herrors, hcursor⟩ :=
        readExpression_twin hstart (hsettled.first id (Reaches.refl _))
      refine ⟨?_, herrors, hcursor⟩
      dsimp only
      rw [hvalue]
      cases (readExpression (a.skipWhile isSeparator)).value <;> rfl
    · next hopens =>
      rw [if_neg hopens, if_neg hopens]
      exact readUnquotedWithin_twin (Nat.lt_succ_self _) (Nat.lt_succ_self _) hstart
        (Reaches.refl _) hstart hsettled

end Fragment

namespace Attribute

variable {place : Nat → Nat} {rest rest' : Text} {a b : Cursor}

theorem readNamed_twin (h : a.Twin place rest rest' b)
    (hsettled : (readNamed a).Settled rest rest') :
    (readNamed a).Twin place rest rest' (·.renumbered place) (readNamed b) := by
  have hin := hsettled.inTag.of_reaches (readNamed_reaches a)
  have hname : InTag rest rest' (a.takeWhile isNameChar).2 := hin.takeWhile (by decide)
  obtain ⟨hrun, hafterName⟩ := takeWhile_twin h hname
  obtain ⟨htoken, hafter⟩ := read_twin hafterName hname
  have hkind : (Token.read (b.takeWhile isNameChar).2).1.kind =
      (Token.read (a.takeWhile isNameChar).2).1.kind := by rw [htoken]; rfl
  unfold readNamed at hsettled ⊢
  dsimp only at hsettled ⊢
  rw [hkind, hrun]
  split at hsettled
  · next hequals =>
    rw [if_pos hequals, if_pos hequals]
    obtain ⟨hvalue, herrors, hcursor⟩ :=
      Fragment.readValue_twin hafter (hsettled.first id (Reaches.refl _))
    exact ⟨by simp only [hvalue, h.upTo_eq hcursor, Attribute.renumbered], herrors, hcursor⟩
  · next hequals =>
    rw [if_neg hequals, if_neg hequals]
    exact ⟨by simp [h.upTo_eq hafterName, Attribute.renumbered], rfl, hafterName⟩

/-- What is spread begins behind the dots, as far in front of the closing brace
in one text as in the other. -/
theorem spread_twin {inside close inside' close' : Cursor} {dots behind : Text}
    (h : inside.Twin place rest rest' inside') (hclose : close.Twin place rest rest' close')
    (hreach : inside.Reaches close) (htext : inside.textTo close = dots ++ behind) :
    place (close.offset - Text.bytes behind) = close'.offset - Text.bytes behind := by
  have hall := hreach.rest_eq
  rw [htext, List.append_assoc] at hall
  have hend : close.offset = inside.offset + Text.bytes dots + Text.bytes behind := by
    obtain ⟨passed, hpassed, hoffset⟩ := hreach
    rw [hoffset, ← Cursor.Reaches.textTo_eq hpassed hoffset, htext, Text.bytes_append,
      Nat.add_assoc]
  obtain ⟨hreach', -, hlength⟩ := h.between hclose hreach
  have hsuffix : rest <:+ behind ++ close.rest := hclose.suffix.trans (List.suffix_append _ _)
  obtain ⟨middle, hmiddle, hway, -, hpassed⟩ := h.reaches (Reaches.past hall) hsuffix
  have hle := hreach'.offset_le
  have hle' := hway.offset_le
  have hplace := hmiddle.offset_eq
  dsimp only [Cursor.past] at hplace hpassed
  have hstart : close.offset - Text.bytes behind = inside.offset + Text.bytes dots := by omega
  rw [hstart, hplace]
  omega

/-- What an expression means is seen from its text. -/
theorem ofExpression_twin {inside close inside' close' : Cursor} (span : Span)
    (h : inside.Twin place rest rest' inside') (hclose : close.Twin place rest rest' close')
    (hreach : inside.Reaches close) :
    ofExpression (inside'.textTo close') (span.renumbered place) (inside'.upTo close') =
      ((ofExpression (inside.textTo close) span (inside.upTo close)).map
        (·.renumbered place)).mapError (·.renumbered place) := by
  obtain ⟨-, htext, -⟩ := h.between hclose hreach
  unfold ofExpression
  rw [htext]
  dsimp only
  split
  · next behind hdots =>
    have hsplit := Text.eq_append_of_after? hdots
    have hblanks : inside.textTo close =
        (inside.textTo close).takeWhile Text.isBlank ++ "...".toList ++ behind := by
      rw [List.append_assoc, ← hsplit]
      exact List.takeWhile_append_dropWhile.symm
    have hplace := spread_twin h hclose hreach hblanks
    simp [Except.map, Except.mapError, Attribute.renumbered, Span.renumbered, Cursor.upTo, hplace,
      hclose.offset_eq]
  · split
    · rfl
    · rw [h.upTo_eq hclose]
      rfl

theorem readBraced_twin (h : a.Twin place rest rest' b) {behind : Text}
    (hbrace : a.rest = '\x7b' :: behind) (hsettled : (readBraced a).Settled rest rest') :
    (readBraced a).Twin place rest rest' (Option.map (·.renumbered place)) (readBraced b) := by
  have hexpression : (Fragment.readExpression a).Settled rest rest' := by
    refine hsettled.first ?_ ?_
    · unfold readBraced
      dsimp only
      split
      · exact id
      · next hvalue =>
        exact fun _ => (Fragment.readExpression_some hbrace hvalue).1
    · unfold readBraced
      dsimp only
      split
      · exact Reaches.refl _
      · split <;> exact Reaches.refl _
  have htwin := Fragment.readExpression_twin h hexpression
  unfold readBraced
  dsimp only
  rw [htwin.value]
  cases hvalue : (Fragment.readExpression a).value with
  | none => exact ⟨rfl, htwin.errors, htwin.cursor⟩
  | some found =>
    obtain ⟨span, inner⟩ := found
    obtain ⟨-, rfl, close, hbraced, hclosing, rfl⟩ := Fragment.readExpression_some hbrace hvalue
    have hinner := hbraced.inner
    have hends : rest <:+ close.rest := by
      obtain ⟨passed, hpassed, -⟩ := hclosing
      exact htwin.cursor.suffix.trans ⟨passed, hpassed.symm⟩
    have hnext : a.next.Twin place rest rest' b.next := by
      obtain ⟨passed, hpassed, -⟩ := hinner
      refine h.next hbrace (hends.trans ⟨passed, ?_⟩)
      rw [← hpassed]
      simp [Cursor.next, hbrace]
    obtain ⟨close', hclose', hinner', -⟩ := hnext.reaches hinner hends
    have hfound :=
      ofExpression_twin (a.upTo (Fragment.readExpression a).cursor) hnext hclose' hinner
    have hlength {start stop : Cursor} :
        Text.takeBytes start.rest (start.upTo stop).length = start.textTo stop := rfl
    simp only [Option.map_some, ← hnext.upTo_eq hclose', hlength]
    rw [hfound]
    cases ofExpression (a.next.textTo close) (a.upTo (Fragment.readExpression a).cursor)
      (a.next.upTo close) with
    | ok found => exact ⟨rfl, rfl, htwin.cursor⟩
    | error error => exact ⟨rfl, rfl, htwin.cursor⟩

theorem readBraced_passes {start : Cursor} {behind : Text}
    (hbrace : start.rest = '\x7b' :: behind) :
    (readBraced start).cursor.rest.length < start.rest.length := by
  have hcursor : (readBraced start).cursor = (Fragment.readExpression start).cursor := by
    unfold readBraced
    dsimp only
    split
    · rfl
    · split <;> rfl
  rw [hcursor]
  cases hvalue : (Fragment.readExpression start).value with
  | none =>
    unfold Fragment.readExpression at hvalue ⊢
    split at hvalue
    · cases hvalue
    · simp [Cursor.finish, hbrace]
  | some found => exact Fragment.readExpression_passes hvalue

theorem readNamed_passes {start : Cursor} {c : Char} {behind : Text}
    (hname : start.rest = c :: behind) (hc : isNameChar c = true) :
    (readNamed start).cursor.rest.length < start.rest.length := by
  have hrun : (start.takeWhile isNameChar).2.rest.length < start.rest.length := by
    have hdrop := (List.dropWhile_sublist isNameChar (l := behind)).length_le
    simp only [Cursor.takeWhile, Cursor.past, hname, List.dropWhile_cons_of_pos hc,
      List.length_cons]
    omega
  unfold readNamed
  dsimp only
  split
  · have hread := (read_reaches (start.takeWhile isNameChar).2).length_le
    have hvalue := (Fragment.readValue_reaches
      (Token.read (start.takeWhile isNameChar).2).2).length_le
    dsimp only
    omega
  · exact hrun

theorem readHere_name_head {cursor : Cursor}
    (h : (Token.readHere (cursor.skipWhile isSeparator)).1.kind = .name) :
    ∃ c behind, (cursor.skipWhile isSeparator).rest = c :: behind ∧ isNameChar c = true := by
  rw [readHere_kind] at h
  cases hrest : (cursor.skipWhile isSeparator).rest with
  | nil =>
    rw [hrest] at h
    cases h
  | cons c behind =>
    rw [hrest] at h
    exact ⟨c, behind, rfl, TokenKind.leading_name h (Cursor.skipWhile_head hrest)⟩

theorem readListWithin_twin {steps steps' : Nat} {a b : Cursor} (hsteps : a.rest.length < steps)
    (hsteps' : b.rest.length < steps') (h : a.Twin place rest rest' b)
    (hsettled : (readListWithin steps a).Settled rest rest') :
    (readListWithin steps a).Twin place rest rest' (List.map (·.renumbered place))
      (readListWithin steps' b) := by
  induction steps generalizing steps' a b with
  | zero => omega
  | succ steps ih =>
    obtain ⟨steps', rfl⟩ := Nat.exists_eq_succ_of_ne_zero (Nat.ne_of_gt (Nat.zero_lt_of_lt hsteps'))
    have hin := hsettled.inTag.of_reaches (readListWithin_row (steps + 1) a).2.reaches
    have hgap : InTag rest rest' (a.skipWhile isSeparator) := hin.takeWhile (by decide)
    have hstart := skipWhile_twin h hgap
    have hlength := (Reaches.skipWhile a isSeparator).length_le
    have hlength' := (Reaches.skipWhile b isSeparator).length_le
    obtain ⟨htoken, hafter⟩ := readHere_twin hstart hgap
    have hkind : (Token.readHere (b.skipWhile isSeparator)).1.kind =
        (Token.readHere (a.skipWhile isSeparator)).1.kind := by rw [htoken]; rfl
    unfold readListWithin at hsettled ⊢
    dsimp only at hsettled ⊢
    rw [hkind]
    split at hsettled
    · exact ⟨rfl, rfl, h⟩
    · exact ⟨rfl, rfl, h⟩
    · exact ⟨rfl, rfl, h⟩
    · next hname =>
      obtain ⟨c, behind, hrest, hc⟩ := readHere_name_head hname
      obtain ⟨c', behind', hrest', hc'⟩ := readHere_name_head (hkind.trans hname)
      have hpasses := readNamed_passes hrest hc
      have hpasses' := readNamed_passes hrest' hc'
      have hreach :=
        (readListWithin_row steps (readNamed (a.skipWhile isSeparator)).cursor).2.reaches
      obtain ⟨hvalue, herrors, hcursor⟩ := readNamed_twin hstart
        (hsettled.first (fun h => (List.append_eq_nil_iff.mp h).1) hreach)
      have hfuel : (readNamed (b.skipWhile isSeparator)).cursor.rest.length < steps' := by omega
      obtain ⟨hmore, hmoreErrors, hlast⟩ := ih (by omega) hfuel hcursor
        (hsettled.first (fun h => (List.append_eq_nil_iff.mp h).2) (Reaches.refl _))
      refine ⟨?_, ?_, hlast⟩
      · simp only [hvalue, hmore, List.map_cons]
      · simp only [herrors, hmoreErrors, List.map_append]
    · next hclose hempty hfinish hname =>
      split at hsettled
      · next hopens =>
        rw [if_pos hopens, if_pos hopens]
        obtain ⟨behind, hrest⟩ := readHere_opensBrace hopens
        obtain ⟨behind', hrest'⟩ := readHere_opensBrace (hkind.symm ▸ hopens)
        have hpasses := readBraced_passes hrest
        have hpasses' := readBraced_passes hrest'
        have hreach :=
          (readListWithin_row steps (readBraced (a.skipWhile isSeparator)).cursor).2.reaches
        obtain ⟨hvalue, herrors, hcursor⟩ := readBraced_twin hstart hrest
          (hsettled.first (fun h => (List.append_eq_nil_iff.mp h).1) hreach)
        have hfuel : (readBraced (b.skipWhile isSeparator)).cursor.rest.length < steps' := by omega
        obtain ⟨hmore, hmoreErrors, hlast⟩ := ih (by omega) hfuel hcursor
          (hsettled.first (fun h => (List.append_eq_nil_iff.mp h).2) (Reaches.refl _))
        refine ⟨?_, ?_, hlast⟩
        · simp only [hvalue, hmore, List.map_append]
          cases (readBraced (a.skipWhile isSeparator)).value <;> rfl
        · simp only [herrors, hmoreErrors, List.map_append]
      · next hopens =>
        rw [if_neg hopens, if_neg hopens]
        have hpasses : (Token.readHere (a.skipWhile isSeparator)).2.rest.length < a.rest.length :=
          read_passes hfinish
        have hpasses' : (Token.readHere (b.skipWhile isSeparator)).2.rest.length < b.rest.length :=
          read_passes fun heq => hfinish (hkind.symm.trans heq)
        have hfuel : (Token.readHere (b.skipWhile isSeparator)).2.rest.length < steps' := by omega
        obtain ⟨hmore, hmoreErrors, hlast⟩ := ih (by omega) hfuel hafter
          (hsettled.first (fun h => nomatch h) (Reaches.refl _))
        refine ⟨hmore, ?_, hlast⟩
        simp only [htoken, hmoreErrors, List.map_cons, Error.renumbered, Token.renumbered]

theorem readList_twin (h : a.Twin place rest rest' b)
    (hsettled : (readList a).Settled rest rest') :
    (readList a).Twin place rest rest' (List.map (·.renumbered place)) (readList b) :=
  readListWithin_twin (Nat.lt_succ_self _) (Nat.lt_succ_self _) h hsettled

end Attribute

end TypedComponent.Markup
