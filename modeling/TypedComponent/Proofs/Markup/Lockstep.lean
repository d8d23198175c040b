import TypedComponent.Proofs.Markup.Places
import TypedComponent.Proofs.Markup.TwinOutlines

/-!
Two sources that are alike for a while are read in step. One step in the first
source that reads up to where the sources differ, or goes not so far, is the same
step in the second, if it found no fault and, when it read text, what follows ends
the text in both; where the sources are alike to their ends, nothing more is asked
for. A run is a run in both sources then.
-/

namespace TypedComponent.Markup

open Cursor (Reaches Twin)
open Relation (ReflTransGen)

section OpeningTag

variable {place : Nat → Nat} {rest rest' : Text} {a b : Cursor}

/-- The attributes of an opening tag whose name is at the cursor. -/
def tagAttributes (afterSign : Cursor) : Reading (List Attribute) :=
  Attribute.readList (afterSign.takeWhile isNameChar).2

/-- The token that should end such a tag. -/
def tagEnd (afterSign : Cursor) : Token × Cursor := Token.read (tagAttributes afterSign).cursor

theorem tagAttributes_reaches (afterSign : Cursor) :
    (afterSign.takeWhile isNameChar).2.Reaches (tagAttributes afterSign).cursor :=
  (Attribute.readList_row _).2.reaches

theorem tagEnd_reaches (afterSign : Cursor) :
    (afterSign.takeWhile isNameChar).2.Reaches (tagEnd afterSign).2 :=
  (tagAttributes_reaches afterSign).trans (read_reaches _)

/-- The last character of either sign that ends a tag is the same. -/
theorem leading_sign_suffix {text : Text}
    (h : (TokenKind.leading text).1 = .closeAngle ∨ (TokenKind.leading text).1 = .slashAngle) :
    '>' :: text.drop (TokenKind.leading text).2 <:+ text := by
  unfold TokenKind.leading at h ⊢
  split at h
  case h_6 => exact List.suffix_refl _
  case h_7 => exact List.suffix_cons _ _
  all_goals exact absurd h (by decide)

theorem read_sign_suffix {cursor : Cursor}
    (h : (Token.read cursor).1.kind = .closeAngle ∨ (Token.read cursor).1.kind = .slashAngle) :
    '>' :: (Token.read cursor).2.rest <:+ cursor.rest := by
  refine List.IsSuffix.trans ?_ (Reaches.skipWhile cursor isSeparator).suffix
  unfold Token.read at h ⊢
  rw [readHere_kind] at h
  have hname : (TokenKind.leading (cursor.skipWhile isSeparator).rest).1 ≠ .name := by
    rcases h with h | h <;> rw [h] <;> decide
  unfold Token.readHere
  dsimp only
  rw [if_neg hname]
  exact leading_sign_suffix h

/-- What the parts of an opening tag are in two texts. -/
structure TagTwin (place : Nat → Nat) (rest rest' : Text) (a b : Cursor) : Prop where
  name : (b.takeWhile isNameChar).1 = (a.takeWhile isNameChar).1
  value : (tagAttributes b).value = (tagAttributes a).value.map (·.renumbered place)
  errors : (tagAttributes b).errors = (tagAttributes a).errors.map (·.renumbered place)
  kind : (tagEnd b).1.kind = (tagEnd a).1.kind
  stop : (tagEnd a).2.Twin place rest rest' (tagEnd b).2

theorem TagTwin.of_settled (h : a.Twin place rest rest' b)
    (hsettled : (tagAttributes a).Settled rest rest') : TagTwin place rest rest' a b := by
  obtain ⟨hname, hafter⟩ := takeWhile_twin h (hsettled.inTag.of_reaches (tagAttributes_reaches a))
  obtain ⟨hvalue, herrors, hcursor⟩ := Attribute.readList_twin hafter hsettled
  obtain ⟨htoken, hstop⟩ := read_twin hcursor hsettled.inTag
  have hkind : (tagEnd b).1.kind = (tagEnd a).1.kind := by
    rw [tagEnd, tagAttributes, htoken]
    rfl
  exact ⟨hname, hvalue, herrors, hkind, hstop⟩

/-- A tag without a fault ends before the texts differ. -/
def TagEnds (rest rest' : Text) (afterSign : Cursor) : Prop :=
  (rest = [] ∧ rest' = []) ∨ ((tagAttributes afterSign).errors = [] ∧
    ((tagEnd afterSign).1.kind = .closeAngle ∨ (tagEnd afterSign).1.kind = .slashAngle) ∧
    rest <:+ (tagEnd afterSign).2.rest)

theorem TagTwin.of_ends (h : a.Twin place rest rest' b) (hends : TagEnds rest rest' a) :
    TagTwin place rest rest' a b := by
  rcases hends with hsame | ⟨hclean, hsign, hbehind⟩
  · exact .of_settled h (.inl hsame)
  · have hreach := (Reaches.takeWhile a isNameChar).trans (tagEnd_reaches a)
    obtain ⟨stop', hstop', -⟩ := h.reaches hreach hbehind
    have hown := TagTwin.of_settled (h.within hstop' hreach)
      (.inr ⟨hclean, read_sign_suffix hsign⟩)
    have hsame := (hstop'.within hstop' (Reaches.refl _)).unique hown.stop
    rw [hsame] at hstop'
    exact { hown with stop := hstop' }

end OpeningTag

namespace Outline

variable {place : Nat → Nat} {rest rest' : Text} {first second o o' : Outline}
  {afterSign afterSign' stop stop' : Cursor}

theorem endTag_twin {attributes attributes' : Reading (List Attribute)} {name : Text}
    {selfClosing : Bool} (ending : List Error) (h : o.Twin place rest rest' first second o')
    (hvalue : attributes'.value = attributes.value.map (·.renumbered place))
    (herrors : attributes'.errors = attributes.errors.map (·.renumbered place))
    (hstop : stop.Twin place rest rest' stop')
    (hends : EndsAt rest rest' (o.endTag name attributes ending stop selfClosing).errors
      (o.endTag name attributes ending stop selfClosing).cursor) :
    (o.endTag name attributes ending stop selfClosing).Twin place rest rest' first second
      (o'.endTag name attributes' (ending.map (·.renumbered place)) stop' selfClosing) := by
  have hread := h.advance (attributes.errors ++ ending) hstop
  unfold endTag at hends ⊢
  dsimp only at hends ⊢
  rw [hvalue, herrors, ← List.map_append]
  split at hends
  · next hraw =>
    rw [if_pos hraw, if_pos hraw]
    exact readRaw_twin hread h.cursor hends
  · next hraw =>
    rw [if_neg hraw, if_neg hraw]
    split
    · rw [h.cursor.upTo_eq hstop]
      have hadd := hread.add
        (.element (o.cursor.upTo stop) name attributes.value selfClosing [])
      rwa [Node.renumbered_element] at hadd
    · refine { hread with opened := ?_ }
      rw [hread.opened, List.map_cons, ← h.cursor.offset_eq]
      rfl

theorem endTag_spec (outline : Outline) (name : Text) (attributes : Reading (List Attribute))
    (ending : List Error) (stop : Cursor) (selfClosing : Bool) :
    stop.Reaches (outline.endTag name attributes ending stop selfClosing).cursor ∧
      ((outline.endTag name attributes ending stop selfClosing).errors = [] →
        attributes.errors = [] ∧ ending = []) := by
  unfold endTag
  dsimp only
  split
  · obtain ⟨hstop, hclosed⟩ := readRawEnd_reaches outline.cursor stop name
    simp only [readRaw, addRaw_cursor, addRaw_errors, advance, List.append_eq_nil_iff,
      List.reverse_eq_nil_iff]
    exact ⟨hstop.trans hclosed, fun h => h.2.1⟩
  · split
    · simp only [add_cursor, add_errors, advance, List.append_eq_nil_iff, List.reverse_eq_nil_iff]
      exact ⟨Reaches.refl _, And.left⟩
    · simp only [advance, List.append_eq_nil_iff, List.reverse_eq_nil_iff]
      exact ⟨Reaches.refl _, And.left⟩

theorem readElement_tag (outline : Outline) (afterSign : Cursor) :
    outline.readElement afterSign =
      let name := (afterSign.takeWhile isNameChar).1
      let finish := outline.cursor.finish
      match (tagEnd afterSign).1.kind with
      | .slashAngle => outline.endTag name (tagAttributes afterSign) [] (tagEnd afterSign).2 true
      | .closeAngle => outline.endTag name (tagAttributes afterSign) [] (tagEnd afterSign).2 false
      | _ => outline.endTag name (tagAttributes afterSign)
          [⟨.unexpectedEnd TokenKind.closeAngle.shown, outline.cursor.upTo finish⟩] finish true :=
  readElement_eq outline afterSign

theorem readElement_tagEnds
    (hends : EndsAt rest rest' (o.readElement afterSign).errors (o.readElement afterSign).cursor) :
    TagEnds rest rest' afterSign := by
  refine hends.imp id fun ⟨hclean, hstop⟩ => ?_
  have hends {selfClosing : Bool} (hkind : (tagEnd afterSign).1.kind = .closeAngle ∨
        (tagEnd afterSign).1.kind = .slashAngle)
      (h : o.readElement afterSign = o.endTag (afterSign.takeWhile isNameChar).1
        (tagAttributes afterSign) [] (tagEnd afterSign).2 selfClosing) :
      (tagAttributes afterSign).errors = [] ∧ ((tagEnd afterSign).1.kind = .closeAngle ∨
        (tagEnd afterSign).1.kind = .slashAngle) ∧ rest <:+ (tagEnd afterSign).2.rest := by
    obtain ⟨hreach, herrors⟩ := endTag_spec o (afterSign.takeWhile isNameChar).1
      (tagAttributes afterSign) [] (tagEnd afterSign).2 selfClosing
    rw [← h] at hreach herrors
    rw [← hstop]
    exact ⟨(herrors hclean).1, hkind, hreach.suffix⟩
  have hread := readElement_tag o afterSign
  dsimp only at hread
  split at hread
  · next hsign => exact hends (.inr hsign) hread
  · next hsign => exact hends (.inl hsign) hread
  · rw [hread] at hclean
    exact absurd ((endTag_spec _ _ _ _ _ _).2 hclean).2 (List.cons_ne_nil _ _)

theorem readElement_twin (h : o.Twin place rest rest' first second o')
    (hafter : afterSign.Twin place rest rest' afterSign')
    (hends : EndsAt rest rest' (o.readElement afterSign).errors (o.readElement afterSign).cursor) :
    (o.readElement afterSign).Twin place rest rest' first second
      (o'.readElement afterSign') := by
  have htag := TagTwin.of_ends hafter (readElement_tagEnds hends)
  rw [readElement_tag] at hends ⊢
  rw [readElement_tag, htag.kind, htag.name]
  dsimp only at hends ⊢
  split at hends
  · exact endTag_twin [] h htag.value htag.errors htag.stop hends
  · exact endTag_twin [] h htag.value htag.errors htag.stop hends
  · obtain ⟨rfl, rfl⟩ := hends.same fun hclean =>
      absurd ((endTag_spec _ _ _ _ _ _).2 hclean).2 (List.cons_ne_nil _ _)
    have htwin := endTag_twin _ h htag.value htag.errors h.cursor.finish hends
    rwa [List.map_singleton, Error.renumbered, ← h.cursor.upTo_eq h.cursor.finish] at htwin

/-- Reads markup whose first token ends at `after`. -/
def readMarkup (outline : Outline) (kind : TokenKind) (after : Cursor) : Outline :=
  match kind with
  | .angleSlash => outline.readClosingTag after
  | .commentOpen => outline.readComment after "-->".toList
  | .angleBang => outline.readComment after ">".toList
  | .angle => outline.readElement after
  | kind => outline.readMustache kind after

theorem step_of_nil (h : o.cursor.rest = []) : o.step = o.closeAtEnd := by
  unfold step
  dsimp only
  rw [h]

theorem step_of_text (hmore : o.cursor.rest ≠ []) (h : startsMarkup o.cursor.rest = false) :
    o.step = o.readText := by
  obtain ⟨c, behind, hrest⟩ := List.exists_cons_of_ne_nil hmore
  rw [hrest] at h
  unfold step
  dsimp only
  rw [hrest]
  dsimp only
  rw [h]
  rfl

theorem step_of_markup (h : startsMarkup o.cursor.rest = true) :
    o.step = o.readMarkup (Token.readHere o.cursor).1.kind (Token.readHere o.cursor).2 := by
  cases hrest : o.cursor.rest with
  | nil =>
    rw [hrest] at h
    cases h
  | cons c behind =>
    rw [hrest] at h
    unfold step
    dsimp only
    rw [hrest]
    dsimp only
    rw [h]
    rfl

section Signs

variable {a b : Cursor}

/-- Signs that are one token and begin markup, whatever follows them. -/
theorem fixed_sign_twin {passed behind : Text} {kind : TokenKind} {length : Nat}
    (h : a.Twin place rest rest' b) (ha : a.rest = passed ++ behind) (hbehind : rest <:+ behind)
    (hleading : ∀ text, TokenKind.leading (passed ++ text) = (kind, length))
    (hkind : kind ≠ .name) (hlength : length ≤ passed.length)
    (hstarts : ∀ text, startsMarkup (passed ++ text) = true) :
    startsMarkup b.rest = true ∧ (Token.readHere b).1.kind = (Token.readHere a).1.kind ∧
      (Token.readHere a).2.Twin place rest rest' (Token.readHere b).2 := by
  obtain ⟨more, rfl⟩ := hbehind
  obtain ⟨hb, -⟩ := h.pass ha
  have hown : TokenKind.leading a.rest = (kind, length) := by rw [ha, hleading]
  have hother : TokenKind.leading b.rest = (kind, length) := by rw [hb, hleading]
  have hdrop : rest <:+ a.rest.drop (TokenKind.leading a.rest).2 := by
    rw [hown, ha, List.drop_append_of_le_length hlength, ← List.append_assoc]
    exact List.suffix_append _ _
  refine ⟨by rw [hb]; exact hstarts _, by rw [readHere_kind, readHere_kind, hown, hother], ?_⟩
  exact readHere_sign_twin h (hother.trans hown.symm) (by rwa [hown]) hdrop

/-- A comment ends with the sign that ends tags too. -/
theorem readComment_inTag {inside : Cursor} {front : Text}
    (hends : EndsAt rest rest' (o.readComment inside (front ++ ['>'])).errors
      (o.readComment inside (front ++ ['>'])).cursor) : InTag rest rest' inside := by
  refine hends.imp id fun ⟨hclean, hstop⟩ => ?_
  unfold readComment at hclean hstop
  dsimp only at hclean hstop
  split at hclean
  · next found hfound =>
    rw [hfound] at hstop
    rw [add_cursor] at hstop
    obtain ⟨hreach, -⟩ := Cursor.find?_reaches hfound
    obtain ⟨⟨before, after⟩, hsplit, rfl⟩ := Option.map_eq_some_iff.mp hfound
    obtain ⟨-, tail, rfl⟩ := Text.splitAt?_eq_some hsplit
    replace hstop : (front ++ ['>'] ++ tail).drop (front ++ ['>']).length = rest := hstop
    rw [List.drop_left] at hstop
    subst hstop
    refine List.IsSuffix.trans ?_ hreach.suffix
    exact ⟨front, by simp [Cursor.past]⟩
  · simp [advance] at hclean

theorem readHere_rest {kind : TokenKind} {length : Nat}
    (h : TokenKind.leading a.rest = (kind, length)) (hkind : kind ≠ .name) :
    (Token.readHere a).2.rest = a.rest.drop length := by
  unfold Token.readHere
  rw [h]
  dsimp only
  rw [if_neg hkind]

/-- The tag of an element goes on behind the first letter of its name. -/
theorem tagEnds_suffix {c : Char} {behind : Text} (h : TagEnds rest rest' afterSign)
    (hrest : afterSign.rest = c :: behind) (hc : isNameChar c = true) : rest <:+ behind := by
  rcases h with ⟨rfl, -⟩ | ⟨-, -, hsuffix⟩
  · exact List.nil_suffix
  · have hname : (afterSign.takeWhile isNameChar).2.rest = behind.dropWhile isNameChar := by
      simp [Cursor.takeWhile, Cursor.past, hrest, hc]
    have hall := hsuffix.trans (tagEnd_reaches afterSign).suffix
    rw [hname] at hall
    exact hall.trans (List.dropWhile_suffix _)

/-- An expression has both its braces before the texts differ. -/
theorem readMustache_suffix {kind : TokenKind} {inside : Cursor} {behind : Text}
    (hrest : o.cursor.rest = '\x7b' :: behind)
    (hends : EndsAt rest rest' (o.readMustache kind inside).errors
      (o.readMustache kind inside).cursor) :
    (rest = [] ∧ rest' = []) ∨ ∃ c more, behind = c :: more ∧ rest <:+ more := by
  unfold readMustache at hends
  dsimp only at hends
  split at hends
  · next close hclose =>
    obtain ⟨passed, after, hall, rfl, -⟩ := closingBrace?_findsBrace hclose
    have hsuffix := hends.suffix
    rw [add_cursor] at hsuffix
    replace hsuffix : rest <:+ after := hsuffix
    rw [hrest] at hall
    cases passed with
    | nil => exact absurd (List.cons.inj hall).1 (by decide)
    | cons d passed =>
      obtain ⟨-, htail⟩ := List.cons.inj hall
      cases passed with
      | nil => exact .inr ⟨_, _, htail, hsuffix⟩
      | cons e passed =>
        refine .inr ⟨_, _, htail, hsuffix.trans ?_⟩
        exact (List.suffix_cons _ _).trans (List.suffix_append _ _)
  · exact .inl (hends.same (by simp [advance]))

theorem readMarkup_brace {kind : TokenKind} {after : Cursor} (h : kind.opensBrace = true) :
    o.readMarkup kind after = o.readMustache kind after := by
  cases kind with
  | brace | braceHash | braceColon | braceSlash | braceAt => rfl
  | _ => cases h

theorem sign_twin (h : o.Twin place rest rest' first second o')
    (hmarkup : startsMarkup o.cursor.rest = true)
    (hends : EndsAt rest rest'
      (o.readMarkup (Token.readHere o.cursor).1.kind (Token.readHere o.cursor).2).errors
      (o.readMarkup (Token.readHere o.cursor).1.kind (Token.readHere o.cursor).2).cursor) :
    startsMarkup o'.cursor.rest = true ∧
      (Token.readHere o'.cursor).1.kind = (Token.readHere o.cursor).1.kind ∧
      (Token.readHere o.cursor).2.Twin place rest rest' (Token.readHere o'.cursor).2 := by
  have hkind := readHere_kind o.cursor
  rcases startsMarkup_cases hmarkup with
    ⟨behind, hrest⟩ | ⟨behind, hrest⟩ | ⟨c, behind, hrest, hletter⟩ | ⟨behind, hrest⟩
  · have hleading : TokenKind.leading o.cursor.rest = (.angleSlash, 2) := by
      rw [hrest]
      rfl
    rw [hkind, hleading] at hends
    have hsuffix := (readClosingTag_inTag hends).suffix
    rw [readHere_rest hleading (by decide), hrest] at hsuffix
    exact fixed_sign_twin h.cursor (show _ = ['<', '/'] ++ behind from hrest) hsuffix
      (fun _ => rfl) (by decide) (by decide) (fun _ => rfl)
  · have hin : InTag rest rest' (Token.readHere o.cursor).2 := by
      have hbang := leading_bang behind
      rw [← hrest, ← hkind] at hbang
      rcases hbang with hopen | hdeclares
      · rw [hopen] at hends
        exact readComment_inTag (show EndsAt rest rest'
          (o.readComment _ ("--".toList ++ ['>'])).errors _ from hends)
      · rw [hdeclares] at hends
        exact readComment_inTag (show EndsAt rest rest' (o.readComment _ ([] ++ ['>'])).errors _
          from hends)
    have hown := hin.of_reaches (readHere_reaches o.cursor)
    obtain ⟨htoken, hafter⟩ := readHere_twin h.cursor hown
    have hsuffix : rest <:+ behind := by
      rcases hown with ⟨rfl, -⟩ | hsign
      · exact List.nil_suffix
      · rw [hrest, List.suffix_cons_iff, List.suffix_cons_iff] at hsign
        simp only [List.cons.injEq, Char.reduceEq, false_and, false_or] at hsign
        exact (List.suffix_cons _ _).trans hsign
    obtain ⟨more, rfl⟩ := hsuffix
    obtain ⟨hb, -⟩ := h.cursor.pass (show _ = ['<', '!'] ++ (more ++ rest) from hrest)
    exact ⟨by rw [hb]; rfl, by rw [htoken]; rfl, hafter⟩
  · have hleading := leading_letter behind hletter
    rw [← hrest] at hleading
    rw [hkind, hleading] at hends
    have hafter := readHere_rest hleading (by decide)
    rw [hrest] at hafter
    have hsuffix := tagEnds_suffix (readElement_tagEnds hends) hafter
      (isNameChar_of_isAsciiLetter hletter)
    exact fixed_sign_twin h.cursor (show _ = ['<', c] ++ behind from hrest) hsuffix
      (fun text => leading_letter text hletter) (by decide) (Nat.succ_pos _)
      (fun _ => by simp [startsMarkup, hletter])
  · rw [readMarkup_brace (readHere_brace hrest).1] at hends
    rcases readMustache_suffix hrest hends with ⟨rfl, rfl⟩ | ⟨c, more, rfl, hsuffix⟩
    · obtain ⟨htoken, hafter⟩ := readHere_twin h.cursor (.inl ⟨rfl, rfl⟩)
      exact ⟨by rw [h.cursor.rest_eq]; exact hmarkup, by rw [htoken]; rfl, hafter⟩
    · obtain ⟨kind, length, hname, hlength, hleading⟩ := leading_brace c
      exact fixed_sign_twin h.cursor (show _ = ['\x7b', c] ++ more from hrest) hsuffix hleading
        hname hlength (fun _ => rfl)

end Signs

theorem readMarkup_twin {kind : TokenKind} (h : o.Twin place rest rest' first second o')
    (hafter : afterSign.Twin place rest rest' afterSign')
    (hends : EndsAt rest rest' (o.readMarkup kind afterSign).errors
      (o.readMarkup kind afterSign).cursor) :
    (o.readMarkup kind afterSign).Twin place rest rest' first second
      (o'.readMarkup kind afterSign') := by
  unfold readMarkup at hends ⊢
  split at hends
  · exact readClosingTag_twin h hafter hends
  · exact readComment_twin h hafter hends
  · exact readComment_twin h hafter hends
  · exact readElement_twin h hafter hends
  · exact readMustache_twin _ h hafter hends

theorem closeAtEnd_twin (h : o.Twin place [] [] first second o') :
    o.closeAtEnd.Twin place [] [] first second o'.closeAtEnd := by
  unfold closeAtEnd
  rw [h.opened]
  cases o.opened with
  | nil => exact h
  | cons innermost outer =>
    rw [← h.cursor.offset_eq]
    exact (h.advance [⟨.unclosedTag innermost.name, .empty o.cursor.offset⟩] h.cursor).close

theorem closeAtEnd_errors {innermost : OpenElement} {outer : List OpenElement}
    (h : o.opened = innermost :: outer) : o.closeAtEnd.errors ≠ [] := by
  simp [closeAtEnd, h, advance]

theorem opened_of_nil (hmore : o.isFinished = false) (h : o.cursor.rest = []) : o.opened ≠ [] := by
  simpa [isFinished, h] using hmore

/-- A step that reads up to where the sources differ. -/
theorem step_twin_at (h : o.Twin place rest rest' first second o')
    (hmore : o.isFinished = false) (hends : EndsAt rest rest' o.step.errors o.step.cursor)
    (htext : startsMarkup o.cursor.rest = false → Meets rest rest') :
    o.step.Twin place rest rest' first second o'.step := by
  by_cases hrest : o.cursor.rest = []
  · obtain ⟨innermost, outer, hopened⟩ := List.exists_cons_of_ne_nil (opened_of_nil hmore hrest)
    rw [step_of_nil hrest] at hends ⊢
    obtain ⟨rfl, rfl⟩ := hends.same (closeAtEnd_errors hopened)
    rw [step_of_nil (h.cursor.rest_eq.trans hrest)]
    exact closeAtEnd_twin h
  · cases hmarkup : startsMarkup o.cursor.rest with
    | false =>
      have hmeets := htext hmarkup
      obtain ⟨common, ha, hb, -⟩ := h.cursor
      have hrest' : o'.cursor.rest ≠ [] := by
        rw [ha] at hrest
        rw [hb]
        exact fun hnil => hrest ((hmeets.behind common).1.mpr hnil)
      have hmarkup' : startsMarkup o'.cursor.rest = false := by
        rw [hb, ← hmeets.2, ← ha]
        exact hmarkup
      obtain ⟨stop', hstop', -⟩ := h.cursor.reaches (step_spec o).reaches hends.suffix
      have hstop := hstop'
      obtain ⟨behind, hbehind, hbehind', -⟩ := hstop'
      have hboth := hmeets.behind behind
      rw [← hbehind, ← hbehind'] at hboth
      rw [step_of_text hrest hmarkup] at hstop hboth ⊢
      rw [step_of_text hrest' hmarkup']
      exact readText_twin h hrest hstop hboth
    | true =>
      rw [step_of_markup hmarkup] at hends ⊢
      obtain ⟨hmarkup', hkind, hafter⟩ := sign_twin h hmarkup hends
      rw [step_of_markup hmarkup', hkind]
      exact readMarkup_twin h hafter hends

/-- One step in both sources. -/
theorem step_twin (h : o.Twin place rest rest' first second o') (hmore : o.isFinished = false)
    (hends : (rest = [] ∧ rest' = []) ∨ (o.step.errors = [] ∧ rest <:+ o.step.cursor.rest))
    (htext : startsMarkup o.cursor.rest = false → ∀ behind, o.step.cursor.rest = behind ++ rest →
      Meets (behind ++ rest) (behind ++ rest')) :
    o.step.Twin place rest rest' first second o'.step := by
  rcases hends with ⟨rfl, rfl⟩ | ⟨hclean, hbehind⟩
  · exact step_twin_at h hmore (.inl ⟨rfl, rfl⟩) fun _ => Meets.refl []
  · have hreach := (step_spec o).reaches
    obtain ⟨stop', hstop', -⟩ := h.cursor.reaches hreach hbehind
    refine Twin.beyond (step_twin_at (h.within hstop' hreach) hmore (.inr ⟨hclean, rfl⟩) ?_) hstop'
    intro hnone
    obtain ⟨behind, hstop, hother, -⟩ := hstop'
    rw [hstop, hother]
    exact htext hnone behind hstop

/-- What is read to its end in one source is in the other, if the sources end alike. -/
theorem Twin.finished (h : o.Twin place [] [] first second o') (hfinished : o.isFinished = true) :
    o'.isFinished = true := by
  rw [isFinished, h.cursor.rest_eq, h.opened, List.isEmpty_map]
  exact hfinished

/-- Where a step is to be taken in one source there is one in the other. -/
theorem Twin.isFinished (h : o.Twin place rest rest' first second o') (hmore : o.isFinished = false)
    (hends : (rest = [] ∧ rest' = []) ∨ rest <:+ o.step.cursor.rest) : o'.isFinished = false := by
  by_contra hfinished
  simp only [Outline.isFinished, Bool.not_eq_false, Bool.and_eq_true, List.isEmpty_iff, h.opened,
    List.map_eq_nil_iff] at hfinished
  obtain ⟨hrest', hopened⟩ := hfinished
  have hrest : o.cursor.rest ≠ [] := fun hnil => opened_of_nil hmore hnil hopened
  rcases hends with ⟨rfl, rfl⟩ | hsuffix
  · exact hrest (h.cursor.rest_eq.symm.trans hrest')
  · -- The step passes some of the common part, as there is no element to close.
    have hlt := (step_spec o).unread_lt hmore
    have hle := hsuffix.length_le
    obtain ⟨common, ha, hb, -⟩ := h.cursor
    rw [hb, List.append_eq_nil_iff] at hrest'
    rw [hrest'.1, List.nil_append] at ha
    simp only [unread, hopened, ha, List.length_nil] at hlt
    omega

theorem Step.errors_suffix {before after : Outline} (h : Step before after) :
    before.errors <:+ after.errors := by
  cases h <;> simp [Outline.advance]

namespace Leads

variable {before after : Outline}

theorem reaches (h : Leads before after) : before.cursor.Reaches after.cursor := by
  induction h with
  | refl => exact Reaches.refl _
  | tail _ hstep ih =>
    obtain ⟨-, rfl⟩ := hstep
    exact ih.trans (step_spec _).reaches

theorem errors_suffix (h : Leads before after) : before.errors <:+ after.errors := by
  induction h with
  | refl => exact List.suffix_refl _
  | tail _ hstep ih =>
    obtain ⟨-, rfl⟩ := hstep
    exact ih.trans (step_spec _).errors_suffix

theorem of_run (steps : Nat) (outline : Outline) : Leads outline (run steps outline) := by
  induction steps generalizing outline with
  | zero => exact ReflTransGen.refl
  | succ steps ih =>
    rw [run]
    split
    · exact ReflTransGen.refl
    · next hmore => exact ReflTransGen.head ⟨Bool.eq_false_iff.mpr hmore, rfl⟩ (ih _)

/-- What reading leads to in one source it leads to in the other. -/
theorem twin (hlead : Leads o after) (h : o.Twin place rest rest' first second o')
    (hends : (rest = [] ∧ rest' = []) ∨ (after.errors = [] ∧ rest <:+ after.cursor.rest))
    (htext : ∀ middle, Leads o middle → middle.isFinished = false → Leads middle.step after →
      startsMarkup middle.cursor.rest = false →
      ∀ behind, middle.step.cursor.rest = behind ++ rest →
        Meets (behind ++ rest) (behind ++ rest')) :
    ∃ after', Leads o' after' ∧ after.Twin place rest rest' first second after' := by
  induction hlead using ReflTransGen.head_induction_on generalizing o' with
  | refl => exact ⟨o', ReflTransGen.refl, h⟩
  | @head o _ hstep hrest ih =>
    obtain ⟨hmore, rfl⟩ := hstep
    have hstepEnds : (rest = [] ∧ rest' = []) ∨
        (o.step.errors = [] ∧ rest <:+ o.step.cursor.rest) := by
      refine hends.imp id fun ⟨hclean, hsuffix⟩ => ⟨?_, hsuffix.trans (reaches hrest).suffix⟩
      have herrors := errors_suffix hrest
      rw [hclean] at herrors
      exact List.suffix_nil.mp herrors
    have htwin := step_twin h hmore hstepEnds fun hnone =>
      htext o ReflTransGen.refl hmore hrest hnone
    obtain ⟨after', hlead', hafter⟩ := ih htwin fun middle hmiddle =>
      htext middle (ReflTransGen.head ⟨hmore, rfl⟩ hmiddle)
    have hmore' := Outline.Twin.isFinished h hmore (hstepEnds.imp id And.right)
    exact ⟨after', ReflTransGen.head ⟨hmore', rfl⟩ hlead', hafter⟩

end Leads

end Outline

end TypedComponent.Markup
