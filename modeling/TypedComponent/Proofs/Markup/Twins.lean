import TypedComponent.Proofs.Markup.PrintedAttributes
import TypedComponent.Proofs.Markup.Renumbering

/-!
The same text read in two places. What a reader finds depends on the text that
it reads and on nothing further on, except that a fault may mean that something
was looked for in vain. So where two texts are the same for a while, readers
that find no fault in this part find the same in both, at the offsets that the
part has there; and if the texts are the same to their ends, faults are the
same as well.

Inside of a tag all looking ahead ends at the sign of the tag's end. There the
common part is taken up to that sign, and what stands behind it is left open.
This module has the places, the tokens and the braces.
-/

namespace TypedComponent

/-- The same place in two texts that go on alike and then with `rest` and `rest'`.
An offset of the common part is taken to where it is in the second text by
`place`. -/
def Cursor.Twin (place : Nat → Nat) (rest rest' : Text) (a b : Cursor) : Prop :=
  ∃ common, a.rest = common ++ rest ∧ b.rest = common ++ rest' ∧
    ∀ count ≤ Text.bytes common, place (a.offset + count) = b.offset + count

namespace Cursor.Twin

variable {place : Nat → Nat} {rest rest' : Text} {a b stop stop' : Cursor}

theorem offset_eq (h : a.Twin place rest rest' b) : place a.offset = b.offset := by
  obtain ⟨common, -, -, hplace⟩ := h
  exact hplace 0 (Nat.zero_le _)

theorem upTo_eq (h : a.Twin place rest rest' b) (hstop : stop.Twin place rest rest' stop') :
    b.upTo stop' = (a.upTo stop).renumbered place := by
  simp only [Cursor.upTo, Span.renumbered, h.offset_eq, hstop.offset_eq]

/-- What is passed before the texts differ is passed in both. -/
theorem pass {passed behind : Text} (h : a.Twin place rest rest' b)
    (ha : a.rest = passed ++ (behind ++ rest)) :
    b.rest = passed ++ (behind ++ rest') ∧
      Twin place rest rest' ⟨a.offset + Text.bytes passed, behind ++ rest⟩
        ⟨b.offset + Text.bytes passed, behind ++ rest'⟩ := by
  obtain ⟨common, hcommon, hb, hplace⟩ := h
  have heq : common = passed ++ behind := by
    rw [ha, ← List.append_assoc] at hcommon
    exact (List.append_cancel_right hcommon).symm
  subst heq
  refine ⟨by rw [hb, List.append_assoc], behind, rfl, rfl, ?_⟩
  intro count hcount
  rw [Nat.add_assoc, Nat.add_assoc]
  apply hplace
  rw [Text.bytes_append]
  omega

theorem unique {other : Cursor} (h : a.Twin place rest rest' b)
    (hother : a.Twin place rest rest' other) : b = other := by
  obtain ⟨common, ha, hb, hplace⟩ := h
  obtain ⟨same, hsame, hrest, hoffset⟩ := hother
  rw [ha] at hsame
  rw [← List.append_cancel_right hsame] at hrest
  have hstart := (hplace 0 (Nat.zero_le _)).symm.trans (hoffset 0 (Nat.zero_le _))
  obtain ⟨offset, text⟩ := b
  obtain ⟨otherOffset, otherText⟩ := other
  simp_all

/-- A place on the way to where the texts differ has a twin. -/
theorem reaches (h : a.Twin place rest rest' b) (hreach : a.Reaches stop)
    (hstop : rest <:+ stop.rest) :
    ∃ stop', stop.Twin place rest rest' stop' ∧ b.Reaches stop' ∧
      b.textTo stop' = a.textTo stop ∧ stop'.offset - b.offset = stop.offset - a.offset := by
  obtain ⟨behind, hbehind⟩ := hstop
  obtain ⟨passed, hpassed, hoffset⟩ := hreach
  rw [← hbehind] at hpassed
  obtain ⟨hb, htwin⟩ := h.pass hpassed
  have heq : stop = ⟨a.offset + Text.bytes passed, behind ++ rest⟩ := by
    rw [← hoffset, hbehind]
  subst heq
  refine ⟨_, htwin, ⟨passed, hb, rfl⟩, ?_, ?_⟩
  · rw [Reaches.textTo_eq hb rfl, Reaches.textTo_eq hpassed rfl]
  · simp

theorem suffix (h : a.Twin place rest rest' b) : rest <:+ a.rest := by
  obtain ⟨common, ha, -⟩ := h
  exact ⟨common, ha.symm⟩

/-- The text between two places is the same in both texts. -/
theorem between (h : a.Twin place rest rest' b) (hstop : stop.Twin place rest rest' stop')
    (hreach : a.Reaches stop) :
    b.Reaches stop' ∧ b.textTo stop' = a.textTo stop ∧
      stop'.offset - b.offset = stop.offset - a.offset := by
  obtain ⟨other, hother, hbetween⟩ := h.reaches hreach hstop.suffix
  rwa [hstop.unique hother]

/-- Texts that differ behind a place are alike up to it. -/
theorem within (h : a.Twin place rest rest' b) (hstop : stop.Twin place rest rest' stop')
    (hreach : a.Reaches stop) : a.Twin place stop.rest stop'.rest b := by
  obtain ⟨hreach', htext, -⟩ := h.between hstop hreach
  refine ⟨a.textTo stop, hreach.rest_eq, by rw [hreach'.rest_eq, htext], ?_⟩
  intro count hcount
  obtain ⟨common, ha, -, hplace⟩ := h
  refine hplace count (Nat.le_trans hcount ?_)
  obtain ⟨behind, hbehind⟩ := hstop.suffix
  rw [hreach.rest_eq, ← hbehind, ← List.append_assoc] at ha
  rw [← List.append_cancel_right ha, Text.bytes_append]
  exact Nat.le_add_right _ _

theorem next {c : Char} {behind : Text} (h : a.Twin place rest rest' b)
    (ha : a.rest = c :: behind) (hbehind : rest <:+ behind) :
    a.next.Twin place rest rest' b.next := by
  obtain ⟨more, rfl⟩ := hbehind
  obtain ⟨hb, htwin⟩ := h.pass (show a.rest = [c] ++ (more ++ rest) from ha)
  simpa [Cursor.next, ha, hb] using htwin

/-- The end of a text that is the same to its end. -/
theorem finish (h : a.Twin place [] [] b) : a.finish.Twin place [] [] b.finish := by
  obtain ⟨common, ha, hb, hplace⟩ := h
  rw [List.append_nil] at ha hb
  refine ⟨[], rfl, rfl, ?_⟩
  intro count hcount
  have hzero : count = 0 := Nat.le_zero.mp hcount
  subst hzero
  simp only [Cursor.finish, Nat.add_zero, ha, hb]
  exact hplace _ (Nat.le_refl _)

theorem rest_eq (h : a.Twin place [] [] b) : b.rest = a.rest := by
  obtain ⟨common, ha, hb, -⟩ := h
  rw [ha, hb]

end Cursor.Twin

namespace Markup

open Cursor (Reaches Twin)

/-- A place in a tag whose end is in sight: the sign at its end stands before the
texts differ, or they never do. -/
def InTag (rest rest' : Text) (cursor : Cursor) : Prop :=
  (rest = [] ∧ rest' = []) ∨ '>' :: rest <:+ cursor.rest

theorem InTag.suffix {rest rest' : Text} {cursor : Cursor} (h : InTag rest rest' cursor) :
    rest <:+ cursor.rest := by
  rcases h with ⟨rfl, -⟩ | h
  · exact List.nil_suffix
  · exact (List.suffix_cons '>' rest).trans h

theorem InTag.of_reaches {rest rest' : Text} {start stop : Cursor} (h : InTag rest rest' stop)
    (hreach : start.Reaches stop) : InTag rest rest' start := by
  obtain ⟨passed, hpassed, -⟩ := hreach
  exact h.imp id fun hsuffix => hsuffix.trans ⟨passed, hpassed.symm⟩

section Characters

variable {place : Nat → Nat} {rest rest' : Text} {a b : Cursor}

/-- A run of characters inside of a tag. -/
theorem takeWhile_twin {p : Char → Bool} (h : a.Twin place rest rest' b)
    (hin : InTag rest rest' (a.takeWhile p).2) :
    (b.takeWhile p).1 = (a.takeWhile p).1 ∧
      (a.takeWhile p).2.Twin place rest rest' (b.takeWhile p).2 := by
  have hsplit : a.rest = a.rest.takeWhile p ++ a.rest.dropWhile p :=
    List.takeWhile_append_dropWhile.symm
  obtain ⟨behind, hbehind⟩ := hin.suffix
  replace hbehind : behind ++ rest = a.rest.dropWhile p := hbehind
  obtain ⟨hb, htwin⟩ := h.pass (hsplit.trans (by rw [hbehind]))
  have hhead := head_dropWhile_not (p := p) a.rest
  have hstop : ∀ c ∈ (behind ++ rest').head?, p c = false := by
    rw [← hbehind] at hhead
    rcases hin with ⟨rfl, rfl⟩ | ⟨front, hfront⟩
    · exact hhead
    · -- The sign at the end of the tag is in front of what may differ.
      replace hfront : front ++ '>' :: rest = a.rest.dropWhile p := hfront
      rw [← hbehind, List.append_cons] at hfront
      rw [← List.append_cancel_right hfront] at hhead ⊢
      cases front <;> exact hhead
  have hrun : b.takeWhile p = (a.rest.takeWhile p,
      ⟨b.offset + Text.bytes (a.rest.takeWhile p), behind ++ rest'⟩) := by
    have hcursor : b = ⟨b.offset, a.rest.takeWhile p ++ (behind ++ rest')⟩ := by rw [← hb]
    rw [hcursor]
    exact Cursor.takeWhile_run (fun c => List.mem_takeWhile_imp) hstop
  have hown : (a.takeWhile p).2 = ⟨a.offset + Text.bytes (a.rest.takeWhile p), behind ++ rest⟩ := by
    rw [hbehind]
    rfl
  rw [hrun, hown]
  exact ⟨rfl, htwin⟩

/-- A run without the sign that ends tags stays in the tag. -/
theorem InTag.takeWhile {p : Char → Bool} (h : InTag rest rest' a) (hp : p '>' = false) :
    InTag rest rest' (a.takeWhile p).2 := by
  refine h.imp id ?_
  rintro ⟨front, hfront⟩
  refine ⟨front.dropWhile p, ?_⟩
  show _ = a.rest.dropWhile p
  rw [← hfront, List.dropWhile_append]
  split
  · next hempty => simp [List.isEmpty_iff.mp hempty, hp]
  · rfl

theorem skipWhile_twin {p : Char → Bool} (h : a.Twin place rest rest' b)
    (hin : InTag rest rest' (a.skipWhile p)) :
    (a.skipWhile p).Twin place rest rest' (b.skipWhile p) :=
  (takeWhile_twin h hin).2

theorem head_twin (h : a.Twin place rest rest' b) (hin : InTag rest rest' a) :
    b.rest.head? = a.rest.head? := by
  rcases hin with ⟨rfl, rfl⟩ | ⟨front, hfront⟩
  · rw [h.rest_eq]
  · rw [List.append_cons] at hfront
    rw [(h.pass (show a.rest = [] ++ _ from hfront.symm)).1, ← hfront]
    cases front <;> rfl

/-- A character that begins one token only. -/
theorem leading_single {c : Char} (hc : c ≠ '<' ∧ c ≠ '/' ∧ c ≠ '\x7b') (text : Text) :
    TokenKind.leading (c :: text) = TokenKind.leading [c] := by
  unfold TokenKind.leading
  split <;> simp_all

theorem leading_declares {text : Text} (h : ∀ rest, text ≠ '-' :: '-' :: rest) :
    TokenKind.leading ('<' :: '!' :: text) = (.angleBang, 2) := by
  unfold TokenKind.leading
  split <;> grind

theorem leading_length_le (text : Text) : (TokenKind.leading text).2 ≤ text.length := by
  unfold TokenKind.leading
  split <;> simp

/-- The sign of an expression is told by the character behind its brace. -/
theorem leading_brace (c : Char) : ∃ kind length, kind ≠ TokenKind.name ∧ length ≤ 2 ∧
    ∀ text, TokenKind.leading ('\x7b' :: c :: text) = (kind, length) := by
  by_cases hsign : c = '#' ∨ c = ':' ∨ c = '/' ∨ c = '@'
  · rcases hsign with rfl | rfl | rfl | rfl
    all_goals exact ⟨_, 2, by decide, Nat.le_refl _, fun _ => rfl⟩
  · simp only [not_or] at hsign
    exact ⟨.brace, 1, by decide, by decide, fun text => by simp [TokenKind.leading, hsign]⟩

/-- No token reaches over the sign that ends a tag. -/
theorem leading_before_sign (front : Text) :
    ∃ kind length, ∀ text, TokenKind.leading (front ++ '>' :: text) = (kind, length) := by
  cases front with
  | nil => exact ⟨.closeAngle, 1, fun _ => rfl⟩
  | cons c front =>
    by_cases hc : c ≠ '<' ∧ c ≠ '/' ∧ c ≠ '\x7b'
    · exact ⟨_, _, fun text => leading_single hc _⟩
    · simp only [not_and_or, not_not] at hc
      cases front with
      | nil =>
        rcases hc with rfl | rfl | rfl
        · exact ⟨.angle, 1, fun _ => rfl⟩
        · exact ⟨.slashAngle, 2, fun _ => rfl⟩
        · exact ⟨.brace, 1, fun _ => rfl⟩
      | cons d front =>
        rcases hc with rfl | rfl | rfl
        · by_cases hslash : d = '/'
          · subst hslash
            exact ⟨.angleSlash, 2, fun _ => rfl⟩
          by_cases hbang : d = '!'
          · subst hbang
            by_cases hcomment : ∃ rest, front = '-' :: '-' :: rest
            · obtain ⟨rest, rfl⟩ := hcomment
              exact ⟨.commentOpen, 4, fun _ => rfl⟩
            · refine ⟨.angleBang, 2, fun text => leading_declares fun rest hrest => ?_⟩
              rcases front with _ | ⟨e, _ | ⟨f, front⟩⟩ <;> simp_all
          exact ⟨.angle, 1, fun text => by simp [TokenKind.leading, hslash, hbang]⟩
        · by_cases hsign : d = '>'
          · subst hsign
            exact ⟨.slashAngle, 2, fun _ => rfl⟩
          exact ⟨.slash, 1, fun text => by simp [TokenKind.leading, hsign]⟩
        · obtain ⟨kind, length, -, -, hall⟩ := leading_brace d
          exact ⟨kind, length, fun text => hall _⟩

theorem leading_twin (h : a.Twin place rest rest' b) (hin : InTag rest rest' a) :
    TokenKind.leading b.rest = TokenKind.leading a.rest ∧
      rest <:+ a.rest.drop (TokenKind.leading a.rest).2 := by
  rcases hin with ⟨rfl, rfl⟩ | ⟨front, hfront⟩
  · exact ⟨by rw [h.rest_eq], List.nil_suffix⟩
  · obtain ⟨kind, length, hall⟩ := leading_before_sign front
    have hle : length ≤ (front ++ ['>']).length := by
      have hown := leading_length_le (front ++ ['>'])
      rwa [hall []] at hown
    have hown : TokenKind.leading a.rest = (kind, length) := by rw [← hfront, hall]
    rw [List.append_cons] at hfront
    rw [hown, (h.pass (show a.rest = [] ++ _ from hfront.symm)).1, ← hfront]
    refine ⟨by simp [hall], ?_⟩
    rw [List.drop_append_of_le_length hle]
    exact List.suffix_append _ _

/-- A token that begins with the same sign in both texts. -/
theorem readHere_sign_twin (h : a.Twin place rest rest' b)
    (hleading : TokenKind.leading b.rest = TokenKind.leading a.rest)
    (hname : (TokenKind.leading a.rest).1 ≠ .name)
    (hbehind : rest <:+ a.rest.drop (TokenKind.leading a.rest).2) :
    (Token.readHere a).2.Twin place rest rest' (Token.readHere b).2 := by
  unfold Token.readHere
  rw [hleading]
  obtain ⟨behind, hbehind⟩ := hbehind
  cases hown : TokenKind.leading a.rest with | mk kind length =>
  rw [hown] at hleading hbehind hname
  dsimp only at hbehind hname ⊢
  rw [if_neg hname, if_neg hname]
  obtain ⟨passed, hpassed, hbytes⟩ := TokenKind.leading_spec hown
  obtain ⟨other, hother, hotherBytes⟩ := TokenKind.leading_spec hleading
  rw [← hbehind] at hpassed
  obtain ⟨hb, htwin⟩ := h.pass hpassed
  rw [hb] at hother
  obtain ⟨-, hdrop⟩ := Text.append_inj_of_bytes hother (hbytes.trans hotherBytes.symm)
  rw [← hb] at hdrop
  rwa [hbytes, hbehind, hdrop] at htwin

/-- The token at the cursor, which may be the sign at the end of the tag. -/
theorem readHere_twin (h : a.Twin place rest rest' b) (hin : InTag rest rest' a) :
    (Token.readHere b).1 = (Token.readHere a).1.renumbered place ∧
      (Token.readHere a).2.Twin place rest rest' (Token.readHere b).2 := by
  obtain ⟨hleading, hbehind⟩ := leading_twin h hin
  have hafter : (Token.readHere a).2.Twin place rest rest' (Token.readHere b).2 := by
    by_cases hname : (TokenKind.leading a.rest).1 = .name
    · unfold Token.readHere
      rw [hleading]
      dsimp only
      rw [if_pos hname, if_pos hname]
      exact skipWhile_twin h (hin.takeWhile (by decide))
    · exact readHere_sign_twin h hleading hname hbehind
  have hkind : (Token.readHere b).1.kind = (Token.readHere a).1.kind := by
    rw [readHere_kind, readHere_kind, hleading]
  exact ⟨congrArg₂ Token.mk hkind (h.upTo_eq hafter), hafter⟩

theorem read_twin (h : a.Twin place rest rest' b) (hin : InTag rest rest' a) :
    (Token.read b).1 = (Token.read a).1.renumbered place ∧
      (Token.read a).2.Twin place rest rest' (Token.read b).2 :=
  have hgap : InTag rest rest' (a.skipWhile isSeparator) := hin.takeWhile (by decide)
  readHere_twin (skipWhile_twin h hgap) hgap

end Characters

section Braces

/-- A scan that finds a closing brace, and finds it in the same text with
anything behind the brace. -/
def FindsBrace (scan : Nat → Text → Option Cursor) (offset : Nat) (text : Text) (close : Cursor) :
    Prop :=
  ∃ passed behind, text = passed ++ '\x7d' :: behind ∧
    close = ⟨offset + Text.bytes passed, '\x7d' :: behind⟩ ∧ ∀ offset' behind',
      scan offset' (passed ++ '\x7d' :: behind') =
        some ⟨offset' + Text.bytes passed, '\x7d' :: behind'⟩

namespace FindsBrace

variable {scan more : Nat → Text → Option Cursor} {offset : Nat} {c d : Char} {text : Text}
  {close : Cursor}

theorem cons (h : FindsBrace more (offset + c.utf8Size) text close)
    (hscan : ∀ offset' text', text'.head? = text.head? →
      scan offset' (c :: text') = more (offset' + c.utf8Size) text') :
    FindsBrace scan offset (c :: text) close := by
  obtain ⟨passed, behind, rfl, rfl, hall⟩ := h
  refine ⟨c :: passed, behind, rfl, by rw [Text.bytes_cons, Nat.add_assoc], ?_⟩
  intro offset' behind'
  have hhead : (passed ++ '\x7d' :: behind').head? = (passed ++ '\x7d' :: behind).head? := by
    cases passed <;> rfl
  rw [List.cons_append, hscan _ _ hhead, hall, Text.bytes_cons, Nat.add_assoc]

theorem cons_cons (h : FindsBrace more (offset + c.utf8Size + d.utf8Size) text close)
    (hscan : ∀ offset' text',
      scan offset' (c :: d :: text') = more (offset' + c.utf8Size + d.utf8Size) text') :
    FindsBrace scan offset (c :: d :: text) close := by
  obtain ⟨passed, behind, rfl, rfl, hall⟩ := h
  refine ⟨c :: d :: passed, behind, rfl, by simp only [Text.bytes_cons, Nat.add_assoc], ?_⟩
  intro offset' behind'
  rw [List.cons_append, List.cons_append, hscan, hall]
  simp only [Text.bytes_cons, Nat.add_assoc]

end FindsBrace

theorem closingBraceIn_findsBrace {context : BraceContext} {opened : List Opening} {offset : Nat}
    {text : Text} {close : Cursor}
    (h : closingBraceIn context opened offset text = some close) :
    FindsBrace (closingBraceIn context opened) offset text close := by
  fun_induction closingBraceIn context opened offset text with
  | case1 => cases h
  | case3 offset rest | case4 offset rest =>
    cases h
    exact ⟨[], rest, rfl, rfl, fun _ _ => rfl⟩
  | case2 | case6 | case7 | case8 | case9 | case16 =>
    rename_i ih
    exact (ih h).cons fun _ _ _ => rfl
  | case5 offset rest outer hmore next ih =>
    exact (ih h).cons fun _ _ _ => scan_closing_brace hmore
  | case10 | case11 | case13 | case15 | case17 | case20 =>
    rename_i ih
    exact (ih h).cons_cons fun _ _ => rfl
  | case12 opened offset c next rest hopen hclose hdouble hsingle htick hline hblock ih =>
    refine (ih h).cons fun offset' text' hhead => scan_code_char ?_ ?_
    · simp_all
    · intro hc d hd
      rw [hhead] at hd
      cases rest with
      | nil => cases hd
      | cons e rest =>
        cases hd
        exact ⟨fun hd => hline rest hc (by rw [hd]), fun hd => hblock rest hc (by rw [hd])⟩
  | case14 opened offset quote c rest hescape next ih =>
    have hc : c ≠ '\\' := by
      intro hc
      cases rest with
      | nil => cases h
      | cons d rest => exact hescape d rest hc rfl
    exact (ih h).cons fun _ _ _ => scan_quoted_char hc
  | case18 opened offset c next rest hescape htick hdollar ih =>
    have hc : c ≠ '\\' := by
      intro hc
      cases rest with
      | nil => cases h
      | cons d rest => exact hescape d rest hc rfl
    refine (ih h).cons fun offset' text' hhead => scan_template_char ⟨htick, hc⟩ ?_
    rintro hc hd
    rw [hhead] at hd
    cases rest with
    | nil => cases hd
    | cons e rest =>
      cases hd
      exact hdollar rest hc rfl
  | case19 opened offset c rest next ih => exact (ih h).cons fun _ _ _ => rfl
  | case21 opened offset c next rest hends ih =>
    refine (ih h).cons fun offset' text' hhead => scan_blockComment_char ?_
    rintro hc hd
    rw [hhead] at hd
    cases rest with
    | nil => cases hd
    | cons e rest =>
      cases hd
      exact hends rest hc rfl

theorem closingBrace?_findsBrace {cursor close : Cursor} (h : closingBrace? cursor = some close) :
    FindsBrace (closingBraceIn .code []) cursor.offset cursor.rest close :=
  closingBraceIn_findsBrace h

variable {place : Nat → Nat} {rest rest' : Text} {a b : Cursor}

theorem closingBrace?_twin (h : a.Twin place rest rest' b) {close : Cursor}
    (hclose : closingBrace? a = some close) (hbehind : rest <:+ close.next.rest) :
    ∃ close', closingBrace? b = some close' ∧ close.Twin place rest rest' close' ∧
      close.next.Twin place rest rest' close'.next := by
  obtain ⟨passed, behind, ha, rfl, hall⟩ := closingBrace?_findsBrace hclose
  obtain ⟨more, hmore⟩ := hbehind
  replace hmore : more ++ rest = behind := hmore
  subst hmore
  obtain ⟨hb, htwin⟩ := h.pass (show a.rest = passed ++ (('\x7d' :: more) ++ rest) from ha)
  refine ⟨_, ?_, htwin, htwin.next rfl (List.suffix_append _ _)⟩
  rw [closingBrace?, hb]
  exact hall _ _

theorem closingBrace?_none {a b : Cursor} (hrest : b.rest = a.rest)
    (h : closingBrace? a = none) : closingBrace? b = none := by
  rw [← Option.not_isSome_iff_eq_none, Option.isSome_iff_exists]
  rintro ⟨close, hclose⟩
  obtain ⟨passed, behind, hb, -, hall⟩ := closingBrace?_findsBrace hclose
  rw [closingBrace?, ← hrest, hb, hall] at h
  cases h

end Braces

end Markup

end TypedComponent
