import TypedComponent.Markup.AttributeList
import TypedComponent.Proofs.Text.Cells

/-!
Reading only goes forward. Every reader ends at a place that is reached from
where it began by passing some of the text, so offsets never become smaller
and every place is one between characters.
-/

namespace TypedComponent

/-- One place is reached from another by passing some text. -/
def Cursor.Reaches (start stop : Cursor) : Prop :=
  ∃ passed, start.rest = passed ++ stop.rest ∧
    stop.offset = start.offset + Text.bytes passed

namespace Cursor.Reaches

theorem refl (cursor : Cursor) : cursor.Reaches cursor := ⟨[], rfl, rfl⟩

theorem trans {a b c : Cursor} (hab : a.Reaches b) (hbc : b.Reaches c) : a.Reaches c := by
  obtain ⟨front, hfront, hb⟩ := hab
  obtain ⟨more, hmore, hc⟩ := hbc
  refine ⟨front ++ more, ?_, ?_⟩
  · rw [hfront, hmore, List.append_assoc]
  · rw [hc, hb, Text.bytes_append, Nat.add_assoc]

theorem offset_le {start stop : Cursor} (h : start.Reaches stop) :
    start.offset ≤ stop.offset := by
  obtain ⟨passed, -, hoffset⟩ := h
  omega

theorem length_le {start stop : Cursor} (h : start.Reaches stop) :
    stop.rest.length ≤ start.rest.length := by
  obtain ⟨passed, hrest, -⟩ := h
  rw [hrest, List.length_append]
  omega

theorem past {cursor : Cursor} {passed rest : Text} (h : cursor.rest = passed ++ rest) :
    cursor.Reaches (cursor.past passed rest) := ⟨passed, h, rfl⟩

theorem cons {offset : Nat} {c : Char} {rest : Text} {stop : Cursor}
    (h : Reaches ⟨offset + c.utf8Size, rest⟩ stop) : Reaches ⟨offset, c :: rest⟩ stop :=
  trans ⟨[c], rfl, rfl⟩ h

theorem finish (cursor : Cursor) : cursor.Reaches cursor.finish :=
  ⟨cursor.rest, by simp [Cursor.finish], rfl⟩

theorem next (cursor : Cursor) : cursor.Reaches cursor.next := by
  obtain ⟨offset, rest⟩ := cursor
  cases rest with
  | nil => exact refl _
  | cons c rest => exact ⟨[c], rfl, rfl⟩

theorem takeWhile (cursor : Cursor) (p : Char → Bool) :
    cursor.Reaches (cursor.takeWhile p).2 :=
  past List.takeWhile_append_dropWhile.symm

theorem skipWhile (cursor : Cursor) (p : Char → Bool) : cursor.Reaches (cursor.skipWhile p) :=
  takeWhile cursor p

end Cursor.Reaches

/-- Text that stops a run of characters is none of them. -/
theorem Cursor.skipWhile_head {cursor : Cursor} {p : Char → Bool} {c : Char} {rest : Text}
    (h : (cursor.skipWhile p).rest = c :: rest) : p c = false := by
  have hhead := List.head?_dropWhile_not p cursor.rest
  have hrest : cursor.rest.dropWhile p = c :: rest := h
  rw [hrest] at hhead
  simpa using hhead

theorem Text.splitAt?_eq_some {mark text before found : Text}
    (h : Text.splitAt? mark text = some (before, found)) :
    text = before ++ found ∧ ∃ rest, found = mark ++ rest := by
  induction text generalizing before with
  | nil =>
    simp only [Text.splitAt?, Option.ite_none_right_eq_some, Option.some.injEq,
      Prod.mk.injEq] at h
    obtain ⟨rfl, rfl, rfl⟩ := h
    exact ⟨rfl, [], rfl⟩
  | cons c rest ih =>
    rw [Text.splitAt?] at h
    split at h
    · rename_i hstarts
      simp only [Option.some.injEq, Prod.mk.injEq] at h
      obtain ⟨rfl, rfl⟩ := h
      obtain ⟨tail, htail⟩ := Option.isSome_iff_exists.mp hstarts
      exact ⟨rfl, tail, Text.eq_append_of_after? htail⟩
    · obtain ⟨⟨front, back⟩, hsplit, heq⟩ := Option.map_eq_some_iff.mp h
      simp only [Prod.mk.injEq] at heq
      obtain ⟨rfl, rfl⟩ := heq
      obtain ⟨hrest, hmark⟩ := ih hsplit
      exact ⟨by rw [hrest]; rfl, hmark⟩

/-- The place of a mark is reached, and so is the place after it. -/
theorem Cursor.find?_reaches {cursor found : Cursor} {mark : Text}
    (h : cursor.find? mark = some found) :
    cursor.Reaches found ∧
      found.Reaches ⟨found.offset + Text.bytes mark, found.rest.drop mark.length⟩ := by
  obtain ⟨⟨before, after⟩, hsplit, rfl⟩ := Option.map_eq_some_iff.mp h
  obtain ⟨hrest, tail, rfl⟩ := Text.splitAt?_eq_some hsplit
  exact ⟨Cursor.Reaches.past hrest, mark, by simp [Cursor.past], rfl⟩

namespace Markup

open Cursor (Reaches)

/-- The characters of a token that is no name are as many as its bytes. -/
theorem TokenKind.leading_spec {text : Text} {kind : TokenKind} {length : Nat}
    (h : TokenKind.leading text = (kind, length)) :
    ∃ passed, text = passed ++ text.drop length ∧ Text.bytes passed = length := by
  unfold TokenKind.leading at h
  split at h <;> cases h
  all_goals first
    | exact ⟨[], rfl, rfl⟩
    | exact ⟨[_], rfl, rfl⟩
    | exact ⟨[_, _], rfl, rfl⟩
    | exact ⟨[_, _, _, _], rfl, rfl⟩

theorem readHere_reaches (cursor : Cursor) : cursor.Reaches (Token.readHere cursor).2 := by
  unfold Token.readHere
  cases hleading : TokenKind.leading cursor.rest with
  | mk kind length =>
    dsimp only
    split
    · exact Reaches.skipWhile cursor isNameChar
    · obtain ⟨passed, hrest, hbytes⟩ := TokenKind.leading_spec hleading
      exact ⟨passed, hrest, by rw [hbytes]⟩

theorem read_reaches (cursor : Cursor) : cursor.Reaches (Token.read cursor).2 :=
  (Reaches.skipWhile cursor isSeparator).trans (readHere_reaches _)

/-- A token that is a name begins with a character that names are made of. -/
theorem TokenKind.leading_name {c : Char} {rest : Text} (h : (leading (c :: rest)).1 = .name)
    (hc : isSeparator c = false) : isNameChar c = true := by
  unfold leading at h
  split at h <;> cases h
  simp_all [isNameChar]

theorem TokenKind.leading_length {c : Char} {rest : Text} {kind : TokenKind} {length : Nat}
    (h : leading (c :: rest) = (kind, length)) (hkind : kind ≠ .name) : 0 < length := by
  unfold leading at h
  split at h <;> cases h <;> first
    | omega
    | contradiction

/-- Every token but the last has a character. -/
theorem readHere_passes {cursor : Cursor} {c : Char} {rest : Text} (hrest : cursor.rest = c :: rest)
    (hc : isSeparator c = false) : (Token.readHere cursor).2.rest.length ≤ rest.length := by
  unfold Token.readHere
  rw [hrest]
  cases hleading : TokenKind.leading (c :: rest) with
  | mk kind length =>
    dsimp only
    split
    · next hname =>
      have hchar := TokenKind.leading_name (by rw [hleading]; exact hname) hc
      have hdrop : (cursor.skipWhile isNameChar).rest = rest.dropWhile isNameChar := by
        simp [Cursor.skipWhile, Cursor.takeWhile, Cursor.past, hrest, hchar]
      rw [hdrop]
      exact (List.dropWhile_sublist isNameChar).length_le
    · next hname =>
      have hpos := TokenKind.leading_length hleading hname
      rw [List.length_drop, List.length_cons]
      omega

theorem read_passes {cursor : Cursor} (h : (Token.read cursor).1.kind ≠ .finish) :
    (Token.read cursor).2.rest.length < cursor.rest.length := by
  have hle := (Reaches.skipWhile cursor isSeparator).length_le
  cases hrest : (cursor.skipWhile isSeparator).rest with
  | nil =>
    refine absurd ?_ h
    show (TokenKind.leading (cursor.skipWhile isSeparator).rest).1 = .finish
    rw [hrest]
    rfl
  | cons c rest =>
    have hpassed := readHere_passes hrest (Cursor.skipWhile_head hrest)
    rw [hrest, List.length_cons] at hle
    exact Nat.lt_of_le_of_lt hpassed hle

theorem closingBraceIn_reaches {context : BraceContext} {opened : List Opening} {offset : Nat}
    {text : Text} {close : Cursor}
    (h : closingBraceIn context opened offset text = some close) :
    Cursor.Reaches ⟨offset, text⟩ close := by
  fun_induction closingBraceIn context opened offset text with
  | case1 => cases h
  | case3 | case4 =>
    cases h
    exact Reaches.refl _
  | _ =>
    -- One character is passed, or two that stand for something together.
    rename_i ih
    first
      | exact (ih h).cons
      | exact (ih h).cons.cons

/-- A character that is no closing brace is passed. -/
theorem closingBraceIn_tail {context : BraceContext} {opened : List Opening} {offset : Nat}
    {c : Char} {rest : Text} {close : Cursor} (hc : c ≠ '\x7d')
    (h : closingBraceIn context opened offset (c :: rest) = some close) :
    Reaches ⟨offset + c.utf8Size, rest⟩ close := by
  unfold closingBraceIn at h
  dsimp only at h
  split at h
  all_goals first
    | exact closingBraceIn_reaches h
    | exact (closingBraceIn_reaches h).cons
    | exact absurd rfl hc

theorem closingBrace?_reaches {cursor close : Cursor} (h : closingBrace? cursor = some close) :
    cursor.Reaches close :=
  closingBraceIn_reaches h

namespace Fragment

theorem readExpression_reaches (cursor : Cursor) :
    cursor.Reaches (readExpression cursor).cursor := by
  unfold readExpression
  cases hclose : closingBrace? cursor with
  | none => exact Reaches.finish cursor
  | some close => exact (closingBrace?_reaches hclose).trans (Reaches.next close)

theorem readQuotedWithin_reaches (quote : Char) (steps : Nat) (cursor : Cursor) :
    cursor.Reaches (readQuotedWithin quote steps cursor).cursor := by
  induction steps generalizing cursor with
  | zero => exact Reaches.refl cursor
  | succ steps ih =>
    have hmark := Reaches.skipWhile cursor fun c => c != quote && c != '\x7b'
    unfold readQuotedWithin
    dsimp only
    generalize (cursor.skipWhile fun c => c != quote && c != '\x7b') = mark at hmark ⊢
    have hexpression := hmark.trans (readExpression_reaches mark)
    split
    · exact hmark
    · split
      · exact hmark.trans (Reaches.next mark)
      · split
        · exact hexpression
        · exact hexpression.trans (ih _)

theorem readQuoted_reaches (quote : Char) (cursor : Cursor) :
    cursor.Reaches (readQuoted quote cursor).cursor := by
  have hwithin := readQuotedWithin_reaches quote (cursor.rest.length + 1) cursor
  unfold readQuoted
  dsimp only
  split <;> exact hwithin

theorem readUnquotedWithin_reaches (steps : Nat) (textStart cursor : Cursor) :
    cursor.Reaches (readUnquotedWithin steps textStart cursor).cursor := by
  induction steps generalizing textStart cursor with
  | zero => exact Reaches.refl cursor
  | succ steps ih =>
    have hexpression := readExpression_reaches cursor
    unfold readUnquotedWithin
    dsimp only
    split
    · exact Reaches.refl cursor
    · split
      · split
        · exact hexpression
        · exact hexpression.trans (ih _ _)
      · exact (read_reaches cursor).trans (ih _ _)

theorem readValue_reaches (cursor : Cursor) : cursor.Reaches (readValue cursor).cursor := by
  have hstart := Reaches.skipWhile cursor isSeparator
  unfold readValue
  dsimp only
  generalize cursor.skipWhile isSeparator = start at hstart ⊢
  have hafter := hstart.trans (readHere_reaches start)
  split
  · exact hafter.trans (readQuoted_reaches _ _)
  · exact hafter.trans (readQuoted_reaches _ _)
  · exact Reaches.refl cursor
  · exact Reaches.refl cursor
  · exact Reaches.refl cursor
  · split
    · exact hstart.trans (readExpression_reaches start)
    · exact hstart.trans (readUnquotedWithin_reaches _ _ _)

end Fragment

namespace Attribute

theorem readNamed_reaches (start : Cursor) : start.Reaches (readNamed start).cursor := by
  have hname := Reaches.takeWhile start isNameChar
  unfold readNamed
  dsimp only
  split
  · exact (hname.trans (read_reaches _)).trans (Fragment.readValue_reaches _)
  · exact hname

theorem readBraced_reaches (start : Cursor) : start.Reaches (readBraced start).cursor := by
  have hexpression := Fragment.readExpression_reaches start
  unfold readBraced
  dsimp only
  split
  · exact hexpression
  · split <;> exact hexpression

end Attribute

end Markup

end TypedComponent
