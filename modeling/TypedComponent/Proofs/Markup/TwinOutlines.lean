import TypedComponent.Proofs.Markup.RoundTrip
import TypedComponent.Proofs.Markup.TwinAttributes

/-!
Outlines of two sources that are alike for a while. At the same place they hold
the same, at the offsets that it has in each source, and what was read before
the sources became alike stays below it. Every reader of a part is shown to add
the same to both, if it reads up to where the sources differ and finds no fault;
where the sources are alike to their ends it finds the same faults.
-/

namespace TypedComponent

theorem Text.startsWith_iff {text mark : Text} : startsWith text mark = true ↔ mark <+: text := by
  constructor
  · intro h
    obtain ⟨more, hmore⟩ := Option.isSome_iff_exists.mp h
    exact ⟨more, (eq_append_of_after? hmore).symm⟩
  · rintro ⟨more, rfl⟩
    exact startsWith_append mark more

/-- Where a mark is first found does not depend on what follows it. -/
theorem Text.splitAt?_behind {mark before tail : Text}
    (h : splitAt? mark (before ++ (mark ++ tail)) = some (before, mark ++ tail)) (other : Text) :
    splitAt? mark (before ++ (mark ++ other)) = some (before, mark ++ other) := by
  induction before with
  | nil =>
    have hhere := startsWith_append mark other
    rw [List.nil_append]
    cases hall : mark ++ other with
    | nil => simp [splitAt?, (List.append_eq_nil_iff.mp hall).1]
    | cons c rest =>
      rw [hall] at hhere
      rw [splitAt?, if_pos hhere]
  | cons c before ih =>
    rw [List.cons_append, splitAt?] at h ⊢
    have hnot : ¬ startsWith (c :: (before ++ (mark ++ tail))) mark = true := by
      intro hhere
      rw [if_pos hhere] at h
      cases h
    have hnot' : ¬ startsWith (c :: (before ++ (mark ++ other))) mark = true := by
      rw [startsWith_iff] at hnot ⊢
      intro hhere
      rw [← List.cons_append, ← List.append_assoc] at hhere hnot
      -- The mark would stand in front of where it is found, in the part that is the same.
      have hpart : mark <+: c :: before ++ mark :=
        List.prefix_of_prefix_length_le hhere (List.prefix_append _ _) (by
          rw [List.length_append]
          omega)
      exact hnot (hpart.trans (List.prefix_append _ _))
    rw [if_neg hnot] at h
    obtain ⟨⟨front, found⟩, hsplit, heq⟩ := Option.map_eq_some_iff.mp h
    cases heq
    rw [if_neg hnot', ih hsplit]
    rfl

namespace Cursor.Twin

variable {place : Nat → Nat} {rest rest' mark : Text} {a b found : Cursor}

/-- A mark that is found before the texts differ is found in both. -/
theorem find? (h : a.Twin place rest rest' b) (hfound : a.find? mark = some found)
    (hbehind : rest <:+ found.rest.drop mark.length) :
    ∃ found', b.find? mark = some found' ∧ found.Twin place rest rest' found' ∧
      Twin place rest rest' ⟨found.offset + Text.bytes mark, found.rest.drop mark.length⟩
        ⟨found'.offset + Text.bytes mark, found'.rest.drop mark.length⟩ := by
  obtain ⟨⟨before, after⟩, hsplit, rfl⟩ := Option.map_eq_some_iff.mp hfound
  obtain ⟨ha, tail, rfl⟩ := Text.splitAt?_eq_some hsplit
  obtain ⟨more, hmore⟩ := hbehind
  simp only [Cursor.past, List.drop_left] at hmore
  subst hmore
  rw [← List.append_assoc] at ha
  have hsame : before ++ mark ++ (more ++ rest) = before ++ ((mark ++ more) ++ rest) := by
    simp only [List.append_assoc]
  rw [ha, List.append_assoc] at hsplit
  obtain ⟨hb, htwin⟩ := h.pass (ha.trans hsame)
  refine ⟨b.past before (mark ++ (more ++ rest')), ?_, ?_, ?_⟩
  · rw [Cursor.find?, hb, List.append_assoc, Text.splitAt?_behind hsplit]
    rfl
  · simpa [Cursor.past] using htwin
  · obtain ⟨-, hafter⟩ := htwin.pass (show mark ++ more ++ rest = mark ++ (more ++ rest) from
      List.append_assoc mark more rest)
    simpa [Cursor.past] using hafter

theorem find?_none (h : a.Twin place [] [] b) (hnone : a.find? mark = none) :
    b.find? mark = none := by
  rw [Cursor.find?, Option.map_eq_none_iff] at hnone ⊢
  rw [h.rest_eq, hnone]

end Cursor.Twin

namespace Cursor.Reaches

variable {start stop : Cursor}

theorem suffix (h : start.Reaches stop) : stop.rest <:+ start.rest := by
  obtain ⟨passed, hpassed, -⟩ := h
  exact ⟨passed, hpassed.symm⟩

theorem offset_eq (h : start.Reaches stop) :
    stop.offset = start.offset + Text.bytes (start.textTo stop) := by
  obtain ⟨passed, hpassed, hoffset⟩ := h
  rw [textTo_eq hpassed hoffset, hoffset]

end Cursor.Reaches

namespace Markup

open Cursor (Reaches Twin)

/-- Where two texts differ reading ends without a fault, or they never differ. -/
def EndsAt (rest rest' : Text) (errors : List Error) (stop : Cursor) : Prop :=
  (rest = [] ∧ rest' = []) ∨ (errors = [] ∧ stop.rest = rest)

namespace EndsAt

variable {rest rest' : Text} {errors : List Error} {stop : Cursor}

theorem same (h : EndsAt rest rest' errors stop) (hfaults : errors ≠ []) :
    rest = [] ∧ rest' = [] :=
  h.resolve_right fun hclean => hfaults hclean.1

theorem suffix (h : EndsAt rest rest' errors stop) : rest <:+ stop.rest := by
  rcases h with ⟨rfl, -⟩ | ⟨-, rfl⟩
  · exact List.nil_suffix
  · exact List.suffix_refl _

end EndsAt

section Text

/-- What ends a text in front of it alike. -/
def Meets (text text' : Text) : Prop :=
  (text = [] ↔ text' = []) ∧ ∀ front, startsMarkup (front ++ text) = startsMarkup (front ++ text')

theorem Meets.refl (text : Text) : Meets text text := ⟨Iff.rfl, fun _ => rfl⟩

theorem Meets.behind {text text' : Text} (h : Meets text text') (front : Text) :
    Meets (front ++ text) (front ++ text') := by
  refine ⟨by simp [List.append_eq_nil_iff, h.1], fun more => ?_⟩
  rw [← List.append_assoc, ← List.append_assoc]
  exact h.2 _

/-- A text ends where markup begins, or in both texts at their ends. -/
theorem nextMarkup_passed {offset : Nat} {passed tail tail' : Text}
    (h : nextMarkup offset (passed ++ tail) = ⟨offset + Text.bytes passed, tail⟩)
    (hmeets : Meets tail tail') (offset' : Nat) :
    nextMarkup offset' (passed ++ tail') = ⟨offset' + Text.bytes passed, tail'⟩ := by
  induction passed generalizing offset offset' with
  | nil =>
    rw [List.nil_append] at h ⊢
    cases tail' with
    | nil => rfl
    | cons c' behind' =>
      obtain ⟨c, behind, rfl⟩ := List.exists_cons_of_ne_nil
        (fun hnil => List.cons_ne_nil _ _ (hmeets.1.mp hnil))
      have hstarts : startsMarkup (c :: behind) = true := by
        by_contra hnot
        rw [nextMarkup, if_neg hnot] at h
        have hle := (nextMarkup_reaches (offset + c.utf8Size) behind).offset_le
        rw [h] at hle
        have hpos := c.utf8Size_pos
        simp only [Text.bytes_nil] at hle
        omega
      have hstarts' : startsMarkup (c' :: behind') = true := (hmeets.2 []).symm.trans hstarts
      rw [nextMarkup, if_pos hstarts']
      rfl
  | cons c passed ih =>
    have hpos := c.utf8Size_pos
    rw [List.cons_append, nextMarkup] at h ⊢
    have hnot : ¬ startsMarkup (c :: (passed ++ tail)) = true := by
      intro hstarts
      rw [if_pos hstarts] at h
      have hoffset := congrArg Cursor.offset h
      simp only [Text.bytes_cons] at hoffset
      omega
    have hnot' : ¬ startsMarkup (c :: (passed ++ tail')) = true := by
      rwa [← List.cons_append, ← hmeets.2 (c :: passed)]
    rw [if_neg hnot, Text.bytes_cons, ← Nat.add_assoc] at h
    rw [if_neg hnot', ih h, Text.bytes_cons, Nat.add_assoc]

theorem nextMarkup_twin {place : Nat → Nat} {rest rest' : Text} {a b stop stop' : Cursor}
    (h : a.Twin place rest rest' b) (hfound : nextMarkup a.offset a.rest = stop)
    (hstop : stop.Twin place rest rest' stop') (hmeets : Meets stop.rest stop'.rest) :
    nextMarkup b.offset b.rest = stop' := by
  have hreach : a.Reaches stop := by
    rw [← hfound]
    exact nextMarkup_reaches _ _
  obtain ⟨hreach', htext, -⟩ := h.between hstop hreach
  have hown : nextMarkup a.offset (a.textTo stop ++ stop.rest) =
      ⟨a.offset + Text.bytes (a.textTo stop), stop.rest⟩ := by
    rw [← hreach.rest_eq, ← hreach.offset_eq]
    exact hfound
  rw [hreach'.rest_eq, htext, nextMarkup_passed hown hmeets, ← htext, ← hreach'.offset_eq]

end Text

section ClosingTag

variable {place : Nat → Nat} {rest rest' : Text} {a b : Cursor}

/-- What is skipped of a closing tag goes up to the sign at its end. -/
theorem skipClosingTagWithin_inTag {steps : Nat} (hsteps : a.rest.length < steps)
    (hends : EndsAt rest rest' (skipClosingTagWithin steps a).errors
      (skipClosingTagWithin steps a).cursor) : InTag rest rest' a := by
  refine hends.imp id fun ⟨hclean, hstop⟩ => ?_
  obtain ⟨middle, -, htext⟩ := (skipClosingTagWithin_spec hsteps).2 hclean
  refine ⟨middle, ?_⟩
  rw [(skipClosingTagWithin_reaches steps a).rest_eq, htext, hstop, List.append_assoc]
  rfl

theorem skipClosingTagWithin_twin {steps steps' : Nat} {a b : Cursor}
    (hsteps : a.rest.length < steps) (hsteps' : b.rest.length < steps')
    (h : a.Twin place rest rest' b)
    (hends : EndsAt rest rest' (skipClosingTagWithin steps a).errors
      (skipClosingTagWithin steps a).cursor) :
    (skipClosingTagWithin steps a).Twin place rest rest' id (skipClosingTagWithin steps' b) := by
  induction steps generalizing steps' a b with
  | zero => omega
  | succ steps ih =>
    obtain ⟨steps', rfl⟩ := Nat.exists_eq_succ_of_ne_zero (Nat.ne_of_gt (Nat.zero_lt_of_lt hsteps'))
    obtain ⟨htoken, hafter⟩ := read_twin h (skipClosingTagWithin_inTag hsteps hends)
    have hkind : (Token.read b).1.kind = (Token.read a).1.kind := by rw [htoken]; rfl
    unfold skipClosingTagWithin at hends ⊢
    dsimp only at hends ⊢
    rw [hkind]
    split
    · exact ⟨rfl, rfl, hafter⟩
    · exact ⟨rfl, by simp [Error.renumbered, htoken, Token.renumbered, Span.renumbered, Span.empty],
        hafter⟩
    · next hclose hfinish =>
      have hpasses := read_passes hfinish
      have hpasses' := read_passes (hkind ▸ hfinish)
      refine ih (by omega) (by omega) hafter ?_
      split at hends
      · contradiction
      · contradiction
      · exact hends

theorem skipClosingTag_inTag
    (hends : EndsAt rest rest' (skipClosingTag a).errors (skipClosingTag a).cursor) :
    InTag rest rest' a :=
  skipClosingTagWithin_inTag (Nat.lt_succ_self _) hends

theorem skipClosingTag_twin (h : a.Twin place rest rest' b)
    (hends : EndsAt rest rest' (skipClosingTag a).errors (skipClosingTag a).cursor) :
    (skipClosingTag a).Twin place rest rest' id (skipClosingTag b) :=
  skipClosingTagWithin_twin (Nat.lt_succ_self _) (Nat.lt_succ_self _) h hends

end ClosingTag

/-- Lists, with the latest first, to which the same was added. -/
def Grown {α : Type} (renumber : α → α) (base base' list list' : List α) : Prop :=
  ∃ added, list = added ++ base ∧ list' = added.map renumber ++ base'

namespace Grown

variable {α : Type} {renumber : α → α} {base base' list list' : List α}

theorem refl : Grown renumber base base' base base' := ⟨[], rfl, rfl⟩

theorem append (more : List α) (h : Grown renumber base base' list list') :
    Grown renumber base base' (more ++ list) (more.map renumber ++ list') := by
  obtain ⟨added, rfl, rfl⟩ := h
  exact ⟨more ++ added, by rw [List.append_assoc], by rw [List.map_append, List.append_assoc]⟩

theorem cons (latest : α) (h : Grown renumber base base' list list') :
    Grown renumber base base' (latest :: list) (renumber latest :: list') :=
  h.append [latest]

theorem eq_map (h : Grown renumber [] base' list list') :
    list' = list.map renumber ++ base' := by
  obtain ⟨added, rfl, rfl⟩ := h
  rw [List.append_nil]

end Grown

namespace Outline

/-- Outlines at the same place of two sources, with the same read on top of what
`first` and `second` hold. -/
structure Twin (place : Nat → Nat) (rest rest' : Text) (outline first second outline' : Outline) :
    Prop where
  cursor : outline.cursor.Twin place rest rest' outline'.cursor
  opened : outline'.opened = outline.opened.map (·.renumbered place)
  nodes : Grown (·.renumbered place) first.nodes second.nodes outline.nodes outline'.nodes
  scripts : Grown (·.renumbered place) first.scripts second.scripts outline.scripts
    outline'.scripts
  styles : Grown (·.renumbered place) first.styles second.styles outline.styles outline'.styles
  errors : Grown (·.renumbered place) first.errors second.errors outline.errors outline'.errors

namespace Twin

variable {place : Nat → Nat} {rest rest' : Text} {first second o o' : Outline}
  {cursor cursor' : Cursor}

theorem advance (h : o.Twin place rest rest' first second o') (errors : List Error)
    (hcursor : cursor.Twin place rest rest' cursor') :
    (o.advance errors cursor).Twin place rest rest' first second
      (o'.advance (errors.map (·.renumbered place)) cursor') where
  cursor := hcursor
  opened := h.opened
  nodes := h.nodes
  scripts := h.scripts
  styles := h.styles
  errors := by
    have hall := h.errors.append errors.reverse
    rwa [List.map_reverse] at hall

theorem add (h : o.Twin place rest rest' first second o') (node : Node) :
    (o.add node).Twin place rest rest' first second (o'.add (node.renumbered place)) := by
  have hopened := h.opened
  unfold Outline.add
  cases hown : o.opened with
  | nil =>
    rw [hown] at hopened
    rw [hopened]
    exact { h with nodes := h.nodes.cons node, opened := rfl }
  | cons innermost outer =>
    rw [hown] at hopened
    rw [hopened]
    exact { h with opened := rfl }

theorem close (h : o.Twin place rest rest' first second o') :
    o.close.Twin place rest rest' first second o'.close := by
  have hopened := h.opened
  unfold Outline.close
  cases hown : o.opened with
  | nil =>
    rw [hown] at hopened
    rw [hopened]
    exact h
  | cons innermost outer =>
    rw [hown] at hopened
    have houter : { o with opened := outer }.Twin place rest rest' first second
        { o' with opened := outer.map (OpenElement.renumbered place) } := { h with opened := rfl }
    have hall := houter.add (.element ⟨innermost.start, o.cursor.offset⟩ innermost.name
      innermost.attributes false innermost.children.reverse)
    rw [Node.renumbered_element, List.map_reverse] at hall
    rw [hopened, ← h.cursor.offset_eq]
    exact hall

theorem addRaw (h : o.Twin place rest rest' first second o') (name : Text)
    (attributes : List Attribute) (span content : Span) (blank : Bool) :
    (o.addRaw name attributes span content blank).Twin place rest rest' first second
      (o'.addRaw name (attributes.map (·.renumbered place)) (span.renumbered place)
        (content.renumbered place) blank) := by
  have hopened : o'.opened.isEmpty = o.opened.isEmpty := by rw [h.opened, List.isEmpty_map]
  unfold Outline.addRaw
  rw [hopened, scriptContext_renumbered, scriptLanguage_renumbered]
  split
  · exact h.add (.element span name attributes false [.text content blank])
  · split
    · exact { h with scripts := h.scripts.cons ⟨span, content, _, _, attributes⟩ }
    · exact { h with styles := h.styles.cons ⟨span, content, attributes⟩ }

/-- Texts that differ behind a place are alike up to it. -/
theorem within (h : o.Twin place rest rest' first second o')
    (hcursor : cursor.Twin place rest rest' cursor') (hreach : o.cursor.Reaches cursor) :
    o.Twin place cursor.rest cursor'.rest first second o' :=
  { h with cursor := h.cursor.within hcursor hreach }

/-- What is alike up to a place of two texts is alike beyond it. -/
theorem beyond (h : o.Twin place o.cursor.rest cursor'.rest first second o')
    (hcursor : o.cursor.Twin place rest rest' cursor') :
    o.Twin place rest rest' first second o' := by
  have hsame := (hcursor.within hcursor (Reaches.refl _)).unique h.cursor
  rw [hsame] at hcursor
  exact { h with cursor := hcursor }

end Twin

@[simp] theorem addRaw_errors (outline : Outline) (name : Text) (attributes : List Attribute)
    (span content : Span) (blank : Bool) :
    (outline.addRaw name attributes span content blank).errors = outline.errors := by
  unfold addRaw
  split
  · exact add_errors _ _
  · split <;> rfl

@[simp] theorem addRaw_cursor (outline : Outline) (name : Text) (attributes : List Attribute)
    (span content : Span) (blank : Bool) :
    (outline.addRaw name attributes span content blank).cursor = outline.cursor := by
  unfold addRaw
  split
  · exact add_cursor _ _
  · split <;> rfl

section Readers

variable {place : Nat → Nat} {rest rest' : Text} {first second o o' : Outline}
  {inside inside' afterSign afterSign' stop' : Cursor}

theorem readText_twin_of_stop (h : o.Twin place rest rest' first second o')
    (hstop : o.readText.cursor.Twin place rest rest' stop')
    (hfound : nextMarkup o'.cursor.next.offset o'.cursor.next.rest = stop') :
    o.readText.Twin place rest rest' first second o'.readText := by
  have hcursor : o.readText.cursor =
      nextMarkup o.cursor.next.offset o.cursor.next.rest := add_cursor _ _
  rw [hcursor] at hstop
  have hreach := nextMarkup_reaches o.cursor.next.offset o.cursor.next.rest
  obtain ⟨-, hall, -⟩ := h.cursor.between hstop ((Reaches.next _).trans hreach)
  unfold readText
  dsimp only
  rw [hfound, hall, h.cursor.upTo_eq hstop]
  exact (h.advance [] hstop).add (.text _ _)

theorem readText_twin (h : o.Twin place rest rest' first second o') (hmore : o.cursor.rest ≠ [])
    (hstop : o.readText.cursor.Twin place rest rest' stop')
    (hmeets : Meets o.readText.cursor.rest stop'.rest) :
    o.readText.Twin place rest rest' first second o'.readText := by
  obtain ⟨c, behind, hrest⟩ := List.exists_cons_of_ne_nil hmore
  have hcursor : o.readText.cursor =
      nextMarkup o.cursor.next.offset o.cursor.next.rest := add_cursor _ _
  refine readText_twin_of_stop h hstop ?_
  rw [hcursor] at hstop hmeets
  have hbehind : rest <:+ behind := by
    have hsuffix := hstop.suffix.trans
      (nextMarkup_reaches o.cursor.next.offset o.cursor.next.rest).suffix
    rwa [Cursor.next, hrest] at hsuffix
  exact nextMarkup_twin (h.cursor.next hrest hbehind) rfl hstop hmeets

theorem readComment_twin {mark : Text} (h : o.Twin place rest rest' first second o')
    (hinside : inside.Twin place rest rest' inside')
    (hends : EndsAt rest rest' (o.readComment inside mark).errors
      (o.readComment inside mark).cursor) :
    (o.readComment inside mark).Twin place rest rest' first second
      (o'.readComment inside' mark) := by
  unfold readComment at hends ⊢
  dsimp only at hends ⊢
  cases hfound : inside.find? mark with
  | none =>
    rw [hfound] at hends
    obtain ⟨rfl, rfl⟩ := hends.same (by simp [advance])
    rw [hinside.find?_none hfound, h.cursor.upTo_eq h.cursor.finish]
    exact (h.advance [_] h.cursor.finish).add (.comment _)
  | some found =>
    rw [hfound] at hends
    obtain ⟨found', hfound', -, hstop⟩ :=
      hinside.find? hfound (by simpa [advance] using hends.suffix)
    rw [hfound']
    dsimp only
    rw [h.cursor.upTo_eq hstop]
    exact (h.advance [] hstop).add (.comment _)

theorem readMustache_twin (kind : TokenKind) (h : o.Twin place rest rest' first second o')
    (hinside : inside.Twin place rest rest' inside')
    (hends : EndsAt rest rest' (o.readMustache kind inside).errors
      (o.readMustache kind inside).cursor) :
    (o.readMustache kind inside).Twin place rest rest' first second
      (o'.readMustache kind inside') := by
  unfold readMustache at hends ⊢
  dsimp only at hends ⊢
  cases hclose : closingBrace? o.cursor with
  | none =>
    rw [hclose] at hends
    obtain ⟨rfl, rfl⟩ := hends.same (by simp [advance])
    rw [closingBrace?_none h.cursor.rest_eq hclose, h.cursor.upTo_eq h.cursor.finish]
    exact (h.advance [_] h.cursor.finish).add (.text _ false)
  | some close =>
    rw [hclose] at hends
    obtain ⟨close', hclose', htwin, hnext⟩ :=
      closingBrace?_twin h.cursor hclose (by simpa [advance] using hends.suffix)
    rw [hclose']
    dsimp only
    rw [h.cursor.upTo_eq hnext, hinside.upTo_eq htwin]
    exact (h.advance [] hnext).add (.mustache _ _ _)

/-- The name that a closing tag is read with, which may be empty. -/
def closingName (afterSign : Cursor) : Text :=
  ((afterSign.skipWhile isSeparator).takeWhile isNameChar).1

/-- Where that name ends. -/
def closingStop (afterSign : Cursor) : Cursor :=
  if (closingName afterSign).isEmpty then afterSign
  else ((afterSign.skipWhile isSeparator).takeWhile isNameChar).2

theorem readClosingTag_eq (outline : Outline) (afterSign : Cursor) :
    outline.readClosingTag afterSign =
      let name := closingName afterSign
      let span := outline.cursor.upTo (closingStop afterSign)
      let skipped := skipClosingTag (closingStop afterSign)
      match outline.opened with
      | [] =>
        outline.advance (⟨.unexpectedClosingTag name, span⟩ :: skipped.errors) skipped.cursor
      | innermost :: outer =>
        if innermost.name = name then
          (outline.advance skipped.errors skipped.cursor).close
        else if outer.any (·.name = name) then
          (outline.advance [⟨.unclosedTag innermost.name, span⟩] outline.cursor).close
        else
          outline.advance (⟨.mismatchedClosingTag innermost.name name, span⟩ :: skipped.errors)
            skipped.cursor := rfl

theorem closingStop_reaches (afterSign : Cursor) : afterSign.Reaches (closingStop afterSign) := by
  unfold closingStop
  split
  · exact Reaches.refl _
  · exact (Reaches.skipWhile _ _).trans (Reaches.takeWhile _ _)

/-- Only a closing tag that closes the innermost element is no fault. -/
theorem readClosingTag_ends
    (hends : EndsAt rest rest' (o.readClosingTag afterSign).errors
      (o.readClosingTag afterSign).cursor) :
    EndsAt rest rest' (skipClosingTag (closingStop afterSign)).errors
      (skipClosingTag (closingStop afterSign)).cursor := by
  refine hends.imp id fun ⟨hclean, hstop⟩ => ?_
  rw [readClosingTag_eq] at hclean hstop
  dsimp only at hclean hstop
  split at hclean
  · simp [advance] at hclean
  · next innermost outer hopened =>
    rw [hopened] at hstop
    split at hclean
    · next heq =>
      dsimp only at hstop
      rw [if_pos heq] at hstop
      simp only [close_errors, close_cursor, advance, List.append_eq_nil_iff,
        List.reverse_eq_nil_iff] at hclean hstop
      exact ⟨hclean.1, hstop⟩
    · split at hclean <;> simp [advance] at hclean

theorem readClosingTag_inTag
    (hends : EndsAt rest rest' (o.readClosingTag afterSign).errors
      (o.readClosingTag afterSign).cursor) : InTag rest rest' afterSign :=
  (skipClosingTag_inTag (readClosingTag_ends hends)).of_reaches (closingStop_reaches afterSign)

theorem closing_twin (h : afterSign.Twin place rest rest' afterSign')
    (hin : InTag rest rest' afterSign) :
    closingName afterSign' = closingName afterSign ∧
      (closingStop afterSign).Twin place rest rest' (closingStop afterSign') := by
  have hgap : InTag rest rest' (afterSign.skipWhile isSeparator) := hin.takeWhile (by decide)
  obtain ⟨hname, hstop⟩ := takeWhile_twin (p := isNameChar) (skipWhile_twin h hgap)
    (hgap.takeWhile (by decide))
  have hsame : closingName afterSign' = closingName afterSign := hname
  refine ⟨hsame, ?_⟩
  unfold closingStop
  rw [hsame]
  split
  · exact h
  · exact hstop

theorem readClosingTag_twin (h : o.Twin place rest rest' first second o')
    (hafter : afterSign.Twin place rest rest' afterSign')
    (hends : EndsAt rest rest' (o.readClosingTag afterSign).errors
      (o.readClosingTag afterSign).cursor) :
    (o.readClosingTag afterSign).Twin place rest rest' first second
      (o'.readClosingTag afterSign') := by
  obtain ⟨hname, hstop⟩ := closing_twin hafter (readClosingTag_inTag hends)
  obtain ⟨-, herrors, hcursor⟩ := skipClosingTag_twin hstop (readClosingTag_ends hends)
  rw [readClosingTag_eq, readClosingTag_eq, h.opened]
  dsimp only
  rw [hname, herrors, h.cursor.upTo_eq hstop]
  generalize skipClosingTag (closingStop afterSign) = skipped at hcursor ⊢
  generalize o.cursor.upTo (closingStop afterSign) = span
  cases o.opened with
  | nil => exact h.advance (⟨.unexpectedClosingTag _, span⟩ :: skipped.errors) hcursor
  | cons innermost outer =>
    simp only [List.map_cons, List.any_map, Function.comp_def, OpenElement.renumbered]
    split
    · exact (h.advance skipped.errors hcursor).close
    · split
      · exact (h.advance [⟨.unclosedTag innermost.name, span⟩] h.cursor).close
      · exact h.advance (⟨.mismatchedClosingTag innermost.name _, span⟩ :: skipped.errors) hcursor

theorem readRawEnd_reaches (start inside : Cursor) (name : Text) :
    inside.Reaches (readRawEnd start inside name).1 ∧
      (readRawEnd start inside name).1.Reaches (readRawEnd start inside name).2.cursor := by
  unfold readRawEnd
  dsimp only
  split
  · next found hfound =>
    obtain ⟨hbefore, hmark⟩ := Cursor.find?_reaches hfound
    exact ⟨hbefore, hmark.trans (skipClosingTag_reaches _)⟩
  · exact ⟨Reaches.finish inside, Reaches.refl _⟩

theorem readRawEnd_twin {start start' : Cursor} (name : Text)
    (hstart : start.Twin place rest rest' start') (hinside : inside.Twin place rest rest' inside')
    (hends : EndsAt rest rest' (readRawEnd start inside name).2.errors
      (readRawEnd start inside name).2.cursor) :
    (readRawEnd start inside name).1.Twin place rest rest' (readRawEnd start' inside' name).1 ∧
      (readRawEnd start inside name).2.Twin place rest rest' id
        (readRawEnd start' inside' name).2 := by
  unfold readRawEnd at hends ⊢
  dsimp only at hends ⊢
  cases hfound : inside.find? ("</".toList ++ name) with
  | none =>
    rw [hfound] at hends
    obtain ⟨rfl, rfl⟩ := hends.same (List.cons_ne_nil _ _)
    rw [hinside.find?_none hfound]
    dsimp only
    rw [hstart.upTo_eq hinside.finish]
    exact ⟨hinside.finish, rfl, rfl, hinside.finish⟩
  | some found =>
    rw [hfound] at hends
    obtain ⟨found', hfound', htwin, hafter⟩ :=
      hinside.find? hfound (skipClosingTag_inTag hends).suffix
    rw [hfound']
    exact ⟨htwin, skipClosingTag_twin hafter hends⟩

theorem readRaw_twin {start start' : Cursor} {name : Text} {attributes : List Attribute}
    (h : o.Twin place rest rest' first second o') (hstart : start.Twin place rest rest' start')
    (hends : EndsAt rest rest' (o.readRaw start name attributes).errors
      (o.readRaw start name attributes).cursor) :
    (o.readRaw start name attributes).Twin place rest rest' first second
      (o'.readRaw start' name (attributes.map (·.renumbered place))) := by
  unfold readRaw at hends ⊢
  dsimp only at hends ⊢
  have hclosed : EndsAt rest rest' (readRawEnd start o.cursor name).2.errors
      (readRawEnd start o.cursor name).2.cursor := by
    refine hends.imp id fun ⟨hclean, hstop⟩ => ?_
    rw [addRaw_errors] at hclean
    rw [addRaw_cursor] at hstop
    simp only [advance, List.append_eq_nil_iff, List.reverse_eq_nil_iff] at hclean
    exact ⟨hclean.1, hstop⟩
  obtain ⟨hstop, -, herrors, hcursor⟩ := readRawEnd_twin name hstart h.cursor hclosed
  obtain ⟨-, hcontent, -⟩ := h.cursor.between hstop (readRawEnd_reaches start o.cursor name).1
  rw [hcontent, herrors, hstart.upTo_eq hcursor, h.cursor.upTo_eq hstop]
  exact (h.advance _ hcursor).addRaw name attributes _ _ _

end Readers

end Outline

end Markup

end TypedComponent
