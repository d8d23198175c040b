import TypedComponent.Proofs.Markup.Tags

/-!
What one step of reading an outline can do. Whatever begins at the cursor, the
step passes some text and then adds a node without open ends, adds a block,
opens an element, closes one or does nothing more; what holds of an outline is
shown for these and carried through a run at once.
-/

namespace TypedComponent.Markup

open Cursor (Reaches)

theorem nextMarkup_reaches (offset : Nat) (text : Text) :
    Reaches ⟨offset, text⟩ (nextMarkup offset text) := by
  induction text generalizing offset with
  | nil => exact Reaches.refl _
  | cons c rest ih =>
    unfold nextMarkup
    split
    · exact Reaches.refl _
    · exact (ih _).cons

theorem leading_bang (rest : Text) :
    (TokenKind.leading ('<' :: '!' :: rest)).1 = .commentOpen ∨
      (TokenKind.leading ('<' :: '!' :: rest)).1 = .angleBang := by
  unfold TokenKind.leading
  split <;> grind

/-- The sign of an expression is not part of what is inside of its braces. -/
theorem readHere_brace {cursor : Cursor} {rest : Text} (hrest : cursor.rest = '\x7b' :: rest) :
    (Token.readHere cursor).1.kind.opensBrace = true ∧
      ∀ close, closingBrace? cursor = some close → (Token.readHere cursor).2.Reaches close := by
  have hinside {close : Cursor} (hclose : closingBrace? cursor = some close) :
      closingBraceIn .code [.brace] (cursor.offset + 1) rest = some close := by
    rw [closingBrace?, hrest] at hclose
    exact hclose
  unfold Token.readHere
  rw [hrest]
  dsimp only
  cases rest with
  | nil => exact ⟨rfl, fun close hclose => closingBraceIn_reaches (hinside hclose)⟩
  | cons c rest =>
    by_cases hsign : c = '#' ∨ c = ':' ∨ c = '/' ∨ c = '@'
    · rcases hsign with rfl | rfl | rfl | rfl
      all_goals exact ⟨rfl, fun close hclose => closingBraceIn_tail (by decide) (hinside hclose)⟩
    · have hleading : TokenKind.leading ('\x7b' :: c :: rest) = (.brace, 1) := by
        simp_all [TokenKind.leading]
      rw [hleading]
      exact ⟨rfl, fun close hclose => closingBraceIn_reaches (hinside hclose)⟩

/-- What begins markup: a closing tag, a comment or declaration, an opening tag or an
expression. -/
theorem startsMarkup_cases {text : Text} (h : startsMarkup text = true) :
    (∃ rest, text = '<' :: '/' :: rest) ∨ (∃ rest, text = '<' :: '!' :: rest) ∨
      (∃ c rest, text = '<' :: c :: rest ∧ Text.isAsciiLetter c = true) ∨
        ∃ rest, text = '\x7b' :: rest := by
  unfold startsMarkup at h
  split at h
  · exact .inr (.inr (.inr ⟨_, rfl⟩))
  · next c rest =>
    simp only [Bool.or_eq_true, decide_eq_true_eq] at h
    rcases h with (rfl | rfl) | hletter
    · exact .inl ⟨_, rfl⟩
    · exact .inr (.inl ⟨_, rfl⟩)
    · exact .inr (.inr (.inl ⟨_, _, rfl, hletter⟩))
  · cases h

theorem isNameChar_of_isAsciiLetter {c : Char} (h : Text.isAsciiLetter c = true) :
    isNameChar c = true := by
  rw [← Bool.not_eq_false]
  intro hc
  simp only [isNameChar, isSeparator, Bool.and_eq_false_iff, Bool.not_eq_false', Bool.or_eq_true,
    bne_eq_false_iff_eq, decide_eq_true_eq] at hc
  rcases hc with (((((((((((rfl | rfl) | rfl) | rfl) | rfl) | rfl) | rfl) | rfl) | rfl) | rfl) | rfl) | rfl) | rfl <;>
    exact absurd h (by decide)

theorem leading_letter {c : Char} (rest : Text) (h : Text.isAsciiLetter c = true) :
    TokenKind.leading ('<' :: c :: rest) = (.angle, 1) := by
  have hslash : c ≠ '/' := by
    rintro rfl
    exact absurd h (by decide)
  have hbang : c ≠ '!' := by
    rintro rfl
    exact absurd h (by decide)
  simp_all [TokenKind.leading]

namespace Outline

theorem advance_advance (outline : Outline) (first second : List Error) (between last : Cursor) :
    (outline.advance first between).advance second last =
      outline.advance (first ++ second) last := by
  simp [advance]

/-- The places of a raw element: the content between the tags, and the closing
tag, which is there or missed. -/
structure Encloses (span content : Span) (errors : List Error) : Prop where
  start_le : span.start ≤ content.start
  content_le : content.start ≤ content.stop
  stop_le : content.stop ≤ span.stop
  closed : content.stop < span.stop ∨ errors ≠ []

/-- The tags of a raw element that is read from one place to another: an opening
tag, which is not empty, up to the content, and behind the content a closing
tag or the end of the source. -/
def Tagged (start stop : Cursor) (content : Span) : Prop :=
  ∃ inside ending : Cursor, start.Reaches inside ∧ inside.Reaches ending ∧ ending.Reaches stop ∧
    start.offset < inside.offset ∧ content = inside.upTo ending ∧
    (ending.offset < stop.offset ∨ (ending.offset = stop.offset ∧ stop.rest = []))

inductive Step (outline : Outline) : Outline → Prop
  /-- A node is read as a whole. -/
  | node (errors : List Error) (cursor : Cursor) (found : Node)
      (reaches : outline.cursor.Reaches cursor)
      (whole : found.Whole errors outline.cursor cursor)
      (faults : FaultsBehind outline.cursor errors)
      (passes : cursor.rest.length < outline.cursor.rest.length) :
      Step outline ((outline.advance errors cursor).add found)
  | script (errors : List Error) (cursor : Cursor) (block : ScriptBlock)
      (reaches : outline.cursor.Reaches cursor)
      (span : block.span = outline.cursor.upTo cursor)
      (encloses : Encloses block.span block.content errors)
      (tagged : Tagged outline.cursor cursor block.content)
      (enclosed : Enclosed errors outline.cursor cursor block.attributes block.content)
      (outermost : outline.opened = []) (faults : FaultsBehind outline.cursor errors)
      (passes : cursor.rest.length < outline.cursor.rest.length) :
      Step outline { outline.advance errors cursor with scripts := block :: outline.scripts }
  | style (errors : List Error) (cursor : Cursor) (block : StyleBlock)
      (reaches : outline.cursor.Reaches cursor)
      (span : block.span = outline.cursor.upTo cursor)
      (encloses : Encloses block.span block.content errors)
      (enclosed : Enclosed errors outline.cursor cursor block.attributes block.content)
      (outermost : outline.opened = []) (faults : FaultsBehind outline.cursor errors)
      (passes : cursor.rest.length < outline.cursor.rest.length) :
      Step outline { outline.advance errors cursor with styles := block :: outline.styles }
  /-- An opening tag has at least its sign and a letter. -/
  | opening (errors : List Error) (cursor : Cursor) (element : OpenElement)
      (reaches : outline.cursor.Reaches cursor) (children : element.children = [])
      (start : element.start = outline.cursor.offset)
      (opens : Opens errors outline.cursor cursor element.name element.attributes)
      (faults : FaultsBehind outline.cursor errors)
      (passes : cursor.rest.length + 1 < outline.cursor.rest.length) :
      Step outline { outline.advance errors cursor with opened := element :: outline.opened }
  /-- An element is closed by its closing tag, or before what is none of it. -/
  | closing (errors : List Error) (cursor : Cursor)
      (reaches : outline.cursor.Reaches cursor)
      (closes : ∃ innermost outer, outline.opened = innermost :: outer ∧
        (errors = [] → IsClosingTag innermost.name (outline.cursor.textTo cursor)))
      (faults : FaultsBehind outline.cursor errors) :
      Step outline (outline.advance errors cursor).close
  /-- A closing tag that closes nothing is a fault, and behind the end of the
  source nothing is left to do. -/
  | skipping (errors : List Error) (cursor : Cursor)
      (reaches : outline.cursor.Reaches cursor) (faults : FaultsBehind outline.cursor errors)
      (skipped : (errors ≠ [] ∧ cursor.rest.length < outline.cursor.rest.length) ∨
        (outline.isFinished = true ∧ cursor = outline.cursor)) :
      Step outline (outline.advance errors cursor)

section Step

variable {outline : Outline} {c : Char} {rest : Text}

theorem length_lt_of_reaches_next {cursor : Cursor} (hrest : outline.cursor.rest = c :: rest)
    (h : outline.cursor.next.Reaches cursor) :
    cursor.rest.length < outline.cursor.rest.length := by
  have hle := h.length_le
  simp only [Cursor.next, hrest] at hle
  rw [hrest, List.length_cons]
  omega

theorem length_finish_lt (hrest : outline.cursor.rest = c :: rest) :
    outline.cursor.finish.rest.length < outline.cursor.rest.length := by
  rw [hrest, List.length_cons]
  exact Nat.succ_pos _

theorem readText_step (hrest : outline.cursor.rest = c :: rest) : Step outline outline.readText := by
  have hnext := nextMarkup_reaches outline.cursor.next.offset outline.cursor.next.rest
  exact Step.node [] _ _ ((Reaches.next _).trans hnext) (.text _) (FaultsBehind.nil _)
    (length_lt_of_reaches_next hrest hnext)

theorem readComment_step {inside : Cursor} (mark : Text) (hrest : outline.cursor.rest = c :: rest)
    (hinside : outline.cursor.Reaches inside) (hpast : inside.rest.length ≤ rest.length) :
    Step outline (outline.readComment inside mark) := by
  unfold readComment
  dsimp only
  split
  · next found hfound =>
    obtain ⟨hbefore, hmark⟩ := Cursor.find?_reaches hfound
    have hstop := hbefore.trans hmark
    refine Step.node [] _ _ (hinside.trans hstop) .comment (FaultsBehind.nil _) ?_
    have hle := hstop.length_le
    rw [hrest, List.length_cons]
    omega
  · exact Step.node _ _ _ (Reaches.finish _) .comment
      (FaultsBehind.upTo (Reaches.refl _) (Reaches.finish _) _) (length_finish_lt hrest)

/-- The inner part of an expression begins behind its brace and sign. -/
theorem readMustache_step {kind : TokenKind} {inside : Cursor}
    (hrest : outline.cursor.rest = c :: rest) (hinside : outline.cursor.Reaches inside)
    (hinner : ∀ close, closingBrace? outline.cursor = some close → inside.Reaches close) :
    Step outline (outline.readMustache kind inside) := by
  unfold readMustache
  dsimp only
  split
  · next close hclose =>
    obtain ⟨more, hmore⟩ := closingBraceIn_rest hclose
    have hreach := closingBrace?_reaches hclose
    refine Step.node [] _ _ (hreach.trans (Reaches.next close))
      (.mustache _ hinside (hinner close hclose) (Reaches.next close)) (FaultsBehind.nil _) ?_
    have hle := hreach.length_le
    simp only [Cursor.next, hmore]
    rw [hmore, List.length_cons] at hle
    omega
  · exact Step.node _ _ _ (Reaches.finish _) (.text _)
      (FaultsBehind.upTo (Reaches.refl _) (Reaches.finish _) _) (length_finish_lt hrest)

end Step

theorem readRawEnd_spec {start inside : Cursor} (name : Text) (hinside : start.Reaches inside) :
    inside.Reaches (readRawEnd start inside name).1 ∧
      (readRawEnd start inside name).1.Reaches (readRawEnd start inside name).2.cursor ∧
      Encloses (start.upTo (readRawEnd start inside name).2.cursor)
        (inside.upTo (readRawEnd start inside name).1)
        (readRawEnd start inside name).2.errors ∧
      ((readRawEnd start inside name).1.offset < (readRawEnd start inside name).2.cursor.offset ∨
        ((readRawEnd start inside name).1.offset =
            (readRawEnd start inside name).2.cursor.offset ∧
          (readRawEnd start inside name).2.cursor.rest = [])) := by
  unfold readRawEnd
  dsimp only
  split
  · rename_i found hfind
    obtain ⟨hbefore, hmark⟩ := Cursor.find?_reaches hfind
    have hskip := skipClosingTag_reaches
      ⟨found.offset + Text.bytes ("</".toList ++ name),
        found.rest.drop ("</".toList ++ name).length⟩
    have hpos : 0 < Text.bytes "</".toList := by decide
    have hmarkBytes := Text.bytes_append "</".toList name
    have hle := hskip.offset_le
    dsimp only at hle ⊢
    have hlt : found.offset < (skipClosingTag ⟨found.offset + Text.bytes ("</".toList ++ name),
        found.rest.drop ("</".toList ++ name).length⟩).cursor.offset := by
      omega
    exact ⟨hbefore, hmark.trans hskip, ⟨hinside.offset_le, hbefore.offset_le,
      (hmark.trans hskip).offset_le, .inl hlt⟩, .inl hlt⟩
  · have hfinish := Reaches.finish inside
    exact ⟨hfinish, Reaches.refl _, ⟨hinside.offset_le, hfinish.offset_le, Nat.le_refl _,
      .inr (by simp)⟩, .inr ⟨rfl, rfl⟩⟩

theorem readRawEnd_faults {start inside : Cursor} (name : Text) (hinside : start.Reaches inside) :
    FaultsBehind start (readRawEnd start inside name).2.errors := by
  unfold readRawEnd
  dsimp only
  split
  · next found hfind =>
    obtain ⟨hbefore, hmark⟩ := Cursor.find?_reaches hfind
    exact (skipClosingTag_spec _).1.mono ((hinside.trans hbefore).trans hmark)
  · exact FaultsBehind.upTo (Reaches.refl _) (hinside.trans (Reaches.finish _)) _

theorem Encloses.append {span content : Span} {errors : List Error}
    (h : Encloses span content errors) (first : List Error) :
    Encloses span content (first ++ errors) where
  start_le := h.start_le
  content_le := h.content_le
  stop_le := h.stop_le
  closed := by
    rcases h.closed with hlt | hne
    · exact .inl hlt
    · exact .inr (by simp [hne])

theorem addRaw_step {outline : Outline} {errors : List Error} {cursor : Cursor} {name : Text}
    {attributes : List Attribute} {content : Span} (blank : Bool)
    (hname : (isScriptName name || isStyleName name) = true)
    (hreach : outline.cursor.Reaches cursor)
    (hencloses : Encloses (outline.cursor.upTo cursor) content errors)
    (htagged : Tagged outline.cursor cursor content)
    (henclosed : Enclosed errors outline.cursor cursor attributes content)
    (hfaults : FaultsBehind outline.cursor errors)
    (hpasses : cursor.rest.length < outline.cursor.rest.length) :
    Step outline ((outline.advance errors cursor).addRaw name attributes
      (outline.cursor.upTo cursor) content blank) := by
  unfold addRaw
  split
  · exact Step.node errors cursor _ hreach (.raw blank henclosed hname) hfaults hpasses
  · next hnone =>
    have houtermost : outline.opened = [] := by simpa [advance] using hnone
    split
    · exact Step.script errors cursor
        ⟨_, content, scriptLanguage attributes, scriptContext attributes, attributes⟩ hreach rfl
        hencloses htagged henclosed houtermost hfaults hpasses
    · exact Step.style errors cursor ⟨_, content, attributes⟩ hreach rfl hencloses henclosed
        houtermost hfaults hpasses

theorem readRaw_step {outline : Outline} {afterName last inside : Cursor} {errors : List Error}
    {name : Text} {attributes : List Attribute}
    (hname : (isScriptName name || isStyleName name) = true)
    (hafter : outline.cursor.Reaches afterName)
    (hrow : Attribute.Row errors afterName attributes last) (hlast : last.Reaches inside)
    (hfaults : FaultsBehind outline.cursor errors)
    (hpasses : inside.rest.length < outline.cursor.rest.length) :
    Step outline ((outline.advance errors inside).readRaw outline.cursor name attributes) := by
  have hinside := (hafter.trans hrow.reaches).trans hlast
  obtain ⟨hstop, hclosed, hencloses, hended⟩ := readRawEnd_spec name hinside
  have hle := (hstop.trans hclosed).length_le
  have hrow' := hrow.mono fun hnone : errors ++ (readRawEnd outline.cursor inside name).2.errors =
    [] => (List.append_eq_nil_iff.mp hnone).1
  unfold readRaw
  dsimp only
  rw [advance_advance]
  exact addRaw_step _ hname ((hinside.trans hstop).trans hclosed) (hencloses.append errors)
    ⟨inside, _, hinside, hstop, hclosed, hinside.offset_lt hpasses, rfl, hended⟩
    ⟨afterName, last, inside, _, hafter, hrow', hlast, hstop, hclosed, rfl⟩
    (hfaults.append (readRawEnd_faults name hinside)) (Nat.lt_of_le_of_lt hle hpasses)

/-- What an element becomes whose opening tag ends at `stop`. -/
def endTag (outline : Outline) (name : Text) (attributes : Reading (List Attribute))
    (ending : List Error) (stop : Cursor) (selfClosing : Bool) : Outline :=
  let read := outline.advance (attributes.errors ++ ending) stop
  if (isScriptName name || isStyleName name) && !selfClosing then
    read.readRaw outline.cursor name attributes.value
  else if selfClosing || isVoid name then
    read.add (.element (outline.cursor.upTo stop) name attributes.value selfClosing [])
  else { read with
    opened := ⟨outline.cursor.offset, name, attributes.value, []⟩ :: read.opened }

theorem readElement_eq (outline : Outline) (afterSign : Cursor) :
    outline.readElement afterSign =
      let name := (afterSign.takeWhile isNameChar).1
      let attributes := Attribute.readList (afterSign.takeWhile isNameChar).2
      let last := Token.read attributes.cursor
      let finish := outline.cursor.finish
      match last.1.kind with
      | .slashAngle => outline.endTag name attributes [] last.2 true
      | .closeAngle => outline.endTag name attributes [] last.2 false
      | _ => outline.endTag name attributes
          [⟨.unexpectedEnd TokenKind.closeAngle.shown, outline.cursor.upTo finish⟩] finish true := by
  unfold readElement
  dsimp only
  cases (Token.read (Attribute.readList (afterSign.takeWhile isNameChar).2).cursor).1.kind <;> rfl

theorem endTag_step {outline : Outline} {afterName stop : Cursor} {name : Text}
    {attributes : Reading (List Attribute)} {ending : List Error} {selfClosing : Bool}
    (hafter : outline.cursor.Reaches afterName)
    (hname : outline.cursor.textTo afterName = '<' :: name)
    (hrow : Attribute.Row attributes.errors afterName attributes.value attributes.cursor)
    (hfaults : FaultsBehind afterName attributes.errors) (hstop : attributes.cursor.Reaches stop)
    (hending : FaultsBehind outline.cursor ending)
    (hclosed : selfClosing = false → ending = [] ∧ ∃ sign,
      Attribute.Spaced attributes.errors attributes.cursor sign ∧ sign.Reaches stop ∧
        sign.textTo stop = ['>'])
    (hpasses : stop.rest.length + 1 < outline.cursor.rest.length) :
    Step outline (outline.endTag name attributes ending stop selfClosing) := by
  have hreach := hafter.trans (hrow.reaches.trans hstop)
  have hall := (hfaults.mono hafter).append hending
  have hrow' := hrow.mono fun hnone : attributes.errors ++ ending = [] =>
    (List.append_eq_nil_iff.mp hnone).1
  have hlt : stop.rest.length < outline.cursor.rest.length := by omega
  unfold endTag
  dsimp only
  split
  · next hraw => exact readRaw_step (Bool.and_eq_true_iff.mp hraw).1 hafter hrow' hstop hall hlt
  · split
    · next hreason =>
      exact Step.node _ stop _ hreach
        (.childless name hafter hrow' hstop (Bool.or_eq_true_iff.mp hreason)) hall hlt
    · next hreason =>
      obtain ⟨rfl, sign, hgap, hsign, htext⟩ := hclosed (by simp_all)
      exact Step.opening _ stop ⟨_, name, attributes.value, []⟩ hreach rfl rfl
        ⟨afterName, sign, hafter, hname, by simpa using hrow.extend hgap, hsign, htext⟩ hall
        hpasses

theorem readElement_step {outline : Outline} {afterSign : Cursor} {c : Char} {rest : Text}
    (hsign : outline.cursor.Reaches afterSign)
    (htext : outline.cursor.textTo afterSign = ['<']) (hrest : afterSign.rest = c :: rest)
    (hc : isNameChar c = true) : Step outline (outline.readElement afterSign) := by
  have hrun := Reaches.takeWhile afterSign isNameChar
  have hafter := hsign.trans hrun
  have hname : outline.cursor.textTo (afterSign.takeWhile isNameChar).2 =
      '<' :: (afterSign.takeWhile isNameChar).1 := by
    rw [hsign.textTo_trans hrun, htext, Cursor.textTo_takeWhile]
    rfl
  have hlength : (afterSign.takeWhile isNameChar).2.rest.length + 1 <
      outline.cursor.rest.length := by
    have hdrop := (List.dropWhile_sublist isNameChar (l := rest)).length_le
    rw [hsign.rest_eq, htext, hrest]
    simp only [Cursor.takeWhile, Cursor.past, hrest, List.dropWhile_cons_of_pos hc,
      List.length_append, List.length_cons, List.length_nil]
    omega
  obtain ⟨hfaults, hrow⟩ := Attribute.readList_row (afterSign.takeWhile isNameChar).2
  rw [readElement_eq]
  generalize Attribute.readList (afterSign.takeWhile isNameChar).2 = attributes at hfaults hrow ⊢
  have hread := read_reaches attributes.cursor
  have hpast := (hrow.reaches.trans hread).length_le
  dsimp only
  split
  · exact endTag_step hafter hname hrow hfaults hread (FaultsBehind.nil _)
      (by rintro ⟨⟩) (by omega)
  · next hclose =>
    exact endTag_step hafter hname hrow hfaults hread (FaultsBehind.nil _)
      (fun _ => ⟨rfl, _, Attribute.Spaced.skipWhile _ _, readHere_reaches _,
        readHere_closeAngle hclose⟩) (by omega)
  · refine endTag_step hafter hname hrow hfaults ?_
      (FaultsBehind.upTo (Reaches.refl _) (Reaches.finish _) _) (by rintro ⟨⟩) ?_
    · exact (hafter.trans hrow.reaches).to_finish
    · exact Nat.lt_of_le_of_lt (Nat.succ_le_succ (Nat.zero_le _)) hlength

theorem readClosingTag_step {outline : Outline} {afterSign : Cursor}
    (hafter : outline.cursor.Reaches afterSign)
    (htext : outline.cursor.textTo afterSign = "</".toList) :
    Step outline (outline.readClosingTag afterSign) := by
  have hgap := Reaches.skipWhile afterSign isSeparator
  have hrun := Reaches.takeWhile (afterSign.skipWhile isSeparator) isNameChar
  have hname := hgap.trans hrun
  unfold readClosingTag
  dsimp only
  generalize hplace : (if ((afterSign.skipWhile isSeparator).takeWhile isNameChar).1.isEmpty = true
    then afterSign else ((afterSign.skipWhile isSeparator).takeWhile isNameChar).2) = stop
  have hstop : afterSign.Reaches stop := by
    rw [← hplace]
    split
    · exact Reaches.refl _
    · exact hname
  have hreach := hafter.trans hstop
  have hskip := skipClosingTag_reaches stop
  have hfaults := (skipClosingTag_spec stop).1.mono hreach
  have hpasses : (skipClosingTag stop).cursor.rest.length < outline.cursor.rest.length := by
    have hle := (hstop.trans hskip).length_le
    have hsign : 0 < "</".toList.length := by decide
    rw [hafter.rest_eq, htext, List.length_append]
    omega
  have hskipping (fault : Fault) : Step outline
      (outline.advance (⟨fault, outline.cursor.upTo stop⟩ :: (skipClosingTag stop).errors)
        (skipClosingTag stop).cursor) :=
    Step.skipping _ _ (hreach.trans hskip)
      ((FaultsBehind.upTo (Reaches.refl _) hreach fault).append hfaults)
      (.inl ⟨List.cons_ne_nil _ _, hpasses⟩)
  split
  · exact hskipping _
  · next innermost outer hopened =>
    split
    · next heq =>
      refine Step.closing _ _ (hreach.trans hskip) ⟨innermost, outer, hopened, ?_⟩ hfaults
      rw [heq]
      exact skipClosingTag_isClosingTag hafter htext rfl hplace.symm
    · split
      · exact Step.closing _ _ (Reaches.refl _)
          ⟨innermost, outer, hopened, fun h => nomatch h⟩
          (FaultsBehind.upTo (Reaches.refl _) hreach _)
      · exact hskipping _

theorem closeAtEnd_step {outline : Outline} (hrest : outline.cursor.rest = []) :
    Step outline outline.closeAtEnd := by
  unfold closeAtEnd
  split
  · next hopened =>
    exact Step.skipping [] outline.cursor (Reaches.refl _) (FaultsBehind.nil _)
      (.inr ⟨by simp [isFinished, hrest, hopened], rfl⟩)
  · next innermost outer hopened =>
    exact Step.closing _ _ (Reaches.refl _) ⟨innermost, outer, hopened, fun h => nomatch h⟩
      (FaultsBehind.empty (Reaches.refl _) _)

theorem readHere_passes_sign {cursor : Cursor} {c : Char} {rest : Text}
    (hrest : cursor.rest = c :: rest) (hc : c = '<' ∨ c = '\x7b') :
    (Token.readHere cursor).2.rest.length ≤ rest.length := by
  apply readHere_passes hrest
  rcases hc with rfl | rfl <;> rfl

/-- The first sign of markup decides what is read. -/
theorem readMarkup_step {outline : Outline} (hmarkup : startsMarkup outline.cursor.rest = true) :
    Step outline
      (match (Token.readHere outline.cursor).1.kind with
      | .angleSlash => outline.readClosingTag (Token.readHere outline.cursor).2
      | .commentOpen => outline.readComment (Token.readHere outline.cursor).2 "-->".toList
      | .angleBang => outline.readComment (Token.readHere outline.cursor).2 ">".toList
      | .angle => outline.readElement (Token.readHere outline.cursor).2
      | kind => outline.readMustache kind (Token.readHere outline.cursor).2) := by
  have hafter := readHere_reaches outline.cursor
  have hkind := readHere_kind outline.cursor
  rcases startsMarkup_cases hmarkup with
    ⟨rest, hrest⟩ | ⟨rest, hrest⟩ | ⟨c, rest, hrest, hletter⟩ | ⟨rest, hrest⟩
  · have hslash : (Token.readHere outline.cursor).1.kind = .angleSlash := by
      rw [hkind, hrest]
      rfl
    rw [hslash]
    apply readClosingTag_step hafter
    have hleading : TokenKind.leading outline.cursor.rest = (.angleSlash, 2) := by
      rw [hrest]
      rfl
    rw [readHere_sign hleading (by decide), hrest]
    rfl
  · have hpast := readHere_passes_sign hrest (.inl rfl)
    have hcomment (mark : Text) := readComment_step mark hrest hafter hpast
    have hbang := leading_bang rest
    rw [← hrest, ← hkind] at hbang
    rcases hbang with hopen | hdeclares
    · rw [hopen]
      exact hcomment _
    · rw [hdeclares]
      exact hcomment _
  · have hleading := leading_letter rest hletter
    rw [← hrest] at hleading
    have hangle : (Token.readHere outline.cursor).1.kind = .angle := by
      rw [hkind, hleading]
    have htext := readHere_sign hleading (by decide)
    rw [hrest] at htext
    rw [hangle]
    have hall := hafter.rest_eq
    rw [htext, hrest] at hall
    exact readElement_step hafter htext (List.cons.inj hall).2.symm
      (isNameChar_of_isAsciiLetter hletter)
  · obtain ⟨hopens, hinner⟩ := readHere_brace hrest
    split
    case h_5 => exact readMustache_step hrest hafter hinner
    all_goals
      next hother =>
        rw [hother] at hopens
        cases hopens

theorem step_spec (outline : Outline) : Step outline outline.step := by
  unfold step
  dsimp only
  split
  · next hrest => exact closeAtEnd_step hrest
  · next c rest hrest =>
    split
    · exact readText_step hrest
    · next hstarts =>
      apply readMarkup_step
      rw [hrest]
      simpa using hstarts

/-- What steps keep up holds after any run. -/
theorem run_induction {P : Outline → Prop} (hstep : ∀ {before after}, Step before after →
    P before → P after) (steps : Nat) {outline : Outline} (h : P outline) :
    P (run steps outline) := by
  induction steps generalizing outline with
  | zero => exact h
  | succ steps ih =>
    unfold run
    split
    · exact h
    · exact ih (hstep (step_spec outline) h)

end Outline

end TypedComponent.Markup
