import TypedComponent.Proofs.Markup.Lockstep

/-!
Style blocks as the reading finds them. A style element is told by its opening
tag, its body goes up to the next text that begins like its closing tag, and
the body is free up to there: with another one it is a style element again,
with the same tags.
-/

namespace TypedComponent.Markup

open Cursor (Reaches)

/-- A style element without a fault begins at a place: the opening tag goes up
to `inside`, the closing tag from `found` up to `stop`. -/
structure ReadsStyle (start : Cursor) (name : Text) (inside found stop : Cursor) : Prop where
  sign : ∃ c rest, start.rest = '<' :: c :: rest ∧ Text.isAsciiLetter c = true
  name_eq : (start.next.takeWhile isNameChar).1 = name
  is_style : isStyleName name = true
  not_script : isScriptName name = false
  attributes_clean : (tagAttributes start.next).errors = []
  kind_eq : (tagEnd start.next).1.kind = .closeAngle
  inside_eq : (tagEnd start.next).2 = inside
  found_eq : inside.find? ("</".toList ++ name) = some found
  closing_eq : skipClosingTag ⟨found.offset + Text.bytes ("</".toList ++ name),
    found.rest.drop ("</".toList ++ name).length⟩ = ⟨(), [], stop⟩

/-- A closing tag can be read at another place. -/
theorem skipClosingTag_moved {a b stop : Cursor} (hrest : b.rest = a.rest)
    (h : skipClosingTag a = ⟨(), [], stop⟩) :
    skipClosingTag b = ⟨(), [], ⟨b.offset + Text.bytes (a.textTo stop), stop.rest⟩⟩ := by
  have htwin : a.Twin (· - a.offset + b.offset) [] [] b := by
    refine ⟨a.rest, (List.append_nil _).symm, by rw [hrest, List.append_nil], fun count _ => ?_⟩
    dsimp only
    omega
  obtain ⟨-, herrors, hcursor⟩ := skipClosingTag_twin htwin (.inl ⟨rfl, rfl⟩)
  have hreach := skipClosingTag_reaches a
  rw [h] at herrors hcursor hreach
  have hoffset := hcursor.offset_eq
  rw [hreach.offset_eq] at hoffset
  have hstop : (skipClosingTag b).cursor =
      ⟨b.offset + Text.bytes (a.textTo stop), stop.rest⟩ := by
    have hsame := hcursor.rest_eq
    cases hb : (skipClosingTag b).cursor with
    | mk offset rest =>
      rw [hb] at hoffset hsame
      dsimp only at hoffset hsame
      rw [hsame, ← hoffset]
      congr 1
      omega
  rw [← hstop]
  cases hb : skipClosingTag b with
  | mk value errors cursor =>
    rw [hb] at herrors
    cases herrors
    rfl

namespace ReadsStyle

variable {start inside found stop : Cursor} {name : Text}

theorem startsMarkup (h : ReadsStyle start name inside found stop) :
    startsMarkup start.rest = true := by
  obtain ⟨c, rest, hrest, hletter⟩ := h.sign
  rw [hrest]
  simp [Markup.startsMarkup, hletter]

theorem isTagName (h : ReadsStyle start name inside found stop) : IsTagName name := by
  obtain ⟨c, rest, hrest, hletter⟩ := h.sign
  refine ⟨c, rest.takeWhile isNameChar, ?_, hletter, fun d hd => (List.mem_takeWhile_imp hd)⟩
  rw [← h.name_eq, Cursor.next, hrest]
  exact List.takeWhile_cons_of_pos (isNameChar_of_isAsciiLetter hletter)

/-- Where the closing tag is read after its name. -/
theorem reaches (h : ReadsStyle start name inside found stop) :
    start.next.Reaches inside ∧ inside.Reaches found ∧ ∃ behind,
      skipClosingTag behind = ⟨(), [], stop⟩ ∧ found.Reaches behind ∧ behind.Reaches stop ∧
      found.textTo behind = "</".toList ++ name ∧
      behind.offset = found.offset + Text.bytes ("</".toList ++ name) := by
  have hinside := (Reaches.takeWhile start.next isNameChar).trans (tagEnd_reaches start.next)
  rw [h.inside_eq] at hinside
  obtain ⟨hfound, hmark⟩ := Cursor.find?_reaches h.found_eq
  have hstop := skipClosingTag_reaches
    ⟨found.offset + Text.bytes ("</".toList ++ name), found.rest.drop ("</".toList ++ name).length⟩
  rw [h.closing_eq] at hstop
  refine ⟨hinside, hfound, _, h.closing_eq, hmark, hstop, ?_, rfl⟩
  obtain ⟨before, hsplit, hcursor⟩ := Option.map_eq_some_iff.mp h.found_eq
  obtain ⟨-, tail, htail⟩ := Text.splitAt?_eq_some hsplit
  have hrest : found.rest = "</".toList ++ name ++ tail := hcursor ▸ htail
  refine Reaches.textTo_eq ?_ rfl
  rw [hrest, List.drop_left]

theorem textTo_stop (h : ReadsStyle start name inside found stop) :
    start.rest = start.textTo inside ++ inside.textTo found ++ found.textTo stop ++ stop.rest := by
  obtain ⟨hinside, hfound, behind, -, hmark, hstop, -⟩ := h.reaches
  have hstart := (Reaches.next start).trans hinside
  rw [hstart.rest_eq, hfound.rest_eq, (hmark.trans hstop).rest_eq]
  simp only [List.append_assoc]

theorem stop_offset (h : ReadsStyle start name inside found stop) :
    stop.offset = start.offset +
      Text.bytes (start.textTo inside ++ inside.textTo found ++ found.textTo stop) := by
  obtain ⟨hinside, hfound, behind, -, hmark, hstop, -⟩ := h.reaches
  have hstart := (Reaches.next start).trans hinside
  rw [(hmark.trans hstop).offset_eq, hfound.offset_eq, hstart.offset_eq]
  simp only [Text.bytes_append, Nat.add_assoc]

/-- The name stands in front of everything else that a tag holds. -/
theorem textTo_inside (h : ReadsStyle start name inside found stop) :
    ∃ more, start.textTo inside = '<' :: (name ++ more) := by
  obtain ⟨c, rest, hrest, -⟩ := h.sign
  have hafter := Reaches.takeWhile start.next isNameChar
  have hinside := tagEnd_reaches start.next
  rw [h.inside_eq] at hinside
  have hsign : start.textTo start.next = ['<'] := by
    refine Reaches.textTo_eq ?_ ?_ <;> rw [Cursor.next, hrest] <;> rfl
  refine ⟨(start.next.takeWhile isNameChar).2.textTo inside, ?_⟩
  rw [(Reaches.next start).textTo_trans (hafter.trans hinside), hafter.textTo_trans hinside,
    Cursor.textTo_takeWhile, h.name_eq, hsign]
  rfl

/-- With another body it is still a style element. -/
theorem rebodied (h : ReadsStyle start name inside found stop) {body : Text}
    (hbody : ∀ a b, body ≠ a ++ "</".toList ++ name ++ b) :
    ReadsStyle ⟨start.offset, start.textTo inside ++ (body ++ (found.textTo stop ++ stop.rest))⟩
      name ⟨inside.offset, body ++ (found.textTo stop ++ stop.rest)⟩
      ⟨inside.offset + Text.bytes body, found.textTo stop ++ stop.rest⟩
      ⟨inside.offset + Text.bytes body + Text.bytes (found.textTo stop), stop.rest⟩ := by
  obtain ⟨hinside, -, behind, hclosing, hmark, hstop, htext, -⟩ := h.reaches
  obtain ⟨d, more, hname, hletter, hmore⟩ := h.isTagName
  obtain ⟨others, hothers⟩ := h.textTo_inside
  obtain ⟨c, rest, hrest, -⟩ := h.sign
  have hreach := (Reaches.next start).trans hinside
  have htwin : start.Twin id inside.rest (body ++ (found.textTo stop ++ stop.rest))
      ⟨start.offset, start.textTo inside ++ (body ++ (found.textTo stop ++ stop.rest))⟩ :=
    ⟨start.textTo inside, hreach.rest_eq, rfl, fun _ _ => rfl⟩
  have hnextRest : start.next.rest = c :: rest := by rw [Cursor.next, hrest]
  have hnext := htwin.next hrest (hnextRest ▸ hinside.suffix)
  have htag := TagTwin.of_ends hnext
    (.inr ⟨h.attributes_clean, .inl h.kind_eq, h.inside_eq ▸ List.suffix_rfl⟩)
  have hclosingText : found.textTo stop = "</".toList ++ name ++ behind.textTo stop := by
    rw [hmark.textTo_trans hstop, htext]
  have hinsideTwin := htag.stop
  rw [h.inside_eq] at hinsideTwin
  refine ⟨⟨d, more ++ others ++ (body ++ (found.textTo stop ++ stop.rest)), ?_, hletter⟩,
    htag.name.trans h.name_eq, h.is_style, h.not_script, ?_, htag.kind.trans h.kind_eq, ?_, ?_, ?_⟩
  · simp [hothers, hname]
  · rw [htag.errors, h.attributes_clean]
    rfl
  · exact hinsideTwin.unique ⟨[], rfl, rfl, fun _ _ => rfl⟩
  · rw [hclosingText, List.append_assoc _ (behind.textTo stop)]
    exact find?_closingTag h.isTagName hbody
  · dsimp only
    rw [hclosingText, List.append_assoc _ (behind.textTo stop), List.drop_left,
      skipClosingTag_moved hstop.rest_eq.symm hclosing, Text.bytes_append _ (behind.textTo stop)]
    simp only [Nat.add_assoc]

end ReadsStyle

namespace Outline

variable {outline : Outline}

theorem step_letter {c : Char} {rest : Text} (hletter : Text.isAsciiLetter c = true)
    (hrest : outline.cursor.rest = '<' :: c :: rest) :
    outline.step = outline.readElement outline.cursor.next := by
  have hnext : outline.cursor.next = ⟨outline.cursor.offset + 1, c :: rest⟩ := by
    rw [Cursor.next, hrest]
    rfl
  rw [hnext]
  exact step_angle hletter (congrArg (Cursor.mk outline.cursor.offset) hrest)

/-- A style element at the top level is read as a block. -/
theorem step_style {name : Text} {inside found stop : Cursor}
    (h : ReadsStyle outline.cursor name inside found stop) (hopened : outline.opened = []) :
    outline.step = { outline.advance [] stop with
      styles := ⟨outline.cursor.upTo stop, inside.upTo found,
        (tagAttributes outline.cursor.next).value⟩ :: outline.styles } := by
  obtain ⟨c, rest, hrest, hletter⟩ := h.sign
  have hraw : readRawEnd outline.cursor inside name = (found, ⟨(), [], stop⟩) := by
    unfold readRawEnd
    dsimp only
    rw [h.found_eq]
    dsimp only
    rw [h.closing_eq]
  rw [step_letter hletter hrest, readElement_tag]
  dsimp only
  rw [h.kind_eq, h.name_eq, h.inside_eq]
  simp only [endTag, h.is_style, h.not_script, h.attributes_clean, readRaw, Outline.advance, hraw,
    addRaw, hopened]
  rfl

section NewBlock

variable {block : StyleBlock} {name : Text} {start : Cursor}

theorem readRaw_styles {attributes : List Attribute} (hold : block ∉ outline.styles)
    (hnew : block ∈ (outline.readRaw start name attributes).styles) :
    outline.opened = [] ∧ isScriptName name = false := by
  unfold readRaw addRaw at hnew
  dsimp only at hnew
  split at hnew
  · rw [add_styles] at hnew
    exact absurd hnew hold
  · next hopened =>
    split at hnew
    · exact absurd hnew hold
    · next hscript =>
      exact ⟨by simpa [Outline.advance] using hopened, Bool.eq_false_iff.mpr hscript⟩

theorem readRaw_clean {attributes : List Attribute}
    (hclean : (outline.readRaw start name attributes).errors = []) :
    ∃ found stop, outline.cursor.find? ("</".toList ++ name) = some found ∧
      skipClosingTag ⟨found.offset + Text.bytes ("</".toList ++ name),
        found.rest.drop ("</".toList ++ name).length⟩ = ⟨(), [], stop⟩ := by
  have hfaults : (readRawEnd start outline.cursor name).2.errors = [] := by
    unfold readRaw at hclean
    rw [addRaw_errors, Outline.advance, List.append_eq_nil_iff, List.reverse_eq_nil_iff] at hclean
    exact hclean.1
  unfold readRawEnd at hfaults
  dsimp only at hfaults
  split at hfaults
  · next found hfound =>
    refine ⟨found, (skipClosingTag ⟨found.offset + Text.bytes ("</".toList ++ name),
      found.rest.drop ("</".toList ++ name).length⟩).cursor, hfound, ?_⟩
    revert hfaults
    generalize skipClosingTag _ = skipped
    intro hfaults
    cases skipped
    cases hfaults
    rfl
  · cases hfaults

theorem endTag_styles {attributes : Reading (List Attribute)} {ending : List Error}
    {stop : Cursor} {selfClosing : Bool} (hold : block ∉ outline.styles)
    (hnew : block ∈ (outline.endTag name attributes ending stop selfClosing).styles) :
    selfClosing = false ∧ outline.opened = [] ∧ isStyleName name = true ∧
      isScriptName name = false := by
  unfold endTag at hnew
  dsimp only at hnew
  split at hnew
  · next hraw =>
    obtain ⟨hopened, hscript⟩ := (outline.advance _ stop).readRaw_styles hold hnew
    rw [hscript, Bool.false_or, Bool.and_eq_true, Bool.not_eq_true'] at hraw
    exact ⟨hraw.2, hopened, hraw.1, hscript⟩
  · split at hnew
    · rw [add_styles] at hnew
      exact absurd hnew hold
    · exact absurd hnew hold

theorem readClosingTag_styles (afterSign : Cursor) :
    (outline.readClosingTag afterSign).styles = outline.styles := by
  rw [readClosingTag_eq]
  dsimp only
  split
  · rfl
  · split
    · exact close_styles _
    · split
      · exact close_styles _
      · rfl

theorem readComment_styles (inside : Cursor) (mark : Text) :
    (outline.readComment inside mark).styles = outline.styles := by
  unfold readComment
  split <;> exact add_styles _ _

theorem readMustache_styles (kind : TokenKind) (inside : Cursor) :
    (outline.readMustache kind inside).styles = outline.styles := by
  unfold readMustache
  dsimp only
  split <;> exact add_styles _ _

/-- Only an opening tag can begin a block. -/
theorem step_element (hold : block ∉ outline.styles) (hnew : block ∈ outline.step.styles) :
    ∃ c rest, outline.cursor.rest = '<' :: c :: rest ∧ Text.isAsciiLetter c = true := by
  have hsame : outline.step.styles ≠ outline.styles := fun h => hold (h ▸ hnew)
  by_cases hnil : outline.cursor.rest = []
  · refine absurd ?_ hsame
    rw [step_of_nil hnil, closeAtEnd]
    split
    · rfl
    · rw [close_styles]
      rfl
  cases hmarkup : startsMarkup outline.cursor.rest with
  | false =>
    refine absurd ?_ hsame
    rw [step_of_text hnil hmarkup, readText, add_styles]
    rfl
  | true =>
    rcases startsMarkup_cases hmarkup with ⟨rest, hrest⟩ | ⟨rest, hrest⟩ | helement | ⟨rest, hrest⟩
    · refine absurd ?_ hsame
      rw [step_of_markup hmarkup, readHere_kind, hrest]
      exact readClosingTag_styles _
    · refine absurd ?_ hsame
      rw [step_of_markup hmarkup, readHere_kind, hrest]
      rcases leading_bang rest with hkind | hkind <;> rw [hkind] <;> exact readComment_styles _ _
    · exact helement
    · refine absurd ?_ hsame
      rw [step_of_markup hmarkup, readMarkup_brace (readHere_brace hrest).1]
      exact readMustache_styles _ _

/-- A style block is found where a style element begins. -/
theorem readsStyle_of_step (hclean : outline.step.errors = [])
    (hold : block ∉ outline.styles) (hnew : block ∈ outline.step.styles) :
    outline.opened = [] ∧
      ∃ name inside found stop, ReadsStyle outline.cursor name inside found stop := by
  obtain ⟨c, rest, hrest, hletter⟩ := step_element hold hnew
  rw [step_letter hletter hrest, readElement_tag] at hnew hclean
  dsimp only at hnew hclean
  split at hnew
  · exact absurd (endTag_styles hold hnew).1 (by decide)
  · next hkind =>
    obtain ⟨-, hopened, hstyle, hscript⟩ := endTag_styles hold hnew
    rw [hkind] at hclean
    obtain ⟨hattributes, -⟩ := (endTag_spec ..).2 hclean
    simp only [endTag, hstyle, hscript] at hclean
    obtain ⟨found, stop, hfound, hclosing⟩ := readRaw_clean hclean
    exact ⟨hopened, _, _, found, stop, ⟨c, rest, hrest, hletter⟩, rfl, hstyle, hscript,
      hattributes, hkind, rfl, hfound, hclosing⟩
  · exact absurd (endTag_styles hold hnew).1 (by decide)

end NewBlock

end Outline

end TypedComponent.Markup
