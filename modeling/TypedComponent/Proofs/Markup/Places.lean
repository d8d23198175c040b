import TypedComponent.Proofs.Markup.Blocks

/-!
Where the parts of a document begin and end. Every part that is read goes from
one place of the reading to a later one, so it lies between characters of the
source, and no two parts that are cut out of a document overlap. A block that
has no closing tag goes on to the end of the source.
-/

namespace TypedComponent

namespace Cursor.Reaches

variable {source : Text} {start cursor stop : Cursor}

/-- Wherever the reading of a text gets to is a place between characters. -/
theorem isBoundary (h : (ofText source).Reaches cursor) :
    Text.isBoundary source cursor.offset = true := by
  obtain ⟨passed, hpassed, hoffset⟩ := h
  refine Text.isBoundary_iff.mpr ⟨passed, cursor.rest, hpassed, ?_⟩
  simpa [ofText] using hoffset.symm

theorem offset_of_rest_nil (h : (ofText source).Reaches cursor) (hrest : cursor.rest = []) :
    cursor.offset = Text.bytes source := by
  obtain ⟨passed, hpassed, hoffset⟩ := h
  have hall : source = passed := by simpa [ofText, hrest] using hpassed
  rw [hall]
  simpa [ofText] using hoffset

theorem upTo_liesIn (hstart : (ofText source).Reaches start) (h : start.Reaches stop) :
    (start.upTo stop).LiesIn source :=
  ⟨hstart.isBoundary, (hstart.trans h).isBoundary, h.offset_le⟩

end Cursor.Reaches

namespace Markup

/-- What is cut out of a document: a comment at any depth, or a style block. -/
def Document.IsCut (document : Document) (span : Span) : Prop :=
  .comment span ∈ document.allNodes ∨ ∃ style ∈ document.styles, style.span = span

/-- The tags of a script and its content follow each other and lie between
characters. Only at the end of the source the closing tag may be missing. -/
structure ScriptBlock.LiesIn (source : Text) (script : ScriptBlock) : Prop where
  start_place : Text.isBoundary source script.span.start = true
  content_place : script.content.LiesIn source
  stop_place : Text.isBoundary source script.span.stop = true
  opening_lt : script.span.start < script.content.start
  closed_or_last : script.content.stop < script.span.stop ∨
    (script.content.stop = script.span.stop ∧ script.span.stop = Text.bytes source)

theorem ScriptBlock.LiesIn.stop_le {source : Text} {script : ScriptBlock}
    (h : script.LiesIn source) : script.content.stop ≤ script.span.stop := by
  rcases h.closed_or_last with hclosed | ⟨hlast, -⟩ <;> omega

namespace Outline

def IsCut (outline : Outline) (span : Span) : Prop :=
  outline.HasComment span ∨ ∃ style ∈ outline.styles, style.span = span

theorem Separated.cut_past {outline : Outline} (h : outline.Separated) {span : Span}
    (hcut : outline.IsCut span) : span.stop ≤ outline.cursor.offset := by
  rcases hcut with hcomment | ⟨style, hstyle, rfl⟩
  · exact h.comment_past span hcomment
  · exact h.style_past style hstyle

section Step

variable {before after : Outline}

theorem Step.reaches (h : Step before after) : before.cursor.Reaches after.cursor := by
  cases h with
  | node errors cursor found reaches whole =>
    rw [add_cursor]
    exact reaches
  | script errors cursor block reaches span encloses => exact reaches
  | style errors cursor block reaches span encloses => exact reaches
  | opening errors cursor element reaches children => exact reaches
  | closing errors cursor reaches =>
    rw [close_cursor]
    exact reaches
  | skipping errors cursor reaches => exact reaches

/-- What a step cuts out is what it passes. -/
theorem Step.isCut (h : Step before after) {span : Span} (hcut : after.IsCut span) :
    before.IsCut span ∨ span = before.cursor.upTo after.cursor := by
  cases h with
  | node errors cursor found reaches whole =>
    rw [add_cursor]
    rcases hcut with hcomment | hstyle
    · rcases hasComment_add.mp hcomment with hold | hnew
      · exact .inl (.inl hold)
      · exact .inr (whole.comments hnew)
    · rw [add_styles] at hstyle
      exact .inl (.inr hstyle)
  | script errors cursor block reaches place encloses => exact .inl hcut
  | style errors cursor block reaches place encloses =>
    rcases hcut with hcomment | ⟨style, hstyle, rfl⟩
    · exact .inl (.inl hcomment)
    · rcases List.mem_cons.mp hstyle with rfl | hold
      · exact .inr place
      · exact .inl (.inr ⟨style, hold, rfl⟩)
  | opening errors cursor element reaches children =>
    refine .inl (hcut.imp_left fun hcomment => ?_)
    simpa [HasComment, children, Outline.advance] using hcomment
  | closing errors cursor reaches =>
    rcases hcut with hcomment | hstyle
    · have hold : (before.advance errors cursor).HasComment span := hasComment_close.mp hcomment
      exact .inl (.inl hold)
    · rw [close_styles] at hstyle
      exact .inl (.inr hstyle)
  | skipping errors cursor reaches => exact .inl hcut

theorem Step.mem_scripts (h : Step before after) {script : ScriptBlock}
    (hscript : script ∈ after.scripts) :
    script ∈ before.scripts ∨ (script.span = before.cursor.upTo after.cursor ∧
      Tagged before.cursor after.cursor script.content) := by
  cases h with
  | node errors cursor found reaches whole =>
    rw [add_scripts] at hscript
    exact .inl hscript
  | script errors cursor block reaches place encloses tagged =>
    rcases List.mem_cons.mp hscript with rfl | hold
    · exact .inr ⟨place, tagged⟩
    · exact .inl hold
  | style errors cursor block reaches place encloses => exact .inl hscript
  | opening errors cursor element reaches children => exact .inl hscript
  | closing errors cursor reaches =>
    rw [close_scripts] at hscript
    exact .inl hscript
  | skipping errors cursor reaches => exact .inl hscript

end Step

theorem Tagged.liesIn {source : Text} {start stop : Cursor} {script : ScriptBlock}
    (hstart : (Cursor.ofText source).Reaches start) (hspan : script.span = start.upTo stop)
    (h : Tagged start stop script.content) : script.LiesIn source := by
  obtain ⟨inside, ending, hopening, hcontent, hclosing, hlt, hplace, hended⟩ := h
  have hinside := hstart.trans hopening
  have hstop := (hinside.trans hcontent).trans hclosing
  exact {
    start_place := by
      rw [hspan]
      exact hstart.isBoundary
    content_place := by
      rw [hplace]
      exact hinside.upTo_liesIn hcontent
    stop_place := by
      rw [hspan]
      exact hstop.isBoundary
    opening_lt := by
      rw [hspan, hplace]
      exact hlt
    closed_or_last := by
      rw [hspan, hplace]
      rcases hended with hclosed | ⟨hlast, hrest⟩
      · exact .inl hclosed
      · exact .inr ⟨hlast, hstop.offset_of_rest_nil hrest⟩ }

/-- The parts read so far lie in the source, up to the cursor. -/
structure Placed (source : Text) (outline : Outline) : Prop where
  separated : outline.Separated
  cursor_reached : (Cursor.ofText source).Reaches outline.cursor
  cut_liesIn : ∀ span, outline.IsCut span → span.LiesIn source
  cuts_apart : ∀ first second, outline.IsCut first → outline.IsCut second →
    first = second ∨ first.Apart second
  script_liesIn : ∀ script ∈ outline.scripts, script.LiesIn source

theorem Placed.step {source : Text} {before after : Outline} (hstep : Step before after)
    (h : before.Placed source) : after.Placed source where
  separated := h.separated.step hstep
  cursor_reached := h.cursor_reached.trans hstep.reaches
  cut_liesIn := by
    intro span hcut
    rcases hstep.isCut hcut with hold | rfl
    · exact h.cut_liesIn span hold
    · exact h.cursor_reached.upTo_liesIn hstep.reaches
  cuts_apart := by
    intro first second hfirst hsecond
    rcases hstep.isCut hfirst with hold | rfl <;> rcases hstep.isCut hsecond with hold' | rfl
    · exact h.cuts_apart first second hold hold'
    · exact .inr (.inl (h.separated.cut_past hold))
    · exact .inr (.inr (h.separated.cut_past hold'))
    · exact .inl rfl
  script_liesIn := by
    intro script hscript
    rcases hstep.mem_scripts hscript with hold | ⟨hspan, htagged⟩
    · exact h.script_liesIn script hold
    · exact Tagged.liesIn h.cursor_reached hspan htagged

theorem ofSource_placed (source : Text) : (ofSource source).Placed source where
  separated := ofSource_separated source
  cursor_reached := Cursor.Reaches.refl _
  cut_liesIn := by simp [IsCut, HasComment, ofSource]
  cuts_apart := by simp [IsCut, HasComment, ofSource]
  script_liesIn := by simp [ofSource]

end Outline

theorem parse_placed (source : Text) :
    (Outline.run (source.length + 1) (.ofSource source)).Placed source :=
  Outline.run_induction Outline.Placed.step _ (Outline.ofSource_placed source)

theorem isCut_of_parse {source : Text} {span : Span}
    (h : (parse source).document.IsCut span) :
    (Outline.run (source.length + 1) (.ofSource source)).IsCut span := by
  rcases h with hcomment | ⟨style, hstyle, rfl⟩
  · obtain ⟨node, hnode, hfamily⟩ := Node.mem_familyOfAll.mp hcomment
    exact .inl ⟨node, List.mem_append_left _ (List.mem_reverse.mp hnode), hfamily⟩
  · exact .inr ⟨style, List.mem_reverse.mp hstyle, rfl⟩

/-- Whatever is wrong with a source, what is cut out of its document lies in it,
and no two cuts overlap. -/
theorem parse_cuts (source : Text) :
    (∀ span, (parse source).document.IsCut span → span.LiesIn source) ∧
      ∀ first second, (parse source).document.IsCut first → (parse source).document.IsCut second →
        first = second ∨ first.Apart second := by
  have h := parse_placed source
  exact ⟨fun span hcut => h.cut_liesIn span (isCut_of_parse hcut),
    fun first second hfirst hsecond =>
      h.cuts_apart first second (isCut_of_parse hfirst) (isCut_of_parse hsecond)⟩

theorem parse_scripts (source : Text) {script : ScriptBlock}
    (hscript : script ∈ (parse source).document.scripts) : script.LiesIn source :=
  (parse_placed source).script_liesIn script (List.mem_reverse.mp hscript)

end Markup

end TypedComponent
