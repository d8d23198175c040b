import TypedComponent.Proofs.Edit.Consistent
import TypedComponent.Proofs.Markup.Steps

/-!
Where the blocks and the comments of a document are. All of them are read from
front to back, so no script meets a style block or a comment, at whatever depth
the comment is, and a script is closed unless the reading found a fault.
-/

namespace TypedComponent.Markup

theorem Node.mem_familyOfAll {found : Node} {nodes : List Node} :
    found ∈ familyOfAll nodes ↔ ∃ node ∈ nodes, found ∈ node.family := by
  induction nodes with
  | nil => simp [familyOfAll]
  | cons first others ih => simp [familyOfAll, ih]

namespace Outline

/-- A node has been read, into the document or an element that is still open. -/
def HasNode (outline : Outline) (found : Node) : Prop :=
  ∃ node ∈ outline.nodes ++ outline.opened.flatMap OpenElement.children, found ∈ node.family

theorem hasNode_add {outline : Outline} {node found : Node} :
    (outline.add node).HasNode found ↔ outline.HasNode found ∨ found ∈ node.family := by
  obtain ⟨cursor, opened, nodes, scripts, styles, errors⟩ := outline
  cases opened with
  | nil => simp [HasNode, add, or_comm]
  | cons innermost outer =>
    simp only [HasNode, add, List.flatMap_cons, List.cons_append, List.mem_append,
      List.mem_cons]
    constructor
    · rintro ⟨other, hother | rfl | hother, hfound⟩
      · exact .inl ⟨other, .inl hother, hfound⟩
      · exact .inr hfound
      · exact .inl ⟨other, .inr hother, hfound⟩
    · rintro (⟨other, hother | hother, hfound⟩ | hfound)
      · exact ⟨other, .inl hother, hfound⟩
      · exact ⟨other, .inr (.inr hother), hfound⟩
      · exact ⟨node, .inr (.inl rfl), hfound⟩

/-- Closing an element adds that element, with its nodes now inside of it. -/
theorem hasNode_close {outline : Outline} {innermost : OpenElement} {outer : List OpenElement}
    (hopened : outline.opened = innermost :: outer) {found : Node} :
    outline.close.HasNode found ↔ outline.HasNode found ∨
      found = .element ⟨innermost.start, outline.cursor.offset⟩ innermost.name
        innermost.attributes false innermost.children.reverse := by
  obtain ⟨cursor, opened, nodes, scripts, styles, errors⟩ := outline
  cases hopened
  simp only [close]
  rw [hasNode_add]
  simp only [HasNode, Node.family, List.mem_cons, Node.mem_familyOfAll, List.mem_reverse,
    List.flatMap_cons, List.mem_append]
  constructor
  · rintro (⟨other, hother | hother, hfound⟩ | rfl | ⟨other, hother, hfound⟩)
    · exact .inl ⟨other, .inl hother, hfound⟩
    · exact .inl ⟨other, .inr (.inr hother), hfound⟩
    · exact .inr rfl
    · exact .inl ⟨other, .inr (.inl hother), hfound⟩
  · rintro (⟨other, hother | hother | hother, hfound⟩ | rfl)
    · exact .inl ⟨other, .inl hother, hfound⟩
    · exact .inr (.inr ⟨other, hother, hfound⟩)
    · exact .inl ⟨other, .inr hother, hfound⟩
    · exact .inr (.inl rfl)

/-- A comment at that span has been read, into the document or an element that
is still open. -/
def HasComment (outline : Outline) (span : Span) : Prop :=
  ∃ node ∈ outline.nodes ++ outline.opened.flatMap OpenElement.children,
    .comment span ∈ node.family

theorem hasComment_add {outline : Outline} {node : Node} {span : Span} :
    (outline.add node).HasComment span ↔
      outline.HasComment span ∨ .comment span ∈ node.family :=
  hasNode_add

/-- Closing an element keeps all comments, now inside the element. -/
theorem hasComment_close {outline : Outline} {span : Span} :
    outline.close.HasComment span ↔ outline.HasComment span := by
  cases hopened : outline.opened with
  | nil => rw [close, hopened]
  | cons innermost outer => exact (hasNode_close hopened).trans (or_iff_left Node.noConfusion)

@[simp] theorem add_cursor (outline : Outline) (node : Node) :
    (outline.add node).cursor = outline.cursor := by
  unfold add
  split <;> rfl

@[simp] theorem add_scripts (outline : Outline) (node : Node) :
    (outline.add node).scripts = outline.scripts := by
  unfold add
  split <;> rfl

@[simp] theorem add_styles (outline : Outline) (node : Node) :
    (outline.add node).styles = outline.styles := by
  unfold add
  split <;> rfl

@[simp] theorem add_errors (outline : Outline) (node : Node) :
    (outline.add node).errors = outline.errors := by
  unfold add
  split <;> rfl

@[simp] theorem close_cursor (outline : Outline) : outline.close.cursor = outline.cursor := by
  unfold close
  split <;> simp

@[simp] theorem close_scripts (outline : Outline) : outline.close.scripts = outline.scripts := by
  unfold close
  split <;> simp

@[simp] theorem close_styles (outline : Outline) : outline.close.styles = outline.styles := by
  unfold close
  split <;> simp

@[simp] theorem close_errors (outline : Outline) : outline.close.errors = outline.errors := by
  unfold close
  split <;> simp

/-- Whatever is cut out of a document lies behind the cursor, and scripts lie
apart from comments and styles. -/
structure Separated (outline : Outline) : Prop where
  comment_past : ∀ span, outline.HasComment span → span.stop ≤ outline.cursor.offset
  style_past : ∀ style ∈ outline.styles, style.span.stop ≤ outline.cursor.offset
  script_past : ∀ script ∈ outline.scripts, script.span.stop ≤ outline.cursor.offset
  script_comment : ∀ script ∈ outline.scripts, ∀ span, outline.HasComment span →
    span.Apart script.span
  script_style : ∀ script ∈ outline.scripts, ∀ style ∈ outline.styles,
    style.span.Apart script.span
  script_encloses : ∀ script ∈ outline.scripts,
    Encloses script.span script.content outline.errors

theorem Separated.advance {outline : Outline} (h : outline.Separated) (errors : List Error)
    {cursor : Cursor} (hreach : outline.cursor.Reaches cursor) :
    (outline.advance errors cursor).Separated := by
  have hle := hreach.offset_le
  exact {
    comment_past := fun span hspan => Nat.le_trans (h.comment_past span hspan) hle
    style_past := fun style hstyle => Nat.le_trans (h.style_past style hstyle) hle
    script_past := fun script hscript => Nat.le_trans (h.script_past script hscript) hle
    script_comment := h.script_comment
    script_style := h.script_style
    script_encloses := fun script hscript => (h.script_encloses script hscript).append _ }

section Separated

variable {outline : Outline}

/-- A node keeps a document separated if its comments are behind the cursor and
apart from the scripts. -/
theorem Separated.add (h : outline.Separated) {node : Node}
    (hcomments : ∀ span, .comment span ∈ node.family → span.stop ≤ outline.cursor.offset ∧
      ∀ script ∈ outline.scripts, span.Apart script.span) : (outline.add node).Separated where
  comment_past := by
    intro span hspan
    rw [add_cursor]
    rcases hasComment_add.mp hspan with hold | hnew
    · exact h.comment_past span hold
    · exact (hcomments span hnew).1
  style_past := by simpa using h.style_past
  script_past := by simpa using h.script_past
  script_comment := by
    intro script hscript span hspan
    rw [add_scripts] at hscript
    rcases hasComment_add.mp hspan with hold | hnew
    · exact h.script_comment script hscript span hold
    · exact (hcomments span hnew).2 script hscript
  script_style := by simpa using h.script_style
  script_encloses := by simpa using h.script_encloses

theorem Separated.addScript (h : outline.Separated) {block : ScriptBlock}
    (hpast : block.span.stop ≤ outline.cursor.offset)
    (hcomment : ∀ span, outline.HasComment span → span.Apart block.span)
    (hstyle : ∀ style ∈ outline.styles, style.span.Apart block.span)
    (hencloses : Encloses block.span block.content outline.errors) :
    Separated { outline with scripts := block :: outline.scripts } where
  comment_past := h.comment_past
  style_past := h.style_past
  script_past := List.forall_mem_cons.mpr ⟨hpast, h.script_past⟩
  script_comment := List.forall_mem_cons.mpr ⟨hcomment, h.script_comment⟩
  script_style := List.forall_mem_cons.mpr ⟨hstyle, h.script_style⟩
  script_encloses := List.forall_mem_cons.mpr ⟨hencloses, h.script_encloses⟩

theorem Separated.addStyle (h : outline.Separated) {block : StyleBlock}
    (hpast : block.span.stop ≤ outline.cursor.offset)
    (hscript : ∀ script ∈ outline.scripts, block.span.Apart script.span) :
    Separated { outline with styles := block :: outline.styles } where
  comment_past := h.comment_past
  style_past := List.forall_mem_cons.mpr ⟨hpast, h.style_past⟩
  script_past := h.script_past
  script_comment := h.script_comment
  script_style := fun script hmem =>
    List.forall_mem_cons.mpr ⟨hscript script hmem, h.script_style script hmem⟩
  script_encloses := h.script_encloses

/-- An element that has just been opened has no comment in it. -/
theorem Separated.openElement (h : outline.Separated) {element : OpenElement}
    (hchildren : element.children = []) :
    Separated { outline with opened := element :: outline.opened } := by
  have hsame {span : Span}
      (hspan : HasComment { outline with opened := element :: outline.opened } span) :
      outline.HasComment span := by
    simpa [HasComment, hchildren] using hspan
  exact { h with
    comment_past := fun span hspan => h.comment_past span (hsame hspan)
    script_comment := fun script hscript span hspan =>
      h.script_comment script hscript span (hsame hspan) }

theorem Separated.close (h : outline.Separated) : outline.close.Separated where
  comment_past := by
    intro span hspan
    rw [close_cursor]
    exact h.comment_past span (hasComment_close.mp hspan)
  style_past := by simpa using h.style_past
  script_past := by simpa using h.script_past
  script_comment := by
    intro script hscript span hspan
    rw [close_scripts] at hscript
    exact h.script_comment script hscript span (hasComment_close.mp hspan)
  script_style := by simpa using h.script_style
  script_encloses := by simpa using h.script_encloses

end Separated

/-- What a step reads begins at the cursor, so it is apart from all that has been
read before. -/
theorem Separated.step {before after : Outline} (hstep : Step before after)
    (h : before.Separated) : after.Separated := by
  cases hstep with
  | node errors cursor found reaches whole =>
    refine (h.advance errors reaches).add fun span hspan => ?_
    rw [whole.comments hspan]
    exact ⟨Nat.le_refl _, fun script hscript => .inr (h.script_past script hscript)⟩
  | script errors cursor block reaches span encloses =>
    refine (h.advance errors reaches).addScript ?_ ?_ ?_ ?_
    · rw [span]
      exact Nat.le_refl _
    · intro other hother
      rw [span]
      exact .inl (h.comment_past other hother)
    · intro style hstyle
      rw [span]
      exact .inl (h.style_past style hstyle)
    · exact { encloses with
        closed := encloses.closed.imp_right fun hne => by simp [Outline.advance, hne] }
  | style errors cursor block reaches span =>
    refine (h.advance errors reaches).addStyle ?_ fun script hscript => ?_
    · rw [span]
      exact Nat.le_refl _
    · rw [span]
      exact .inr (h.script_past script hscript)
  | opening errors cursor element reaches children =>
    exact (h.advance errors reaches).openElement children
  | closing errors cursor reaches => exact (h.advance errors reaches).close
  | skipping errors cursor reaches => exact h.advance errors reaches

theorem ofSource_separated (source : Text) : (ofSource source).Separated := by
  constructor <;> simp [ofSource, HasComment]

end Outline

/-- In a document the scripts lie apart from what else is cut out of it, and
each of them is closed if no fault was found. -/
theorem parse_separated (source : Text) {script : ScriptBlock}
    (hscript : script ∈ (parse source).document.scripts) :
    (∀ span, .comment span ∈ (parse source).document.allNodes → span.Apart script.span) ∧
      (∀ style ∈ (parse source).document.styles, style.span.Apart script.span) ∧
      Outline.Encloses script.span script.content (parse source).errors := by
  have h : (Outline.run (source.length + 1) (.ofSource source)).Separated :=
    Outline.run_induction Outline.Separated.step _ (Outline.ofSource_separated source)
  have hmem := List.mem_reverse.mp hscript
  refine ⟨?_, ?_, ?_⟩
  · intro span hspan
    obtain ⟨node, hnode, hfamily⟩ := Node.mem_familyOfAll.mp hspan
    exact h.script_comment script hmem span
      ⟨node, List.mem_append_left _ (List.mem_reverse.mp hnode), hfamily⟩
  · intro style hstyle
    exact h.script_style script hmem style (List.mem_reverse.mp hstyle)
  · have hencloses := h.script_encloses script hmem
    exact { hencloses with
      closed := by
        rcases hencloses.closed with hlt | hne
        · exact .inl hlt
        · exact .inr (by simpa [parse] using hne) }

end TypedComponent.Markup
