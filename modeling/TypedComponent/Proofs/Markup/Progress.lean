import TypedComponent.Proofs.Markup.Blocks

/-!
Reading ends. The characters left and the open elements together become fewer
with every step, since an element is only opened by a tag of two characters at
least; so as many steps as the source has characters, and one more, read it to
its end and close every element.
-/

namespace TypedComponent.Markup

namespace Outline

/-- What is still to be done: the characters to read and the elements to close. -/
def unread (outline : Outline) : Nat := outline.cursor.rest.length + outline.opened.length

@[simp] theorem add_opened_length (outline : Outline) (node : Node) :
    (outline.add node).opened.length = outline.opened.length := by
  unfold add
  split <;> simp_all

theorem close_opened_length {outline : Outline} {innermost : OpenElement}
    {outer : List OpenElement} (h : outline.opened = innermost :: outer) :
    outline.close.opened.length = outer.length := by
  simp [close, h]

theorem Step.unread_lt {before after : Outline} (hstep : Step before after)
    (hmore : before.isFinished = false) : after.unread < before.unread := by
  cases hstep with
  | node errors cursor found reaches whole faults passes =>
    simpa [unread, advance] using passes
  | script errors cursor block reaches span encloses tagged enclosed outermost faults passes =>
    simpa [unread, advance] using passes
  | style errors cursor block reaches span encloses enclosed outermost faults passes =>
    simpa [unread, advance] using passes
  | opening errors cursor element reaches children start opens faults passes =>
    simp only [unread, advance, List.length_cons]
    omega
  | closing errors cursor reaches closes faults =>
    obtain ⟨innermost, outer, hopened, -⟩ := closes
    have hle := reaches.length_le
    have hclosed : (before.advance errors cursor).close.opened.length = outer.length :=
      close_opened_length hopened
    simp only [unread, close_cursor, hopened, hclosed, List.length_cons]
    simp only [advance]
    omega
  | skipping errors cursor reaches faults skipped =>
    rcases skipped with ⟨-, hlt⟩ | ⟨hfinished, -⟩
    · simpa [unread, advance] using hlt
    · rw [hmore] at hfinished
      cases hfinished

theorem run_isFinished {steps : Nat} {outline : Outline} (h : outline.unread < steps) :
    (run steps outline).isFinished = true := by
  induction steps generalizing outline with
  | zero => omega
  | succ steps ih =>
    unfold run
    split
    · next hfinished => exact hfinished
    · next hmore =>
      have hlt := (step_spec outline).unread_lt (Bool.eq_false_iff.mpr hmore)
      exact ih (by omega)

end Outline

/-- Every source is read to its end, with every element closed. -/
theorem parse_isFinished (source : Text) :
    (Outline.run (source.length + 1) (.ofSource source)).isFinished = true :=
  Outline.run_isFinished (Nat.lt_succ_self source.length)

end TypedComponent.Markup
