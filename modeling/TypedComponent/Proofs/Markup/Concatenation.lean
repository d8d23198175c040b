import TypedComponent.Proofs.Markup.Lockstep

/-!
Reading one source behind another. A source that is read without a fault and does
not end in text is left in the state in which reading begins, so that what follows
it is read as if it stood alone. A text at the end would go on with text that
follows; everything else ends with a sign of its own.
-/

namespace TypedComponent.Markup

open Cursor (Reaches)
open Relation (ReflTransGen)

theorem startsMarkup_pair (c d : Char) (text text' : Text) :
    startsMarkup (c :: d :: text) = startsMarkup (c :: d :: text') := by
  by_cases hbrace : c = '\x7b'
  · subst hbrace
    rfl
  · by_cases hangle : c = '<'
    · subst hangle
      rfl
    · simp [startsMarkup, hbrace, hangle]

/-- Markup ends the text in front of it, whatever follows the markup. -/
theorem Meets.of_startsMarkup {text : Text} (h : startsMarkup text = true) (more : Text) :
    Meets text (text ++ more) := by
  obtain ⟨c, behind, rfl⟩ : ∃ c behind, text = c :: behind :=
    List.exists_cons_of_ne_nil fun hnil => by
      rw [hnil] at h
      cases h
  refine ⟨by simp, fun front => ?_⟩
  match front with
  | [] =>
    rw [List.nil_append, List.nil_append, h]
    rcases startsMarkup_cases h with
      ⟨_, hshape⟩ | ⟨_, hshape⟩ | ⟨d, _, hshape, hletter⟩ | ⟨_, hshape⟩ <;> rw [hshape]
    · rfl
    · rfl
    · simp [startsMarkup, hletter]
    · rfl
  | [d] => exact startsMarkup_pair d c _ _
  | d :: e :: front => exact startsMarkup_pair d e _ _

theorem nextMarkup_rest (offset : Nat) (text : Text) :
    (nextMarkup offset text).rest = [] ∨ startsMarkup (nextMarkup offset text).rest = true := by
  induction text generalizing offset with
  | nil => exact .inl rfl
  | cons c behind ih =>
    unfold nextMarkup
    split
    · next hstarts => exact .inr hstarts
    · exact ih _

namespace Outline

theorem add_nodes_suffix (outline : Outline) (node : Node) :
    outline.nodes <:+ (outline.add node).nodes := by
  unfold add
  split
  · exact List.suffix_cons _ _
  · exact List.suffix_refl _

theorem close_nodes_suffix (outline : Outline) : outline.nodes <:+ outline.close.nodes := by
  unfold close
  split
  · exact List.suffix_refl _
  · next innermost outer hopened =>
    exact add_nodes_suffix { outline with opened := outer } _

theorem Step.nodes_suffix {before after : Outline} (h : Step before after) :
    before.nodes <:+ after.nodes := by
  cases h with
  | node errors cursor found => exact add_nodes_suffix (before.advance errors cursor) found
  | closing errors cursor => exact close_nodes_suffix (before.advance errors cursor)
  | _ => exact List.suffix_refl _

namespace Leads

variable {before after : Outline}

theorem nodes_suffix (h : Leads before after) : before.nodes <:+ after.nodes := by
  induction h with
  | refl => exact List.suffix_refl _
  | tail _ hstep ih =>
    obtain ⟨-, rfl⟩ := hstep
    exact ih.trans (step_spec _).nodes_suffix

/-- An element that is open at the end of the source is a fault. -/
theorem errors_of_opened (h : Leads before after) (hfinished : after.isFinished = true)
    (hrest : before.cursor.rest = []) (hopened : before.opened ≠ []) : after.errors ≠ [] := by
  cases h using ReflTransGen.head_induction_on with
  | refl => simp [isFinished, hopened] at hfinished
  | head hstep hlead =>
    obtain ⟨-, rfl⟩ := hstep
    obtain ⟨innermost, outer, hcons⟩ := List.exists_cons_of_ne_nil hopened
    have hsuffix := errors_suffix hlead
    rw [step_of_nil hrest] at hsuffix
    intro hnone
    rw [hnone, List.suffix_nil] at hsuffix
    exact closeAtEnd_errors hcons hsuffix

end Leads

end Outline

/-- The last part of a document is text. -/
def Document.EndsInText (document : Document) : Prop :=
  ∃ span blank, .text span blank ∈ document.nodes ∧ span.stop = document.span.stop

/-- The outline of a source that has been read to its end. -/
def outlineOf (source : Text) : Outline := Outline.run (source.length + 1) (.ofSource source)

theorem parse_eq (source : Text) :
    parse source =
      ⟨⟨⟨0, Text.bytes source⟩, (outlineOf source).nodes.reverse,
        (outlineOf source).scripts.reverse, (outlineOf source).styles.reverse⟩,
        (outlineOf source).errors.reverse⟩ := rfl

theorem outlineOf_leads (source : Text) : Outline.Leads (.ofSource source) (outlineOf source) :=
  Outline.Leads.of_run _ _

theorem outlineOf_finished (source : Text) : (outlineOf source).isFinished = true :=
  parse_isFinished source

/-- In a source without faults that does not end in text every text stands in front of
markup. -/
theorem text_before_markup {source : Text} (hclean : (parse source).errors = [])
    (hends : ¬ (parse source).document.EndsInText) {middle : Outline}
    (hbefore : Outline.Leads (.ofSource source) middle) (hmore : middle.isFinished = false)
    (hafter : Outline.Leads middle.step (outlineOf source))
    (hnone : startsMarkup middle.cursor.rest = false) :
    startsMarkup middle.step.cursor.rest = true := by
  have hfaults : (outlineOf source).errors = [] := List.reverse_eq_nil_iff.mp hclean
  have hopen {outline : Outline} (h : Outline.Leads outline (outlineOf source))
      (hrest : outline.cursor.rest = []) : outline.opened = [] := by
    by_contra hopened
    exact h.errors_of_opened (outlineOf_finished source) hrest hopened hfaults
  have hrest : middle.cursor.rest ≠ [] := fun hnil =>
    Outline.opened_of_nil hmore hnil (hopen (ReflTransGen.head ⟨hmore, rfl⟩ hafter) hnil)
  have hstep := Outline.step_of_text hrest hnone
  have hcursor : middle.step.cursor =
      nextMarkup middle.cursor.next.offset middle.cursor.next.rest := by
    rw [hstep]
    exact Outline.add_cursor _ _
  rcases nextMarkup_rest middle.cursor.next.offset middle.cursor.next.rest with hend | hstarts
  · rw [← hcursor] at hend
    have hopened := hopen hafter hend
    have hstop : middle.step.cursor.offset = Text.bytes source :=
      (hbefore.reaches.trans (Outline.step_spec middle).reaches).offset_of_rest_nil hend
    refine absurd ?_ hends
    have houtermost : middle.opened = [] := by
      rw [← List.length_eq_zero_iff, hstep, Outline.readText, Outline.add_opened_length] at hopened
      exact List.length_eq_zero_iff.mp hopened
    have hlast : .text (middle.cursor.upTo middle.step.cursor)
        (Text.allBlank (middle.cursor.textTo middle.step.cursor)) ∈ middle.step.nodes := by
      rw [hcursor, hstep]
      simp [Outline.readText, Outline.add, Outline.advance, houtermost]
    exact ⟨_, _, List.mem_reverse.mpr (hafter.nodes_suffix.subset hlast), hstop⟩
  · rwa [hcursor]

/-- Everything of a document moved towards the end by a number of bytes. -/
def Document.partsShifted (document : Document) (delta : Nat) : Document where
  span := document.span.shifted delta
  nodes := document.nodes.map (·.renumbered (· + delta))
  scripts := document.scripts.map (·.renumbered (· + delta))
  styles := document.styles.map (·.renumbered (· + delta))

/-- A document with another behind it. -/
def Document.append (first second : Document) : Document where
  span := first.span.through second.span
  nodes := first.nodes ++ second.nodes
  scripts := first.scripts ++ second.scripts
  styles := first.styles ++ second.styles

/-- The start of a source is the start of the source with another behind it. -/
theorem ofSource_append_twin (a b : Text) :
    (Outline.ofSource a).Twin id [] b (.ofSource a) (.ofSource (a ++ b)) (.ofSource (a ++ b)) where
  cursor := ⟨a, (List.append_nil a).symm, rfl, fun _ _ => rfl⟩
  opened := rfl
  nodes := .refl
  scripts := .refl
  styles := .refl
  errors := .refl

/-- Outside of all elements a source begins where it stands in another one. -/
theorem ofSource_twin_at {source tail : Text} {o : Outline} {offset : Nat}
    (hopened : o.opened = []) (hcursor : o.cursor = ⟨offset, source ++ tail⟩) :
    (Outline.ofSource source).Twin (· + offset) [] tail (.ofSource source) o o where
  cursor := by
    refine ⟨source, (List.append_nil source).symm, by rw [hcursor], fun count _ => ?_⟩
    rw [hcursor]
    simp only [Outline.ofSource, Cursor.ofText]
    omega
  opened := by
    rw [hopened]
    rfl
  nodes := .refl
  scripts := .refl
  styles := .refl
  errors := .refl

/-- Behind a source that is read to its end another one begins. -/
theorem ofSource_behind_twin {a b : Text} {first second between : Outline}
    (h : (outlineOf a).Twin id [] b first second between) :
    (Outline.ofSource b).Twin (· + Text.bytes a) [] [] (.ofSource b) between between where
  cursor := by
    have hfinished := outlineOf_finished a
    rw [Outline.isFinished, Bool.and_eq_true, List.isEmpty_iff] at hfinished
    have hoffset := (outlineOf_leads a).reaches.offset_of_rest_nil hfinished.1
    obtain ⟨common, hown, hbetween, hplace⟩ := h.cursor
    rw [hfinished.1, List.append_nil] at hown
    have hstart := hplace 0 (Nat.zero_le _)
    rw [hoffset] at hstart
    refine ⟨b, (List.append_nil b).symm, by simp [hbetween, ← hown], fun count _ => ?_⟩
    have hshift : Text.bytes a = between.cursor.offset := hstart
    simp only [Outline.ofSource, Cursor.ofText, ← hshift]
    omega
  opened := by
    have hfinished := outlineOf_finished a
    rw [Outline.isFinished, Bool.and_eq_true, List.isEmpty_iff, List.isEmpty_iff] at hfinished
    rw [h.opened, hfinished.2]
    rfl
  nodes := .refl
  scripts := .refl
  styles := .refl
  errors := .refl

/-- A source without faults, which does not end in text, and any source behind it are read one
after the other. -/
theorem parse_append (a b : Text) (hclean : (parse a).errors = [])
    (hends : ¬ (parse a).document.EndsInText) :
    parse (a ++ b) =
      ⟨(parse a).document.append ((parse b).document.partsShifted (Text.bytes a)),
        (parse b).errors.map (·.renumbered (· + Text.bytes a))⟩ := by
  have hfaults : (outlineOf a).errors = [] := List.reverse_eq_nil_iff.mp hclean
  obtain ⟨between, hlead, hbetween⟩ := (outlineOf_leads a).twin (ofSource_append_twin a b)
    (.inr ⟨hfaults, List.nil_suffix⟩) fun middle hbefore hmore hafter hnone behind hbehind => by
      have hmarkup := text_before_markup hclean hends hbefore hmore hafter hnone
      rw [hbehind, List.append_nil] at hmarkup
      rw [List.append_nil]
      exact Meets.of_startsMarkup hmarkup b
  obtain ⟨last, hlast, htwin⟩ := (outlineOf_leads b).twin (ofSource_behind_twin hbetween)
    (.inl ⟨rfl, rfl⟩) fun _ _ _ _ _ _ _ => Meets.refl _
  have hfinished : last.isFinished = true := htwin.finished (outlineOf_finished b)
  have hall : Outline.Leads (.ofSource (a ++ b)) last := hlead.trans hlast
  have hlast : outlineOf (a ++ b) = last := hall.run_eq hfinished (parse_isFinished (a ++ b))
  have hspan : Span.through ⟨0, Text.bytes a⟩ (Span.shifted ⟨0, Text.bytes b⟩ (Text.bytes a)) =
      ⟨0, Text.bytes (a ++ b)⟩ := by
    rw [Text.bytes_append, Nat.add_comm]
    rfl
  rw [parse_eq, parse_eq a, parse_eq b, hlast, htwin.nodes.eq_map, htwin.scripts.eq_map,
    htwin.styles.eq_map, htwin.errors.eq_map, hbetween.nodes.eq_map, hbetween.scripts.eq_map,
    hbetween.styles.eq_map, hbetween.errors.eq_map, hfaults]
  simp only [Document.append, Document.partsShifted, hspan, Outline.ofSource, List.append_nil,
    List.reverse_append, List.map_reverse, Node.map_renumbered_id, List.map_nil,
    ScriptBlock.renumbered_id, StyleBlock.renumbered_id, List.map_id']

theorem parse_append_unclosed :
    ((parse "<br>".toList).errors = [] ∧ ¬ (parse "<br>".toList).document.EndsInText) ∧
      parse ("<br>".toList ++ "a\x7bb".toList) =
        ⟨⟨⟨0, 7⟩, [.element ⟨0, 4⟩ "br".toList [] false [], .text ⟨4, 5⟩ false,
            .text ⟨5, 7⟩ false], [], []⟩, [⟨.unclosedExpression, ⟨5, 7⟩⟩]⟩ := by
  have hclean : (parse "<br>".toList).errors = [] := by decide +kernel
  have hends : ¬ (parse "<br>".toList).document.EndsInText := by
    rintro ⟨span, blank, hmem, -⟩
    have hnodes : (parse "<br>".toList).document.nodes = [.element ⟨0, 4⟩ "br".toList [] false []] :=
      rfl
    rw [hnodes, List.mem_singleton] at hmem
    cases hmem
  refine ⟨⟨hclean, hends⟩, ?_⟩
  rw [parse_append _ _ hclean hends]
  rfl

end TypedComponent.Markup
