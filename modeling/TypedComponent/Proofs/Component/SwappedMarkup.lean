import TypedComponent.Proofs.Component.Acceptance
import TypedComponent.Proofs.Edit.SwappedCode
import TypedComponent.Proofs.Markup.Aside
import TypedComponent.Proofs.Markup.Rebodying

/-!
What a component takes from its markup, in two sources that differ in a stretch.
If the stretch is cut out, no attribute reaches into it, so the slots hand over
the same props, and comments and scripts are edited in both sources alike, each
at its place.
-/

namespace TypedComponent

/-- Folds over the same values, renumbered in one of them, fail alike. -/
theorem Except.Alongside.foldlM {ε δ α β σ τ : Type} {R : σ → τ → Prop} {c : α → β}
    {f : σ → α → Except ε σ} {g : τ → β → Except δ τ} {values : List α}
    (hstep : ∀ a ∈ values, ∀ s t, R s t → Except.Alongside R (f s a) (g t (c a)))
    {s : σ} {t : τ} (h : R s t) :
    Except.Alongside R (values.foldlM f s) ((values.map c).foldlM g t) := by
  induction values generalizing s t with
  | nil => exact .ok h
  | cons first others ih =>
    rw [List.map_cons, List.foldlM_cons, List.foldlM_cons]
    exact (hstep first List.mem_cons_self s t h).bind fun s' t' hnext =>
      ih (fun a ha => hstep a (List.mem_cons_of_mem _ ha)) hnext

namespace Markup

section Renumbered

variable (place : Nat → Nat)

mutual

theorem Node.family_renumbered (node : Node) :
    (node.renumbered place).family = node.family.map (·.renumbered place) := by
  cases node with
  | element span name attributes selfClosing children =>
    rw [renumbered_element, family, family, List.map_cons, renumbered_element,
      Node.familyOfAll_renumbered children]
  | text span blank => rfl
  | comment span => rfl
  | mustache span inner kind => rfl

theorem Node.familyOfAll_renumbered (nodes : List Node) :
    Node.familyOfAll (nodes.map (·.renumbered place)) =
      (Node.familyOfAll nodes).map (·.renumbered place) := by
  cases nodes with
  | nil => rfl
  | cons first others =>
    rw [List.map_cons, Node.familyOfAll, Node.familyOfAll, List.map_append,
      Node.family_renumbered first, Node.familyOfAll_renumbered others]

end

@[simp] theorem Node.isComment_renumbered (node : Node) :
    (node.renumbered place).isComment = node.isComment := by
  cases node <;> rfl

@[simp] theorem Node.isSlot_renumbered (node : Node) :
    (node.renumbered place).isSlot = node.isSlot := by
  cases node <;> rfl

@[simp] theorem Node.span_renumbered (node : Node) :
    (node.renumbered place).span = node.span.renumbered place := by
  cases node <;> rfl

@[simp] theorem Node.attributes_renumbered (node : Node) :
    (node.renumbered place).attributes = node.attributes.map (·.renumbered place) := by
  cases node with
  | element => rw [renumbered_element]; rfl
  | text span blank => rfl
  | comment span => rfl
  | mustache span inner kind => rfl

theorem Attribute.find?_renumbered (name : Text) (attributes : List Attribute) :
    Attribute.find? name (attributes.map (·.renumbered place)) =
      (Attribute.find? name attributes).map fun (span, values) =>
        (span.renumbered place, values.map (·.renumbered place)) := by
  induction attributes with
  | nil => rfl
  | cons first others ih =>
    unfold Attribute.find? at ih ⊢
    rw [List.map_cons, List.findSome?_cons, List.findSome?_cons, ih]
    cases first with
    | named span own values =>
      by_cases hown : own = name <;> simp [renumbered, hown]
    | spread span inner => rfl

end Renumbered

end Markup

namespace Component

open Markup (Attribute Document Fragment Node ScriptBlock)
open Markup.Outline (Reread)

section Slots

variable {swap : Swap} {attributes : List Attribute} {values : List Fragment}

theorem slotName_alongside (place : Nat → Nat) (attributes : List Attribute) :
    Except.Alongside (fun name other => other = name) (slotName attributes)
      (slotName (attributes.map (·.renumbered place))) := by
  unfold slotName
  rw [Attribute.find?_renumbered]
  rcases Attribute.find? nameAttribute attributes with
    _ | ⟨span, _ | ⟨⟨own, raw⟩ | ⟨own, inner⟩, _ | ⟨second, others⟩⟩⟩
  · exact .ok rfl
  · exact .error _ _
  · exact .ok rfl
  · exact .error _ _
  · exact .error _ _
  · exact .error _ _

/-- The text of an expression is the same in both sources. -/
def SameText (swap : Swap) : Fragment → Prop
  | .text _ _ => True
  | .expression _ inner =>
    Text.slice swap.second (inner.renumbered swap.place) = Text.slice swap.first inner

theorem operand_renumbered {value : Fragment} (h : SameText swap value) :
    operand swap.second (value.renumbered swap.place) = operand swap.first value := by
  cases value with
  | text span raw => rfl
  | expression span inner => exact congrArg (fun inner => '(' :: (inner ++ [')'])) h

theorem operands_renumbered (h : ∀ value ∈ values, SameText swap value) :
    operands swap.second (values.map (·.renumbered swap.place)) = operands swap.first values := by
  have hmap : (values.map (·.renumbered swap.place)).map (operand swap.second) =
      values.map (operand swap.first) := by
    rw [List.map_map]
    exact List.map_congr_left fun value hvalue => operand_renumbered (h value hvalue)
  rcases values with _ | ⟨⟨span, raw⟩ | ⟨span, inner⟩, others⟩
  · rfl
  · exact hmap
  · exact congrArg (Text.quoted [] :: ·) hmap

theorem valueExpression_renumbered (h : ∀ value ∈ values, SameText swap value) :
    valueExpression swap.second (values.map (·.renumbered swap.place)) =
      valueExpression swap.first values := by
  have hsum := operands_renumbered h
  rcases values with _ | ⟨⟨span, raw⟩ | ⟨span, inner⟩, _ | ⟨second, others⟩⟩
  · rfl
  · rfl
  · exact congrArg (Text.join ['+']) hsum
  · exact h _ List.mem_cons_self
  · exact congrArg (Text.join ['+']) hsum

/-- An attribute beside the stretch has the same expressions. -/
theorem sameText_of_sound {span : Span} {name : Text}
    (hsound : (Attribute.named span name values).Sound swap.first)
    (hapart : span.Apart swap.span) : ∀ value ∈ values, SameText swap value := by
  obtain ⟨-, start, stop, hstart, hvalues, hstop⟩ := hsound
  intro value hvalue
  cases value with
  | text own raw => trivial
  | expression own inner =>
    obtain ⟨-, hinner, hstartInner, hstopInner⟩ := hvalues.sound _ hvalue
    have hordered : Span.Ordered start (values.map Fragment.span) stop :=
      hvalues.tiles.mono fun _ _ => Nat.le_of_eq
    have hmem := List.mem_map_of_mem (f := Fragment.span) hvalue
    have hfirst := hordered.start_le hmem
    have hlast := hordered.stop_le hmem
    refine Swap.slice_place hinner.start_place hinner.stop_place hinner.start_le ?_
    unfold Span.Apart at hapart
    dsimp only [Fragment.span] at hfirst hlast
    omega

theorem slotProp?_renumbered {attr : Attribute} (hsound : attr.Sound swap.first)
    (hapart : attr.span.Apart swap.span) :
    slotProp? swap.second (attr.renumbered swap.place) = slotProp? swap.first attr := by
  cases attr with
  | named span name values =>
    simp only [Attribute.renumbered, slotProp?, List.map_eq_nil_iff,
      valueExpression_renumbered (sameText_of_sound hsound hapart)]
  | spread span inner => rfl

theorem slotProps_renumbered
    (h : ∀ attr ∈ attributes, attr.Sound swap.first ∧ attr.span.Apart swap.span) :
    slotProps swap.second (attributes.map (·.renumbered swap.place)) =
      slotProps swap.first attributes := by
  unfold slotProps
  rw [List.filterMap_map]
  exact congrArg Registry.ofList (List.filterMap_congr fun attr hattr =>
    slotProp?_renumbered (h attr hattr).1 (h attr hattr).2)

theorem Slots.add_alongside {node : Node}
    (h : ∀ attr ∈ node.attributes, attr.Sound swap.first ∧ attr.span.Apart swap.span)
    (slots : Slots) :
    Except.Alongside (fun added other => other = added) (Slots.add swap.first slots node)
      (Slots.add swap.second slots (node.renumbered swap.place)) := by
  unfold Slots.add
  rw [Node.attributes_renumbered, slotProps_renumbered h]
  exact (slotName_alongside swap.place node.attributes).map fun name other hname => by rw [hname]

end Slots

section Documents

variable {swap : Swap} (h : Reread swap)
include h

theorem cut_spares {span : Span} (hcut : (Markup.parse swap.first).document.IsCut span) :
    swap.Spares span := by
  rcases (Markup.parse_cuts swap.first).2 span swap.span hcut h.is_cut with rfl | hapart
  · exact ⟨.inl (Nat.le_refl _), .inr (Nat.le_refl _)⟩
  · have hlt := swap.span_lt
    have hle := ((Markup.parse_cuts swap.first).1 span hcut).start_le
    unfold Span.Apart at hapart
    unfold Swap.Spares Swap.Outside
    omega

theorem ofNodes_alongside :
    Except.Alongside (fun slots other => other = slots)
      (Slots.ofNodes swap.first (Markup.parse swap.first).document.nodes)
      (Slots.ofNodes swap.second (Markup.parse swap.second).document.nodes) := by
  unfold Slots.ofNodes
  rw [h.nodes, Node.familyOfAll_renumbered,
    List.filter_of_map fun node _ => Node.isSlot_renumbered swap.place node]
  refine Except.Alongside.foldlM (fun node hnode slots other hslots => ?_) rfl
  rw [hslots]
  refine Slots.add_alongside (fun attr hattr => ?_) slots
  obtain ⟨hsound, hapart⟩ :=
    Markup.parse_attributes swap.first (List.mem_of_mem_filter hnode) hattr
  exact ⟨hsound, hapart _ h.is_cut⟩

theorem fragmentConverter_renumbered :
    fragmentConverter (Markup.parse swap.second).document =
      (fragmentConverter (Markup.parse swap.first).document).map (·.renumbered swap.place) := by
  unfold fragmentConverter Document.allNodes
  rw [h.nodes, Node.familyOfAll_renumbered,
    List.filter_of_map fun node _ => Node.isComment_renumbered swap.place node]
  simp only [List.map_cons, List.map_append, List.map_map, Function.comp_def, Edit.renumbered,
    Node.span_renumbered, List.map_nil, List.cons_append]

theorem styles_renumbered :
    (Markup.parse swap.second).document.styles.map (fun style => Edit.remove style.span) =
      ((Markup.parse swap.first).document.styles.map fun style => Edit.remove style.span).map
        (·.renumbered swap.place) := by
  have hspans := congrArg (List.map Edit.remove) h.styles
  rw [List.map_map, List.map_map] at hspans
  rw [List.map_map]
  exact hspans

theorem markupEdits_outside :
    ∀ edit ∈ markupEdits (Markup.parse swap.first).document, edit.Outside swap := by
  intro edit hedit
  rcases mem_markupEdits hedit with ⟨text, rfl | rfl⟩ | ⟨cut, hcut, rfl⟩
  · trivial
  · trivial
  · exact cut_spares h (isCut_of_mem hcut)

theorem markupEdits_removes :
    (markupEdits (Markup.parse swap.first).document).any (Edit.removes swap.span.start) = true := by
  have hremoves : (Edit.remove swap.span).removes swap.span.start = true :=
    (Span.contains_iff ..).mpr ⟨Nat.le_refl _, swap.span_lt⟩
  refine List.any_eq_true.mpr ⟨.remove swap.span, ?_, hremoves⟩
  rcases h.is_cut with hcomment | ⟨style, hstyle, hspan⟩
  · refine List.mem_append_left _ (List.mem_cons_of_mem _ (List.mem_append_left _ ?_))
    exact List.mem_map.mpr ⟨.comment swap.span, List.mem_filter.mpr ⟨hcomment, rfl⟩, rfl⟩
  · exact List.mem_append_right _ (List.mem_map.mpr ⟨style, hstyle, by rw [hspan]⟩)

theorem instanceScript?_renumbered :
    (Markup.parse swap.second).document.instanceScript? =
      (Markup.parse swap.first).document.instanceScript?.map (·.renumbered swap.place) := by
  unfold Document.instanceScript?
  rw [h.scripts]
  exact List.find?_of_map fun script _ => rfl

variable {script : ScriptBlock}

theorem script_apart (hscript : script ∈ (Markup.parse swap.first).document.scripts) :
    swap.span.Apart script.span := by
  obtain ⟨hcomments, hstyles, -⟩ := Markup.parse_separated swap.first hscript
  rcases h.is_cut with hcomment | ⟨style, hstyle, hspan⟩
  · exact hcomments _ hcomment
  · rw [← hspan]
    exact hstyles style hstyle

theorem script_spares (hscript : script ∈ (Markup.parse swap.first).document.scripts) :
    swap.Spares script.span ∧ swap.Spares script.content := by
  have hapart := script_apart h hscript
  have hlies := Markup.parse_scripts swap.first hscript
  have hopening := hlies.opening_lt
  have hcontent := hlies.content_place.start_le
  have hclosing := hlies.stop_le
  unfold Span.Apart at hapart
  unfold Swap.Spares Swap.Outside
  omega

theorem scriptEdits_renumbered
    (hscript : script ∈ (Markup.parse swap.first).document.scripts) :
    scriptEdits (script.renumbered swap.place) =
      (scriptEdits script).map (·.renumbered swap.place) := by
  obtain ⟨hspan, hcontent⟩ := script_spares h hscript
  have hfirst : swap.place script.span.start = 0 ↔ script.span.start = 0 := by
    rw [← Swap.place_eq hspan.1 swap.outside_zero, swap.place_zero]
  have hlast := Swap.place_eq hcontent.2 hspan.2
  simp only [scriptEdits, ScriptBlock.renumbered, Span.renumbered, hfirst, hlast]
  split <;> split <;> simp [Edit.renumbered, Span.renumbered]

theorem scriptEdits_spare (hscript : script ∈ (Markup.parse swap.first).document.scripts) :
    ∀ edit ∈ scriptEdits script, edit.Outside swap := by
  obtain ⟨hspan, hcontent⟩ := script_spares h hscript
  intro edit hedit
  simp only [scriptEdits, List.mem_append, List.mem_cons, List.not_mem_nil, or_false] at hedit
  rcases hedit with hmove | rfl | rfl
  · split at hmove
    · cases hmove
    · rw [List.mem_singleton.mp hmove]
      exact ⟨hspan, swap.outside_zero⟩
  · exact ⟨hspan.1, hcontent.1⟩
  · split
    · exact hcontent.2
    · exact ⟨hcontent.2, hspan.2⟩

/-- The script itself is the same in both sources. -/
theorem script_content (hscript : script ∈ (Markup.parse swap.first).document.scripts) :
    Text.slice swap.second (script.renumbered swap.place).content =
      Text.slice swap.first script.content := by
  have hapart := script_apart h hscript
  have hlies := Markup.parse_scripts swap.first hscript
  have hopening := hlies.opening_lt
  have hclosing := hlies.stop_le
  obtain ⟨hstart, hstop, hle⟩ := hlies.content_place
  refine Swap.slice_place hstart hstop hle ?_
  unfold Span.Apart at hapart
  omega

/-- Offsets in the script keep their distance to its start. -/
theorem script_offset (hscript : script ∈ (Markup.parse swap.first).document.scripts)
    {offset : Nat} (hoffset : offset ≤ Text.bytes (Text.slice swap.first script.content)) :
    swap.Outside (offset + script.content.start) ∧
      swap.place (offset + script.content.start) = offset + swap.place script.content.start := by
  have hapart := script_apart h hscript
  have hlies := Markup.parse_scripts swap.first hscript
  have hopening := hlies.opening_lt
  have hclosing := hlies.stop_le
  obtain ⟨hstart, hstop, hle⟩ := hlies.content_place
  obtain ⟨-, -, -, -, hlength⟩ := Text.exists_slice script.content hstart hstop hle
  rw [hlength, Span.length] at hoffset
  have haside : script.content.start + offset ≤ swap.span.start ∨
      swap.span.stop ≤ script.content.start := by
    unfold Span.Apart at hapart
    omega
  rw [Nat.add_comm offset, Nat.add_comm offset]
  refine ⟨?_, Swap.place_add haside⟩
  unfold Swap.Outside
  omega

end Documents

end Component

end TypedComponent
