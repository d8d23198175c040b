import TypedComponent.Proofs.Component.Passes
import TypedComponent.Proofs.Component.Splices
import TypedComponent.Proofs.Markup.Places

/-!
What the edits of all passes over a document do, kind by kind. Each kind of edit
is told apart once here, and the code around markup without a script is read off.
-/

namespace TypedComponent.Component

open Markup (Document Node ScriptBlock StyleBlock)
open Script (Statement)

/-- What is cut out of the markup of a document: comments and style blocks. -/
def markupCuts (document : Document) : List Span :=
  (document.allNodes.filter Node.isComment).map Node.span ++
    document.styles.map StyleBlock.span

theorem isCut_of_mem {document : Document} {cut : Span} (h : cut ∈ markupCuts document) :
    document.IsCut cut := by
  rcases List.mem_append.mp h with hcomment | hstyle
  · obtain ⟨node, hnode, rfl⟩ := List.mem_map.mp hcomment
    obtain ⟨hmem, hkind⟩ := List.mem_filter.mp hnode
    cases node with
    | comment span => exact .inl hmem
    | _ => cases hkind
  · obtain ⟨style, hmem, rfl⟩ := List.mem_map.mp hstyle
    exact .inr ⟨style, hmem, rfl⟩

/-- What is cut out of the markup is apart from every script. -/
theorem markupCuts_apart (source : Text) {script : ScriptBlock}
    (hscript : script ∈ (Markup.parse source).document.scripts) :
    ∀ cut ∈ markupCuts (Markup.parse source).document, cut.Apart script.span := by
  obtain ⟨hcomments, hstyles, -⟩ := Markup.parse_separated source hscript
  intro cut hcut
  rcases isCut_of_mem hcut with hcomment | ⟨style, hstyle, rfl⟩
  · exact hcomments cut hcomment
  · exact hstyles style hstyle

/-- The declarations for reactive statements, with their places in the script. -/
def declarations (declared : List Text) (statements : List Statement) : List (Nat × Text) :=
  (firstAssignments declared statements).map fun (offset, name) => (offset, declarationOf name)

def componentEdits (document : Document) (framing : List Edit) (ending : Text) : List Edit :=
  fragmentConverter document ++ document.styles.map (fun style => Edit.remove style.span) ++
    framing ++ [.append ending]

section Readings

variable (document : Document) (framing : List Edit) (ending : Text)

theorem removed_componentEdits :
    (componentEdits document framing ending).filterMap Edit.removed? =
      markupCuts document ++ framing.filterMap Edit.removed? := by
  simp [componentEdits, fragmentConverter, markupCuts, List.filterMap_cons, List.filterMap_map,
    Function.comp_def, Edit.removed?]

theorem placed_componentEdits :
    (componentEdits document framing ending).filterMap Edit.placed? =
      framing.filterMap Edit.placed? := by
  simp [componentEdits, fragmentConverter, List.filterMap_cons, List.filterMap_map,
    Function.comp_def, Edit.placed?]

theorem relocations_componentEdits :
    (componentEdits document framing ending).filterMap Edit.relocation? =
      framing.filterMap Edit.relocation? := by
  simp [componentEdits, fragmentConverter, List.filterMap_cons, List.filterMap_map,
    Function.comp_def, Edit.relocation?]

theorem intro_componentEdits (h : framing.filterMap Edit.prepended? = []) :
    Cellwise.intro (componentEdits document framing ending) = "<>".toList := by
  simp [Cellwise.intro, componentEdits, fragmentConverter, List.filterMap_cons, List.filterMap_map,
    Function.comp_def, Edit.prepended?, h]

theorem outro_componentEdits :
    Cellwise.outro (componentEdits document framing ending) =
      "</>".toList ++ Cellwise.outro framing ++ ending := by
  simp [Cellwise.outro, componentEdits, fragmentConverter, List.filterMap_cons, List.filterMap_map,
    Function.comp_def, Edit.appended?]

theorem overwrite_mem_componentEdits {range : Span} {text : Text} :
    .overwrite range text ∈ componentEdits document framing ending ↔
      .overwrite range text ∈ framing := by
  simp [componentEdits, fragmentConverter]

theorem insertsAhead_componentEdits (h : ∀ edit ∈ framing, edit.InsertsAhead) :
    ∀ edit ∈ componentEdits document framing ending, edit.InsertsAhead := by
  intro edit hedit
  cases edit with
  | insertAfter offset text =>
    exact h _ (by simpa [componentEdits, fragmentConverter] using hedit)
  | _ => exact True.intro

end Readings

theorem pieces_componentEdits {source : Text} {document : Document} {framing : List Edit}
    {ending : Text} (hintro : framing.filterMap Edit.prepended? = [])
    (hahead : ∀ edit ∈ framing, edit.InsertsAhead) :
    (Cellwise.pieces source (componentEdits document framing ending)).flatMap Piece.text =
      "<>".toList ++
        ((Cellwise.order source (componentEdits document framing ending)).flatMap
          (Cellwise.held (componentEdits document framing ending))).flatMap Piece.text ++
        textsAt (framing.filterMap Edit.placed?) (Text.bytes source) ++
        ("</>".toList ++ Cellwise.outro framing ++ ending) := by
  have hafter := Cellwise.inserted_after
    (insertsAhead_componentEdits document framing ending hahead)
  rw [Cellwise.pieces, intro_componentEdits document framing ending hintro,
    outro_componentEdits, hafter, List.flatMap_append, List.flatMap_append, List.flatMap_append,
    Cellwise.inserted_before_text, placed_componentEdits]
  simp [Piece.text]

/-- Markup without a script stands in the function as it is, but for comments
and style blocks. -/
theorem wrapped_text (source : Text) (document : Document) (slots ending : Text) :
    (Cellwise.pieces source (componentEdits document (wrapEdits slots) ending)).flatMap
        Piece.text =
      "<>".toList ++ (functionOpening ++ "<>".toList) ++
        Text.without source (markupCuts document) ++
        ("</>".toList ++ (";".toList ++ functionEnding (writtenProps .empty) slots) ++
          ending) := by
  have hahead : ∀ edit ∈ wrapEdits slots, edit.InsertsAhead := by
    simp [wrapEdits, Edit.InsertsAhead]
  have hplaced : (wrapEdits slots).filterMap Edit.placed? =
      [(0, functionOpening ++ "<>".toList)] := rfl
  have hremoved : (componentEdits document (wrapEdits slots) ending).filterMap Edit.removed? =
      markupCuts document := by
    rw [removed_componentEdits]
    exact List.append_nil _
  have hover : ∀ range text,
      .overwrite range text ∉ componentEdits document (wrapEdits slots) ending := by
    intro range text
    rw [overwrite_mem_componentEdits]
    simp [wrapEdits]
  have horder : Cellwise.order source (componentEdits document (wrapEdits slots) ending) =
      Text.cells source := by
    rw [Cellwise.order, relocations_componentEdits]
    rfl
  have houtro : Cellwise.outro (wrapEdits slots) =
      ";".toList ++ functionEnding (writtenProps .empty) slots := by
    simp [Cellwise.outro, wrapEdits, List.filterMap_cons, Edit.appended?]
  have hfirst := Cellwise.held_placed_first source
    (insertsAhead_componentEdits document _ ending hahead)
    ((placed_componentEdits document _ ending).trans hplaced) hover
  rw [pieces_componentEdits rfl hahead, horder, houtro, hplaced, List.append_assoc "<>".toList,
    hfirst, hremoved]
  simp only [List.append_assoc]

section Head

variable (script : ScriptBlock) (statements : List Statement) (surface : Surface) (slots : Text)

theorem removed_headEdits :
    (headEdits script statements surface slots).filterMap Edit.removed? =
      (statements.filterMap exportPart?).map (·.shifted script.content.start) := by
  unfold headEdits scriptEdits
  split <;> split <;> simp [exportCuts, reactiveDeclarations, List.filterMap_cons,
    List.filterMap_map, Function.comp_def, Edit.removed?]

/-- A script that never ends has the beginning of the fragment placed at its
end, in front of what else is placed there. -/
theorem placed_headEdits :
    (headEdits script statements surface slots).filterMap Edit.placed? =
      (if script.content.stop = script.span.stop then [(script.content.stop, fragmentOpening)]
        else []) ++
      (declarations surface.declared statements).map fun text =>
        (text.1 + script.content.start, text.2) := by
  unfold headEdits scriptEdits
  split <;> split <;> simp [exportCuts, reactiveDeclarations, declarations, List.filterMap_cons,
    List.filterMap_map, Function.comp_def, Edit.placed?]

theorem relocations_headEdits (hlt : script.span.start < script.span.stop) :
    (headEdits script statements surface slots).filterMap Edit.relocation? =
      if script.span.start = 0 then [] else [⟨script.span, 0⟩] := by
  unfold headEdits scriptEdits
  have hmoves (hstart : script.span.start ≠ 0) : ¬ (script.span.start = script.span.stop ∨
      0 = script.span.start ∨ 0 = script.span.stop) := by omega
  split
  · split <;> simp [exportCuts, reactiveDeclarations, List.filterMap_cons, List.filterMap_map,
      Function.comp_def, Edit.relocation?]
  · next hstart =>
    split <;> simp [exportCuts, reactiveDeclarations, List.filterMap_cons, List.filterMap_map,
      Function.comp_def, Edit.relocation?, hmoves hstart]

theorem prepended_headEdits :
    (headEdits script statements surface slots).filterMap Edit.prepended? = [] := by
  unfold headEdits scriptEdits
  split <;> split <;> simp [exportCuts, reactiveDeclarations, List.filterMap_cons,
    List.filterMap_map, Function.comp_def, Edit.prepended?]

theorem outro_headEdits :
    Cellwise.outro (headEdits script statements surface slots) =
      functionEnding (writtenProps surface.exports) slots := by
  unfold Cellwise.outro headEdits scriptEdits
  split <;> split <;> simp [exportCuts, reactiveDeclarations, List.filterMap_cons,
    List.filterMap_map, Function.comp_def, Edit.appended?]

theorem overwrite_mem_headEdits {range : Span} {text : Text} :
    .overwrite range text ∈ headEdits script statements surface slots ↔
      (range = ⟨script.span.start, script.content.start⟩ ∧ text = functionOpening) ∨
        (script.content.stop ≠ script.span.stop ∧
          range = ⟨script.content.stop, script.span.stop⟩ ∧ text = fragmentOpening) := by
  unfold headEdits scriptEdits
  split <;> split <;> simp_all [exportCuts, reactiveDeclarations]

theorem insertsAhead_headEdits :
    ∀ edit ∈ headEdits script statements surface slots, edit.InsertsAhead := by
  intro edit hedit
  cases edit with
  | insertAfter offset text =>
    unfold headEdits scriptEdits at hedit
    split at hedit <;> split at hedit <;> simp [exportCuts, reactiveDeclarations] at hedit
  | _ => exact True.intro

end Head

end TypedComponent.Component
