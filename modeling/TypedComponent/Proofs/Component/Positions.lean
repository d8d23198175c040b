import TypedComponent.Proofs.Component.TypedCode
import TypedComponent.Proofs.Edit.Traces

/-!
Where the bytes of a component are in its typed form. Comments, style blocks and
what made a statement an export are nowhere, the tags of the instance script
are in the texts around the function's body, and every other byte is copied.
-/

namespace TypedComponent.Component

open Markup (Document ScriptBlock)
open Script (Statement)

section Embedded

variable {source : Text} {script : ScriptBlock} {cuts parts : List Span}
  {found : List (Nat × Text)} {edits : List Edit} {buffer : EditBuffer} {offset : Nat}

theorem lost_of_cut {removed : List Span} (h : buffer.Records source edits)
    (hremoved : edits.filterMap Edit.removed? = removed)
    (hcut : removed.any (·.contains offset) = true) :
    buffer.finish.map.generatedPosition? offset = none := by
  obtain ⟨range, hmem, hin⟩ := List.any_eq_true.mp hcut
  rw [← hremoved] at hmem
  exact h.lost_of_removed (Edit.mem_removed.mp hmem) hin

theorem not_removed {removed : List Span} (hremoved : edits.filterMap Edit.removed? = removed)
    (hkept : removed.any (·.contains offset) = false) :
    ∀ range, .remove range ∈ edits → range.contains offset = false := by
  intro range hedit
  have hmem := Edit.mem_removed.mpr hedit
  rw [hremoved] at hmem
  rw [List.any_eq_false] at hkept
  exact Bool.not_eq_true _ ▸ hkept range hmem

namespace Embeds

variable (e : Embeds source script cuts parts found edits) (h : buffer.Records source edits)

include e h

/-- A byte of the opening tag is found in the beginning of the function. -/
theorem opening_leadsInto
    (hin : (⟨script.span.start, script.content.start⟩ : Span).contains offset = true) :
    buffer.finish.map.LeadsInto buffer.finish.code (Cellwise.intro edits) functionOpening
      offset := by
  have hheads := e.heads h
  have horder : Cellwise.order source edits =
      [] ++ (Text.cellsIn source ⟨script.span.start, script.content.start⟩ ++
        (Text.cellsIn source script.content ++
          Text.cellsIn source ⟨script.content.stop, script.span.stop⟩ ++
            (Text.cellsIn source ⟨0, script.span.start⟩ ++
              Text.cellsIn source ⟨script.span.stop, Text.bytes source⟩))) := by
    rw [hheads.order_eq, hheads.script_cells]
    simp only [List.append_assoc, List.nil_append]
  have hleads := h.leadsInto_of_order hheads.opening (by decide) hin horder
  rw [Cellwise.inserted_before_text, Cellwise.inserted_after e.ahead,
    hheads.placed_at_start] at hleads
  simpa using hleads

/-- A byte of the closing tag is found in the beginning of the fragment. -/
theorem closing_leadsInto
    (hin : (⟨script.content.stop, script.span.stop⟩ : Span).contains offset = true) :
    buffer.finish.map.LeadsInto buffer.finish.code
      (Cellwise.intro edits ++
        (functionOpening ++ Text.spliced (Text.slice source script.content) parts found))
      fragmentOpening offset := by
  have hheads := e.heads h
  have hedit : .overwrite ⟨script.content.stop, script.span.stop⟩ fragmentOpening ∈ edits :=
    (e.overwritten _ _).mpr (.inr ⟨rfl, rfl⟩)
  have horder : Cellwise.order source edits =
      (Text.cellsIn source ⟨script.span.start, script.content.start⟩ ++
        Text.cellsIn source script.content) ++
          (Text.cellsIn source ⟨script.content.stop, script.span.stop⟩ ++
            (Text.cellsIn source ⟨0, script.span.start⟩ ++
              Text.cellsIn source ⟨script.span.stop, Text.bytes source⟩)) := by
    rw [hheads.order_eq, hheads.script_cells]
    simp only [List.append_assoc]
  have hleads := h.leadsInto_of_order hedit (by decide) hin horder
  rw [Cellwise.inserted_before_text, Cellwise.inserted_after e.ahead, e.placed_at_stop,
    List.flatMap_append, List.flatMap_append, hheads.opening_text h,
    hheads.inside_text] at hleads
  rw [Text.spliced_eq, hheads.bytes_content]
  simpa only [List.flatMap_nil, List.append_nil, List.append_assoc] using hleads

theorem copies_of_kept (hbound : offset < Text.bytes source)
    (hkept : (cuts ++ parts.map (·.shifted script.content.start)).any (·.contains offset) = false)
    (hopening : (⟨script.span.start, script.content.start⟩ : Span).contains offset = false)
    (hclosing : (⟨script.content.stop, script.span.stop⟩ : Span).contains offset = false) :
    buffer.finish.map.Copies source buffer.finish.code offset := by
  refine h.copies_of_kept hbound ⟨not_removed e.removed hkept, ?_⟩
  intro range text hedit
  rcases (e.overwritten range text).mp hedit with ⟨rfl, -⟩ | ⟨rfl, -⟩
  · exact hopening
  · exact hclosing

end Embeds

end Embedded

/-- What is cut out of a script, by its places in the component. -/
def scriptCuts (script : ScriptBlock) (statements : List Statement) : List Span :=
  (statements.filterMap exportPart?).map (·.shifted script.content.start)

/-- The place of every byte of a component that has a typed form, provided that
the parser places the items of the script in it. -/
theorem typeComponent_positions {parser : Script.Parser} {source : Text}
    {filename : Option Text} {form : TypedForm}
    (h : typeComponent parser source ⟨filename, true⟩ = .ok form)
    (hplaces : ∀ script, (Markup.parse source).document.instanceScript? = some script →
      parser.PlacesItems (Text.slice source script.content))
    {offset : Nat} (hoffset : offset < Text.bytes source) :
    match (Markup.parse source).document.instanceScript? with
    | none =>
      ((markupCuts (Markup.parse source).document).any (·.contains offset) = true →
        form.map.generatedPosition? offset = none) ∧
      ((markupCuts (Markup.parse source).document).any (·.contains offset) = false →
        form.map.Copies source form.code offset)
    | some script => ∃ statements,
      parser.statements (Text.slice source script.content) = .ok statements ∧
        (∀ statement ∈ statements, ∀ part, exportPart? statement = some part ↔
          (statement.kind.keyword? = some part ∧
            Script.KeywordAt (Text.slice source script.content) statement.span.start part) ∨
          ((∃ fromSource typeOnly specifiers,
            statement.kind = .exportClause fromSource typeOnly specifiers) ∧
            part = statement.span)) ∧
        ((markupCuts (Markup.parse source).document ++ scriptCuts script statements).any
            (·.contains offset) = true →
          form.map.generatedPosition? offset = none) ∧
        ((⟨script.span.start, script.content.start⟩ : Span).contains offset = true →
          form.map.LeadsInto form.code "<>".toList functionOpening offset) ∧
        ((⟨script.content.stop, script.span.stop⟩ : Span).contains offset = true →
          form.map.LeadsInto form.code
            ("<>".toList ++ (functionOpening ++
              Text.spliced (Text.slice source script.content) (statements.filterMap exportPart?)
                (declarations (statements.flatMap declaredNames) statements)))
            fragmentOpening offset) ∧
        ((markupCuts (Markup.parse source).document ++ scriptCuts script statements).any
            (·.contains offset) = false →
          (⟨script.span.start, script.content.start⟩ : Span).contains offset = false →
          (⟨script.content.stop, script.span.stop⟩ : Span).contains offset = false →
          form.map.Copies source form.code offset) := by
  obtain ⟨herrors, hassemble⟩ := typeComponent_ok h
  obtain ⟨-, edits, buffer, hframing, hedits, hcode, hmap⟩ := assemble_finish hassemble
  have hrecords : buffer.Records source (componentEdits (Markup.parse source).document edits
      (exportedClass (filename.map nameOfPath))) := hedits
  rw [if_pos rfl] at hmap
  rw [hcode, hmap]
  cases hscript : (Markup.parse source).document.instanceScript? with
  | none =>
    rw [hscript] at hframing
    obtain ⟨-, rfl⟩ := hframing
    have hremoved : (componentEdits (Markup.parse source).document (wrapEdits form.slots.written)
        (exportedClass (filename.map nameOfPath))).filterMap Edit.removed? =
          markupCuts (Markup.parse source).document := by
      rw [removed_componentEdits]
      exact List.append_nil _
    refine ⟨lost_of_cut hrecords hremoved, fun hkept => ?_⟩
    refine hrecords.copies_of_kept hoffset ⟨not_removed hremoved hkept, ?_⟩
    intro range text hedit
    rw [overwrite_mem_componentEdits] at hedit
    simp [wrapEdits] at hedit
  | some script =>
    rw [hscript] at hframing
    obtain ⟨statements, surface, hparse, hsurface, -, rfl⟩ := hframing
    have hmem := List.mem_of_find?_eq_some hscript
    have hencloses := (Markup.parse_separated source hmem).2.2
    rw [herrors] at hencloses
    have e : Embeds source script (markupCuts (Markup.parse source).document)
        (statements.filterMap exportPart?) (declarations surface.declared statements)
        (componentEdits (Markup.parse source).document
          (headEdits script statements surface form.slots.written)
          (exportedClass (filename.map nameOfPath))) :=
      embeds hencloses (markupCuts_apart source hmem) hparse
        (withinScript_of_placesItems hparse (hplaces script hscript))
    rw [Surface.declared_of_foldlM hsurface] at e
    have hintro := intro_componentEdits (Markup.parse source).document _
      (exportedClass (filename.map nameOfPath))
      (prepended_headEdits script statements surface form.slots.written)
    refine ⟨statements, hparse, fun _ hmem => exportPart?_iff hparse hmem,
      lost_of_cut hrecords e.removed, ?_, ?_, e.copies_of_kept hrecords hoffset⟩
    · intro hin
      rw [← hintro]
      exact e.opening_leadsInto hrecords hin
    · intro hin
      rw [← hintro]
      exact e.closing_leadsInto hrecords hin

/-- The keyword of an export is nowhere in the typed form, the tags of its script
are around the function's body, and the markup before the script is copied. -/
theorem typeComponent_positions_counting :
    ∃ form, typeComponent countingParser countingComponent .default = .ok form ∧
      form.map.Copies countingComponent form.code 0 ∧
      form.map.LeadsInto form.code "<>".toList functionOpening 4 ∧
      form.map.generatedPosition? 12 = none := by
  have hsucceeds : (typeComponent countingParser countingComponent .default).isOk = true := by
    decide +kernel
  have hcuts : markupCuts (Markup.parse countingComponent).document = [⟨42, 49⟩] := by
    decide +kernel
  cases hform : typeComponent countingParser countingComponent .default with
  | error error =>
    rw [hform] at hsucceeds
    cases hsucceeds
  | ok form =>
    refine ⟨form, rfl, ?_⟩
    obtain ⟨script, hscript, hspan, hcontent, hslice⟩ := countingComponent_script
    have hmarkup := typeComponent_positions hform (fun _ => countingComponent_places)
      (show 0 < Text.bytes countingComponent by decide)
    have htag := typeComponent_positions hform (fun _ => countingComponent_places)
      (show 4 < Text.bytes countingComponent by decide)
    have hkeyword := typeComponent_positions hform (fun _ => countingComponent_places)
      (show 12 < Text.bytes countingComponent by decide)
    rw [hscript] at hmarkup htag hkeyword
    obtain ⟨found, hfound, -, -, -, -, hcopies⟩ := hmarkup
    obtain ⟨-, -, -, -, hopening, -⟩ := htag
    obtain ⟨others, hothers, -, hlost, -⟩ := hkeyword
    rw [hslice] at hfound hothers
    cases countingScript_statements.symm.trans hfound
    cases countingScript_statements.symm.trans hothers
    rw [hspan, hcontent, hcuts, scriptCuts, hcontent] at hcopies
    rw [hspan, hcontent] at hopening
    rw [hcuts, scriptCuts, hcontent] at hlost
    exact ⟨hcopies (by decide) (by decide) (by decide), hopening (by decide), hlost (by decide)⟩

end TypedComponent.Component
