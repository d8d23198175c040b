import TypedComponent.Component.Assembly
import TypedComponent.Proofs.Component.Exports
import TypedComponent.Proofs.Edit.Records

/-!
The edits behind a typed form. The passes over a component share one buffer and
each of them must have all its edits accepted, so the buffer that is finished
tells of the edits of all passes, one pass after another.
-/

namespace TypedComponent.Component

open Markup (Document ScriptBlock)
open Script (Statement)

section Passes

variable {parser : Script.Parser} {source : Text} {earlier : List Edit} {buffer next : EditBuffer}

theorem append_records (h : buffer.Records source earlier) (text : Text) :
    (buffer.append text).Records source (earlier ++ [.append text]) :=
  EditBuffer.apply_records h rfl

theorem applyEdits_records {edits : List Edit} (h : buffer.Records source earlier)
    (hok : applyEdits buffer edits = .ok next) : next.Records source (earlier ++ edits) := by
  unfold applyEdits at hok
  cases hrun : buffer.applyAll edits with
  | error refusal =>
    rw [hrun] at hok
    cases hok
  | ok last =>
    rw [hrun] at hok
    cases hok
    exact EditBuffer.applyUntil_records h (EditBuffer.applyUntil_of_applyAll hrun)

/-- The edits that cut the exports of statements out of a script. -/
def exportCuts (start : Nat) (statements : List Statement) : List Edit :=
  (statements.filterMap exportPart?).map fun part => .remove (part.shifted start)

/-- The edits that declare what only reactive statements assign. -/
def reactiveDeclarations (start : Nat) (declared : List Text) (statements : List Statement) :
    List Edit :=
  (firstAssignments declared statements).map fun (offset, name) =>
    .insertBefore (offset + start) (declarationOf name)

theorem cutExports_records {statements : List Statement} {start : Nat} {surface : Surface}
    (h : buffer.Records source earlier)
    (hok : cutExports buffer statements start = (next, .ok surface)) :
    next.Records source (earlier ++ exportCuts start statements) ∧
      statements.foldlM (Surface.add ⟨source, start⟩) .empty = .ok surface := by
  unfold cutExports at hok
  rw [h.source_eq] at hok
  cases hsurvey : survey ⟨source, start⟩ .empty statements with
  | mk parts outcome =>
    rw [hsurvey] at hok
    dsimp only at hok
    cases hrun : buffer.applyUntil (parts.map fun part => .remove (part.shifted start)) with
    | mk last refused =>
      rw [hrun] at hok
      cases refused with
      | some refusal => cases hok
      | none =>
        cases hok
        obtain ⟨rfl, hsurface⟩ := survey_ok hsurvey
        exact ⟨EditBuffer.applyUntil_records h hrun, hsurface⟩

theorem declareReactive_records {declared found : List Text} {statements : List Statement}
    {start : Nat} (h : buffer.Records source earlier)
    (hok : declareReactive buffer declared statements start = (next, .ok found)) :
    next.Records source (earlier ++ reactiveDeclarations start declared statements) := by
  unfold declareReactive at hok
  rw [implicitDeclarations_eq] at hok
  dsimp only at hok
  unfold reactiveDeclarations
  cases hrun : buffer.applyUntil ((firstAssignments declared statements).map
      fun (offset, name) => .insertBefore (offset + start) (declarationOf name)) with
  | mk last refused =>
    rw [hrun] at hok
    cases refused with
    | some refusal => cases hok
    | none =>
      cases hok
      exact EditBuffer.applyUntil_records h hrun

/-- The edits that make a script the head of the function. -/
def headEdits (script : ScriptBlock) (statements : List Statement) (surface : Surface)
    (writtenSlots : Text) : List Edit :=
  scriptEdits script ++ exportCuts script.content.start statements ++
    reactiveDeclarations script.content.start surface.declared statements ++
    [.append (functionEnding (writtenProps surface.exports) writtenSlots)]

theorem statements_of_parseScript {content : Text} {start : Nat} {statements : List Statement}
    (h : parseScript parser content start = .ok statements) :
    parser.statements content = .ok statements := by
  unfold parseScript at h
  cases hparse : parser.statements content with
  | error error =>
    rw [hparse] at h
    cases h
  | ok found =>
    rw [hparse] at h
    cases h
    rfl

theorem embedScript_records {script : ScriptBlock} {writtenSlots : Text}
    {exports : Registry (Option Text)} (h : buffer.Records source earlier)
    (hok : embedScript parser buffer script writtenSlots = .ok (next, exports)) :
    ∃ statements surface, parser.statements (Text.slice source script.content) = .ok statements ∧
      statements.foldlM (Surface.add ⟨source, script.content.start⟩) .empty = .ok surface ∧
      exports = surface.exports ∧
      next.Records source (earlier ++ headEdits script statements surface writtenSlots) := by
  unfold embedScript at hok
  obtain ⟨framed, hframed, hok⟩ := Except.bind_eq_ok.mp hok
  have hframedRecords := applyEdits_records h hframed
  obtain ⟨statements, hparse, hok⟩ := Except.bind_eq_ok.mp hok
  rw [hframedRecords.source_eq] at hparse
  cases hcut : cutExports framed statements script.content.start with
  | mk cut outcome =>
    rw [hcut] at hok
    dsimp only at hok
    obtain ⟨surface, houtcome, hrest⟩ := Except.bind_eq_ok.mp hok
    subst houtcome
    obtain ⟨hcutRecords, hsurface⟩ := cutExports_records hframedRecords hcut
    cases hdeclare : declareReactive cut surface.declared statements script.content.start with
    | mk full declared =>
      rw [hdeclare] at hrest
      cases declared with
      | error refusal => cases hrest
      | ok found =>
        cases hrest
        have hfull := declareReactive_records hcutRecords hdeclare
        have hlast := append_records hfull
          (functionEnding (writtenProps surface.exports) writtenSlots)
        refine ⟨statements, surface, statements_of_parseScript hparse, hsurface, rfl, ?_⟩
        simpa only [headEdits, List.append_assoc] using hlast

/-- The edits that make a function of the markup alone. -/
def wrapEdits (writtenSlots : Text) : List Edit :=
  [.insertBefore 0 (functionOpening ++ "<>".toList),
    .append (";".toList ++ functionEnding (writtenProps .empty) writtenSlots)]

/-- The edits of the pass that takes in the instance script, or does without
one, and the exports that it finds. -/
def Framing (parser : Script.Parser) (source : Text) (script? : Option ScriptBlock)
    (writtenSlots : Text) (exports : Registry (Option Text)) (edits : List Edit) : Prop :=
  match script? with
  | none => exports = .empty ∧ edits = wrapEdits writtenSlots
  | some script => ∃ statements surface,
      parser.statements (Text.slice source script.content) = .ok statements ∧
        statements.foldlM (Surface.add ⟨source, script.content.start⟩) .empty = .ok surface ∧
        exports = surface.exports ∧ edits = headEdits script statements surface writtenSlots

end Passes

/-- A typed form is read off the buffer that all passes have edited. -/
theorem assemble_finish {parser : Script.Parser} {source : Text} {document : Document}
    {convert : MarkupConverter} {options : Options} {form : TypedForm}
    (h : assemble parser source document convert options = .ok form) :
    Slots.ofNodes source document.nodes = .ok form.slots ∧
      ∃ (edits : List Edit) (buffer : EditBuffer),
        Framing parser source document.instanceScript? form.slots.written form.exports edits ∧
        buffer.Records source (convert document ++
          document.styles.map (fun style => Edit.remove style.span) ++ edits ++
          [.append (exportedClass (options.filename.map nameOfPath))]) ∧
        form.code = buffer.finish.code ∧
        form.map = if options.keepMap then buffer.finish.map else .empty := by
  unfold assemble at h
  obtain ⟨converted, hconvert, h⟩ := Except.bind_eq_ok.mp h
  have hconverted := applyEdits_records (EditBuffer.ofText_records source) hconvert
  rw [List.nil_append] at hconverted
  obtain ⟨slots, hslots, h⟩ := Except.bind_eq_ok.mp h
  obtain ⟨styled, hstyle, h⟩ := Except.bind_eq_ok.mp h
  have hstyled := applyEdits_records hconverted hstyle
  dsimp only at h
  cases hscript : document.instanceScript? with
  | none =>
    rw [hscript] at h
    obtain ⟨⟨framed, exports⟩, hframe, h⟩ := Except.bind_eq_ok.mp h
    cases h
    cases hembed : embedMarkup styled slots.written with
    | error error =>
      rw [hembed] at hframe
      cases hframe
    | ok wrapped =>
      rw [hembed] at hframe
      cases hframe
      have hwrapped := applyEdits_records hstyled hembed
      exact ⟨hslots, wrapEdits slots.written, _, ⟨rfl, rfl⟩, append_records hwrapped _, rfl, rfl⟩
  | some script =>
    rw [hscript] at h
    obtain ⟨⟨framed, exports⟩, hframe, h⟩ := Except.bind_eq_ok.mp h
    cases h
    obtain ⟨statements, surface, hparse, hsurface, hexports, hframed⟩ :=
      embedScript_records hstyled hframe
    exact ⟨hslots, headEdits script statements surface slots.written, _,
      ⟨statements, surface, hparse, hsurface, hexports, rfl⟩, append_records hframed _, rfl, rfl⟩

/-- The code of a typed form is what the edits of all passes come to. -/
theorem assemble_ok {parser : Script.Parser} {source : Text} {document : Document}
    {convert : MarkupConverter} {options : Options} {form : TypedForm}
    (h : assemble parser source document convert options = .ok form) :
    Slots.ofNodes source document.nodes = .ok form.slots ∧
      ∃ (edits : List Edit) (buffer : EditBuffer),
        Framing parser source document.instanceScript? form.slots.written form.exports edits ∧
        buffer.Records source (convert document ++
          document.styles.map (fun style => Edit.remove style.span) ++ edits ++
          [.append (exportedClass (options.filename.map nameOfPath))]) ∧
        form.code = buffer.finish.code := by
  obtain ⟨hslots, edits, buffer, hframing, hrecords, hcode, -⟩ := assemble_finish h
  exact ⟨hslots, edits, buffer, hframing, hrecords, hcode⟩

theorem typeDocument_ok {parser : Script.Parser} {source : Text} {document : Document}
    {convert : MarkupConverter} {options : Options} {form : TypedForm} :
    typeDocument parser source document convert options = .ok form ↔
      assemble parser source document convert options = .ok form := by
  unfold typeDocument
  cases assemble parser source document convert options with
  | error error => exact ⟨nofun, nofun⟩
  | ok made => exact Iff.rfl

end TypedComponent.Component
