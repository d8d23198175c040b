import TypedComponent.Proofs.Component.Outcome
import TypedComponent.Proofs.Markup.Spans
import TypedComponent.Proofs.Text.Lines

/-!
Where the errors of a component point. Each pass that can fail tells of a place
that it has read, in the markup or in the script, and what is told to people is
the line and column of that place in the whole component.
-/

namespace TypedComponent

namespace Markup

/-- The reading of a source, with all that it finds in line. -/
theorem parse_spanned (source : Text) :
    (Outline.run (source.length + 1) (.ofSource source)).SpannedTo source
      (Outline.run (source.length + 1) (.ofSource source)).cursor.offset :=
  Outline.run_induction (P := fun outline => outline.SpannedTo source outline.cursor.offset)
    Outline.SpannedTo.step _ (Outline.ofSource_spannedTo source)

theorem fault_liesIn {source : Text} {fault : Error} (h : fault ∈ (parse source).errors) :
    fault.span.LiesIn source :=
  (parse_spanned source).faults_lieIn fault (List.mem_reverse.mp h)

theorem node_sound {source : Text} {node : Node} (h : node ∈ (parse source).document.allNodes) :
    node.Sound source := by
  obtain ⟨root, hroot, hfamily⟩ := Node.mem_familyOfAll.mp h
  have hparts := (parse_spanned source).finished (parse_isFinished source)
  exact (hparts.nodes_settled root (List.mem_reverse.mp hroot) node hfamily).1

/-- The attributes of a node that is read lie in the source. -/
theorem attribute_liesIn {source : Text} {node : Node} {attr : Attribute}
    (hnode : node ∈ (parse source).document.allNodes) (hattr : attr ∈ node.attributes) :
    attr.span.LiesIn source := by
  have hsound := node_sound hnode
  cases node with
  | element span name attributes selfClosing children =>
    have hown := hsound.attributes_sound attr hattr
    cases attr with
    | named span name values => exact hown.1
    | spread span inner => exact hown.outer_liesIn
  | text span blank => cases hattr
  | comment span => cases hattr
  | mustache span inner kind => cases hattr

end Markup

namespace Component

open Markup (Attribute Document Node ScriptBlock)
open Script (Statement)

/-- The place that an error of a component points at: in its script, at the name of
one of its slots, or at the first fault of its markup. -/
def Error.PointsInto (source : Text) : Error → Prop
  | unsupportedExport _ offset => ∃ script,
      (Markup.parse source).document.instanceScript? = some script ∧
        script.content.contains offset = true
  | malformedSlotAttribute _ _ offset => ∃ slot ∈ slotsOf (Markup.parse source).document,
      ∃ span values, .named span nameAttribute values ∈ slot.attributes ∧ offset = span.start
  | template fault => (Markup.parse source).errors.head? = some fault
  | scriptSyntax .. | edit _ | inComponent .. => False

section Passes

variable {parser : Script.Parser} {source : Text} {earlier : List Edit} {buffer : EditBuffer}
  {error : Error}

theorem applyEdits_error {edits : List Edit} (h : applyEdits buffer edits = .error error) :
    ∃ refusal, error = .edit refusal := by
  unfold applyEdits at h
  cases hrun : buffer.applyAll edits with
  | ok last =>
    rw [hrun] at h
    cases h
  | error refusal =>
    rw [hrun] at h
    cases h
    exact ⟨refusal, rfl⟩

theorem slotName_error_place {attributes : List Attribute}
    (h : slotName attributes = .error error) : ∃ span values,
      .named span nameAttribute values ∈ attributes ∧
        error = .malformedSlotAttribute defaultSlot nameAttribute span.start := by
  unfold slotName at h
  split at h
  · cases h
  · cases h
  · next span values _ hfind =>
    cases h
    obtain ⟨attr, hattr, hown⟩ := List.exists_of_findSome?_eq_some hfind
    cases attr with
    | spread whole inner => cases hown
    | named place name own =>
      dsimp only at hown
      split at hown
      · next hname =>
        cases hown
        exact ⟨_, _, hname ▸ hattr, rfl⟩
      · cases hown

theorem ofNodes_error_place
    (h : Slots.ofNodes source (Markup.parse source).document.nodes = .error error) :
    error.PointsInto source := by
  obtain ⟨slot, hslot, between, hadd⟩ := exists_of_foldlM_error h
  unfold Slots.add at hadd
  cases hname : slotName slot.attributes with
  | ok name =>
    rw [hname] at hadd
    cases hadd
  | error fault =>
    rw [hname] at hadd
    cases hadd
    obtain ⟨span, values, hattr, rfl⟩ := slotName_error_place hname
    exact ⟨slot, hslot, span, values, hattr, rfl⟩

theorem survey_error_first {place : ScriptPlace} {surface : Surface} {statements : List Statement}
    (h : (survey place surface statements).2 = .error error) :
    ∃ s ∈ statements, ∃ obstacle ∈ obstacles s, error = obstacle.error place s.span := by
  induction statements generalizing surface with
  | nil => cases h
  | cons statement rest ih =>
    rw [survey] at h
    cases hobstacles : obstacles statement with
    | nil =>
      obtain ⟨next, hnext⟩ :=
        add_ok place surface statement (unsupported_iff.not.mpr (not_not.mpr hobstacles))
      rw [hnext] at h
      obtain ⟨s, hs, hfirst⟩ := ih h
      exact ⟨s, List.mem_cons_of_mem statement hs, hfirst⟩
    | cons first others =>
      rw [add_error_first place surface hobstacles] at h
      cases h
      have hfirst : first ∈ obstacles statement := by
        rw [hobstacles]
        exact List.mem_cons_self
      exact ⟨statement, List.mem_cons_self, first, hfirst, rfl⟩

theorem cutExports_error_first {statements : List Statement} {start : Nat}
    (h : (cutExports buffer statements start).2 = .error error) :
    (∃ refusal, error = .edit refusal) ∨
      ∃ s ∈ statements, ∃ obstacle ∈ obstacles s,
        error = obstacle.error ⟨buffer.source, start⟩ s.span := by
  unfold cutExports at h
  cases hsurvey : survey ⟨buffer.source, start⟩ .empty statements with
  | mk parts outcome =>
    rw [hsurvey] at h
    dsimp only at h
    split at h
    · have hends : (survey ⟨buffer.source, start⟩ .empty statements).2 = .error error := by
        rw [hsurvey]
        exact h
      exact .inr (survey_error_first hends)
    · next refusal _ =>
      cases h
      exact .inl ⟨refusal, rfl⟩

theorem parseScript_error {content : Text} {start : Nat}
    (h : parseScript parser content start = .error error) :
    ∃ message offset, error = .scriptSyntax message offset := by
  unfold parseScript at h
  cases hparse : parser.statements content with
  | ok found =>
    rw [hparse] at h
    cases h
  | error said =>
    rw [hparse] at h
    cases h
    exact ⟨_, _, rfl⟩

/-- What is in the way of a statement is the start of a part of it, or its own. -/
theorem obstacle_offset {s : Statement} {obstacle : Obstacle} (h : obstacle ∈ obstacles s) :
    obstacle.offset = s.span.start ∨ ∃ part ∈ s.kind.parts, obstacle.offset = part.start := by
  obtain ⟨span, kind⟩ := s
  cases kind with
  | variableDeclaration keyword bindings =>
    obtain ⟨binding, hbinding, hobstacle⟩ := List.mem_filterMap.mp h
    unfold patternObstacle? at hobstacle
    split at hobstacle
    · obtain ⟨patternSpan, hpattern, rfl⟩ := Option.map_eq_some_iff.mp hobstacle
      exact .inr ⟨patternSpan, List.mem_filterMap.mpr ⟨binding, hbinding, hpattern⟩, rfl⟩
    · cases hobstacle
  | exportClause fromSource typeOnly specifiers =>
    simp only [obstacles] at h
    split at h
    · cases h
    · obtain ⟨specifier, hspecifier, hobstacle⟩ := List.mem_filterMap.mp h
      refine .inr ⟨specifier.span, List.mem_map_of_mem (List.mem_of_mem_filter hspecifier), ?_⟩
      unfold stringObstacle? at hobstacle
      split at hobstacle <;> cases hobstacle
      all_goals rfl
  | exportDefault =>
    rw [List.mem_singleton.mp h]
    exact .inl rfl
  | functionDeclaration keyword name => cases h
  | classDeclaration keyword name => cases h
  | typeDeclaration keyword => cases h
  | labeled label assigns => cases h
  | other => cases h

/-- What is in the way of a statement begins in the script. -/
theorem obstacle_offset_lt {content : Text} {statements : List Statement}
    (hparse : parser.statements content = .ok statements) (hplaces : parser.PlacesItems content)
    (hnests : parser.NestsParts content) {s : Statement} (hs : s ∈ statements)
    {obstacle : Obstacle} (h : obstacle ∈ obstacles s) : obstacle.offset < Text.bytes content := by
  have hstop := Text.le_bytes_of_isBoundary (hplaces.statement_liesIn hparse hs).stop_place
  rcases obstacle_offset h with hstart | ⟨part, hpart, hstart⟩
  · rw [hstart]
    exact Nat.lt_of_lt_of_le (hnests.statement_start_lt hparse hs) hstop
  · rw [hstart]
    exact Nat.lt_of_lt_of_le (hnests.part_start_lt hparse hs hpart) hstop

/-- An error is for an edit, for the syntax of the script, or points at its place. -/
def Error.Explained (source : Text) (error : Error) : Prop :=
  (∃ refusal, error = .edit refusal) ∨ (∃ message offset, error = .scriptSyntax message offset) ∨
    error.PointsInto source

theorem declareReactive_error {declared : List Text} {statements : List Statement} {start : Nat}
    (h : (declareReactive buffer declared statements start).2 = .error error) :
    ∃ refusal, error = .edit refusal := by
  unfold declareReactive at h
  dsimp only at h
  split at h
  · cases h
  · next refusal _ =>
    cases h
    exact ⟨refusal, rfl⟩

theorem embedScript_error {script : ScriptBlock} {slots : Text}
    (hscript : (Markup.parse source).document.instanceScript? = some script)
    (hplaces : parser.PlacesItems (Text.slice source script.content))
    (hnests : parser.NestsParts (Text.slice source script.content))
    (hrecords : buffer.Records source earlier)
    (h : embedScript parser buffer script slots = .error error) : error.Explained source := by
  unfold embedScript at h
  rcases Except.bind_eq_error.mp h with hframe | ⟨framed, hframed, h⟩
  · exact .inl (applyEdits_error hframe)
  have hsource := (applyEdits_records hrecords hframed).source_eq
  rw [hsource] at h
  rcases Except.bind_eq_error.mp h with hsyntax | ⟨statements, hstatements, h⟩
  · exact .inr (.inl (parseScript_error hsyntax))
  have hparse := statements_of_parseScript hstatements
  cases hcut : cutExports framed statements script.content.start with
  | mk cut outcome =>
    rw [hcut] at h
    dsimp only at h
    rcases Except.bind_eq_error.mp h with hexport | ⟨surface, -, h⟩
    · have hends : (cutExports framed statements script.content.start).2 = .error error := by
        rw [hcut]
        exact hexport
      rcases cutExports_error_first hends with hedit | ⟨s, hs, obstacle, hobstacle, rfl⟩
      · exact .inl hedit
      · have hplace := Markup.parse_scripts source (List.mem_of_find?_eq_some hscript)
        have hlength := Text.bytes_slice hplace.content_place.start_place
          hplace.content_place.stop_place hplace.content_place.start_le
        have hlt := obstacle_offset_lt hparse hplaces hnests hs hobstacle
        refine .inr (.inr ⟨script, hscript, (Span.contains_iff _ _).mpr ⟨?_, ?_⟩⟩)
        · exact Nat.le_add_left _ _
        · rw [hlength, Span.length] at hlt
          exact Nat.add_lt_of_lt_sub hlt
    · cases hdeclare : declareReactive cut surface.declared statements script.content.start with
      | mk full declared =>
        rw [hdeclare] at h
        dsimp only at h
        rcases Except.bind_eq_error.mp h with hdeclared | ⟨_, _, hdone⟩
        · have hends : (declareReactive cut surface.declared statements
              script.content.start).2 = .error error := by
            rw [hdeclare]
            cases declared with
            | ok found => cases hdeclared
            | error refusal =>
              cases hdeclared
              rfl
          exact .inl (declareReactive_error hends)
        · cases hdone

theorem assemble_error {convert : Markup.Document → List Edit} {options : Options}
    (hscripts : ∀ script, (Markup.parse source).document.instanceScript? = some script →
      parser.PlacesItems (Text.slice source script.content) ∧
        parser.NestsParts (Text.slice source script.content))
    (h : assemble parser source (Markup.parse source).document convert options = .error error) :
    error.Explained source := by
  unfold assemble at h
  rcases Except.bind_eq_error.mp h with hconvert | ⟨converted, hconverted, h⟩
  · exact .inl (applyEdits_error hconvert)
  rcases Except.bind_eq_error.mp h with hslots | ⟨slots, -, h⟩
  · exact .inr (.inr (ofNodes_error_place hslots))
  rcases Except.bind_eq_error.mp h with hstyle | ⟨styled, hstyled, h⟩
  · exact .inl (applyEdits_error hstyle)
  have hrecords := applyEdits_records
    (applyEdits_records (EditBuffer.ofText_records source) hconverted) hstyled
  cases hscript : (Markup.parse source).document.instanceScript? with
  | none =>
    rw [hscript] at h
    dsimp only at h
    rcases Except.bind_eq_error.mp h with hembed | ⟨_, _, hdone⟩
    · cases hmarkup : embedMarkup styled slots.written with
      | ok made =>
        rw [hmarkup] at hembed
        cases hembed
      | error refusal =>
        rw [hmarkup] at hembed
        cases hembed
        exact .inl (applyEdits_error hmarkup)
    · cases hdone
  | some script =>
    rw [hscript] at h
    dsimp only at h
    rcases Except.bind_eq_error.mp h with hembed | ⟨_, _, hdone⟩
    · obtain ⟨hplaces, hnests⟩ := hscripts script hscript
      exact embedScript_error hscript hplaces hnests hrecords hembed
    · cases hdone

end Passes

section Location

variable {parser : Script.Parser} {source filename : Text} {error : Error} {keepMap : Bool}

/-- An error that points at a place has no file, and the place is in the source. -/
theorem Error.PointsInto.offset (h : error.PointsInto source) :
    ∃ offset, error.offset? = some offset ∧ offset ≤ Text.bytes source := by
  cases error with
  | unsupportedExport construct offset =>
    obtain ⟨script, hscript, hcontains⟩ := h
    have hplace := Markup.parse_scripts source (List.mem_of_find?_eq_some hscript)
    have hstop := Text.le_bytes_of_isBoundary hplace.content_place.stop_place
    have hinside := (Span.contains_iff _ _).mp hcontains
    exact ⟨offset, rfl, by omega⟩
  | malformedSlotAttribute slot attributeName offset =>
    obtain ⟨node, hnode, span, values, hattr, rfl⟩ := h
    have hplace := Markup.attribute_liesIn (List.mem_of_mem_filter hnode) hattr
    exact ⟨_, rfl, Text.le_bytes_of_isBoundary hplace.start_place⟩
  | template fault =>
    have hplace := Markup.fault_liesIn (List.mem_of_head? h)
    exact ⟨_, rfl, Text.le_bytes_of_isBoundary hplace.start_place⟩
  | scriptSyntax message offset => cases h
  | edit refusal => cases h
  | inComponent known location offset cause => cases h

theorem Error.PointsInto.root_eq (h : error.PointsInto source) : error.root = error := by
  cases error with
  | inComponent known location offset cause => cases h
  | _ => rfl

/-- A file is told with the line and column of the place, if offsets are not cut
short. -/
theorem Error.PointsInto.inFile_eq (h : error.PointsInto source)
    (hshort : Text.bytes source < 0x100000000) {offset : Nat}
    (hoffset : error.offset? = some offset) (hle : offset ≤ Text.bytes source) :
    error.inFile filename source = .inComponent filename
      (filename ++ ":".toList ++ (Position.behind (source.octets.take offset)).shown.toList)
      (some offset) error := by
  have hposition : positionIn source offset =
      some (Position.behind (source.octets.take offset)) := by
    rw [positionIn, Nat.mod_eq_of_lt (Nat.lt_of_le_of_lt hle hshort), Lines.position?_ofText hle]
  have hlocation : locationIn filename (error.offset?.bind (positionIn source)) =
      filename ++ ":".toList ++ (Position.behind (source.octets.take offset)).shown.toList := by
    rw [hoffset, Option.bind_some, hposition]
    rfl
  rw [← hlocation]
  cases error with
  | inComponent known location offset cause => cases h
  | _ =>
    rw [← hoffset]
    rfl

theorem typeComponent_error
    (hscripts : ∀ script, (Markup.parse source).document.instanceScript? = some script →
      parser.PlacesItems (Text.slice source script.content) ∧
        parser.NestsParts (Text.slice source script.content))
    (h : typeComponent parser source ⟨some filename, keepMap⟩ = .error error) :
    ∃ cause : Error, error = cause.inFile filename source ∧ cause.Explained source := by
  unfold typeComponent at h
  dsimp only at h
  split at h
  · next fault rest herrors =>
    cases h
    refine ⟨.template fault, rfl, .inr (.inr ?_)⟩
    show (Markup.parse source).errors.head? = some fault
    rw [herrors]
    rfl
  · unfold typeDocument at h
    cases hmade : assemble parser source (Markup.parse source).document fragmentConverter
        ⟨some filename, keepMap⟩ with
    | ok form =>
      rw [hmade] at h
      cases h
    | error cause =>
      rw [hmade] at h
      cases h
      exact ⟨cause, rfl, assemble_error hscripts hmade⟩

/-- No component is given up for an edit. -/
theorem typeComponent_error_root {options : Options}
    (hscripts : ∀ script, (Markup.parse source).document.instanceScript? = some script →
      parser.PlacesItems (Text.slice source script.content) ∧
        parser.LeadsExports (Text.slice source script.content))
    (h : typeComponent parser source options = .error error) (refusal : EditError) :
    error.root ≠ .edit refusal := by
  unfold typeComponent at h
  dsimp only at h
  split at h
  · cases h
    rw [root_locate]
    exact nofun
  · exact (typeDocument_outcome hscripts).root_ne_edit h refusal

/-- An error tells in which file its cause is, and at which line and column of it.
These lead back to the place, and another file does not take the place of the first. -/
structure Error.Located (source filename : Text) (error : Error) (cause : Error)
    (offset : Nat) : Prop where
  located : error = .inComponent filename
    (filename ++ ":".toList ++ (Position.behind (source.octets.take offset)).shown.toList)
    (some offset) cause
  root_eq : error.root = cause
  offset_eq : cause.offset? = some offset
  offset_le : offset ≤ Text.bytes source
  position_eq : (Lines.ofText source).offset? (Position.behind (source.octets.take offset)) =
    some offset
  pointsInto : cause.PointsInto source
  kept : ∀ otherName otherSource, error.inFile otherName otherSource = error

/-- Whatever a component is given up for, but the syntax of its script, the error
points at a place in it, by its file, line and column. The parser is to place the
items of the script in it and their parts in them, and to begin what is exported
with the word `export`. -/
theorem typeComponent_error_located (parser : Script.Parser) (source filename : Text)
    (keepMap : Bool) (error : Error) (hshort : Text.bytes source < 0x100000000)
    (hscripts : ∀ script, (Markup.parse source).document.instanceScript? = some script →
      parser.PlacesItems (Text.slice source script.content) ∧
        parser.LeadsExports (Text.slice source script.content) ∧
          parser.NestsParts (Text.slice source script.content))
    (hfails : typeComponent parser source ⟨some filename, keepMap⟩ = .error error)
    (hroot : ∀ message offset, error.root ≠ .scriptSyntax message offset) :
    ∃ cause offset, error.Located source filename cause offset := by
  have hedit := typeComponent_error_root
    (fun script hscript => ⟨(hscripts script hscript).1, (hscripts script hscript).2.1⟩) hfails
  obtain ⟨cause, rfl, hexplained⟩ := typeComponent_error
    (fun script hscript => ⟨(hscripts script hscript).1, (hscripts script hscript).2.2⟩) hfails
  rw [Error.root_inFile] at hroot hedit
  rcases hexplained with ⟨refusal, rfl⟩ | ⟨message, offset, rfl⟩ | hpoints
  · exact absurd rfl (hedit refusal)
  · exact absurd rfl (hroot message offset)
  · obtain ⟨offset, hoffset, hle⟩ := hpoints.offset
    exact ⟨cause, offset, {
      located := hpoints.inFile_eq hshort hoffset hle
      root_eq := (Error.root_inFile _ _ _).trans hpoints.root_eq
      offset_eq := hoffset
      offset_le := hle
      position_eq := Lines.offset?_behind hle
      pointsInto := hpoints
      kept := Error.inFile_inFile cause filename source }⟩

/-- A component with an export that has no name, on its third line. -/
def namelessComponent : Text :=
  "<p>é</p>\n<script>let a;\nexport default a;</script>".toList

def namelessError : Error :=
  .inComponent "A.svelte".toList "A.svelte:3:1".toList (some 25)
    (.unsupportedExport "default export \x60export default a;\x60".toList 25)

def namelessScript : Text := "let a;\nexport default a;".toList

def namelessItems : List Script.Tree.Item :=
  [⟨⟨1, 7⟩, .statement (.declaration
      (.variableDeclaration false [⟨⟨5, 6⟩, .name "a".toList⟩]))⟩,
    ⟨⟨8, 25⟩, .defaultExpression⟩]

def namelessParser : Script.Parser := .ofTable 1 [(namelessScript, namelessItems)]

theorem typeComponent_error_located_nameless :
    typeComponent namelessParser namelessComponent ⟨some "A.svelte".toList, true⟩ =
        .error namelessError ∧
      ∃ cause offset, namelessError.Located namelessComponent "A.svelte".toList cause offset := by
  have hfails : typeComponent namelessParser namelessComponent ⟨some "A.svelte".toList, true⟩ =
      .error namelessError := by
    decide +kernel
  have hcontent : (Markup.parse namelessComponent).document.instanceScript?.map
      ScriptBlock.content = some ⟨18, 42⟩ := by
    decide +kernel
  have hslice : Text.slice namelessComponent ⟨18, 42⟩ = namelessScript := by decide +kernel
  have hparse : namelessParser.parse namelessScript = .ok namelessItems := rfl
  have hbase : namelessParser.base = 1 := rfl
  refine ⟨hfails, typeComponent_error_located _ _ _ true _ (by decide) ?_ hfails nofun⟩
  intro script hscript
  rw [hscript] at hcontent
  rw [Option.some.inj hcontent, hslice]
  refine ⟨Script.Parser.placesItems_of_parse hparse ?_ (by simp [namelessItems]),
    Script.Parser.leadsExports_of_parse hparse ?_,
    Script.Parser.nestsParts_of_parse hparse (by simp [namelessItems, hbase]) ?_ ?_⟩
  · simp only [namelessItems, List.mem_cons, List.not_mem_nil, or_false]
    rintro item (rfl | rfl) <;> exact ⟨by decide, by decide, by decide⟩
  · simp [namelessItems]
  · simp [namelessItems, Script.Tree.ItemKind.parts, Script.Tree.Statement.parts,
      Script.Tree.Declaration.parts]
  · simp only [namelessItems, Script.Tree.ItemKind.parts, List.mem_cons, List.not_mem_nil, or_false]
    rintro item (rfl | rfl) part hpart
    · cases List.mem_singleton.mp hpart
      exact ⟨by decide, by decide, by decide⟩
    · cases hpart

end Location

end Component

end TypedComponent
