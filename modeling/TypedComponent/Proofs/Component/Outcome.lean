import TypedComponent.Proofs.Component.Acceptance
import TypedComponent.Proofs.Component.Obstacles
import TypedComponent.Proofs.Component.TypedCode

/-!
How making a typed form ends. No edit is ever refused, so what is left are the
faults of the component itself, and the first kind of fault in a fixed order
decides: the markup, the names of slots, the syntax of the script, its exports.
-/

namespace TypedComponent.Component

open Markup (Attribute Document Node ScriptBlock)
open Script (Binding ExportName ExportSpecifier Statement)

/-- A fold in which a step fails just on what is bad goes through, or ends at the
first that is bad. -/
theorem foldlM_ends {α σ : Type} {step : σ → α → Except Error σ} {Bad : α → Prop}
    {Shown : Error → Prop}
    (hgood : ∀ state a, ¬ Bad a → ∃ next, step state a = .ok next)
    (hbad : ∀ state a, Bad a → ∃ error, step state a = .error error ∧ Shown error)
    (values : List α) (state : σ) :
    ((∀ a ∈ values, ¬ Bad a) ∧ ∃ last, values.foldlM step state = .ok last) ∨
      ∃ front a rest between error, values = front ++ a :: rest ∧ Bad a ∧
        front.foldlM step state = .ok between ∧ step between a = .error error ∧ Shown error := by
  induction values generalizing state with
  | nil => exact .inl ⟨List.forall_mem_nil _, state, rfl⟩
  | cons a rest ih =>
    by_cases ha : Bad a
    · obtain ⟨error, herror, hshown⟩ := hbad state a ha
      exact .inr ⟨[], a, rest, state, error, rfl, ha, rfl, herror, hshown⟩
    · obtain ⟨next, hnext⟩ := hgood state a ha
      rcases ih next with ⟨hall, last, hlast⟩ | ⟨front, b, behind, between, error, hsplit, hb,
        hfront, herror, hshown⟩
      · refine .inl ⟨List.forall_mem_cons.mpr ⟨ha, hall⟩, last, ?_⟩
        rw [List.foldlM_cons, hnext]
        exact hlast
      · refine .inr ⟨a :: front, b, behind, between, error, by rw [hsplit, List.cons_append], hb, ?_,
          herror, hshown⟩
        rw [List.foldlM_cons, hnext]
        exact hfront

theorem foldlM_error {α σ : Type} {step : σ → α → Except Error σ} {front rest : List α} {a : α}
    {state between : σ} {error : Error} (hfront : front.foldlM step state = .ok between)
    (hstep : step between a = .error error) :
    (front ++ a :: rest).foldlM step state = .error error := by
  rw [List.foldlM_append, hfront]
  change ((a :: rest).foldlM step between) = _
  rw [List.foldlM_cons, hstep]
  rfl

/-- What a step of a fold fails for, it fails for at one of the values. -/
theorem exists_of_foldlM_error {α σ : Type} {step : σ → α → Except Error σ} {values : List α}
    {state : σ} {error : Error} (h : values.foldlM step state = .error error) :
    ∃ a ∈ values, ∃ between, step between a = .error error := by
  induction values generalizing state with
  | nil => cases h
  | cons a rest ih =>
    rw [List.foldlM_cons] at h
    rcases Except.bind_eq_error.mp h with hfirst | ⟨next, -, hrest⟩
    · exact ⟨a, List.mem_cons_self, state, hfirst⟩
    · obtain ⟨b, hb, hstep⟩ := ih hrest
      exact ⟨b, List.mem_cons_of_mem a hb, hstep⟩

section Slots

/-- The name that a slot is given is not one plain text. -/
def Misnamed (slot : Node) : Prop :=
  ∃ span values, Attribute.find? nameAttribute slot.attributes = some (span, values) ∧
    ∀ place raw, values ≠ [.text place raw]

/-- The slots at any depth of a document. -/
def slotsOf (document : Document) : List Node :=
  document.allNodes.filter Node.isSlot

theorem slotName_ok {slot : Node} (h : ¬ Misnamed slot) :
    ∃ name, slotName slot.attributes = .ok name := by
  unfold slotName
  split
  · exact ⟨_, rfl⟩
  · exact ⟨_, rfl⟩
  · next span values hnot hfind =>
    refine absurd ⟨span, values, hfind, ?_⟩ h
    rintro place raw rfl
    exact hnot place raw rfl

theorem slotName_error {slot : Node} (h : Misnamed slot) :
    ∃ offset, slotName slot.attributes =
      .error (.malformedSlotAttribute defaultSlot nameAttribute offset) := by
  obtain ⟨span, values, hfind, hvalues⟩ := h
  unfold slotName
  rw [hfind]
  refine ⟨span.start, ?_⟩
  split
  · next hnone => cases hnone
  · next hsome =>
    cases hsome
    exact absurd rfl (hvalues _ _)
  · next hsome =>
    cases hsome
    rfl

section Fold

variable (source : Text)

theorem addSlot_ok (slots : Slots) (slot : Node) (h : ¬ Misnamed slot) :
    ∃ next, Slots.add source slots slot = .ok next := by
  obtain ⟨name, hname⟩ := slotName_ok h
  exact ⟨_, by rw [Slots.add, hname]; rfl⟩

theorem addSlot_error (slots : Slots) (slot : Node) (h : Misnamed slot) :
    ∃ error, Slots.add source slots slot = .error error ∧
      ∃ offset, error = .malformedSlotAttribute defaultSlot nameAttribute offset := by
  obtain ⟨offset, herror⟩ := slotName_error h
  exact ⟨_, by rw [Slots.add, herror]; rfl, offset, rfl⟩

variable {document : Document}

theorem ofNodes_ok (h : ∀ slot ∈ slotsOf document, ¬ Misnamed slot) :
    ∃ slots, Slots.ofNodes source document.nodes = .ok slots := by
  rcases foldlM_ends (addSlot_ok source) (addSlot_error source) (slotsOf document) .empty
    with ⟨-, hslots⟩ | ⟨front, slot, rest, -, -, hsplit, hmisnamed, -⟩
  · exact hslots
  · exact absurd hmisnamed (h slot (by rw [hsplit]; simp))

theorem ofNodes_error {slot : Node} (hslot : slot ∈ slotsOf document) (h : Misnamed slot) :
    ∃ offset, Slots.ofNodes source document.nodes =
      .error (.malformedSlotAttribute defaultSlot nameAttribute offset) := by
  rcases foldlM_ends (addSlot_ok source) (addSlot_error source) (slotsOf document) .empty
    with ⟨hall, -⟩ | ⟨front, other, rest, between, error, hsplit, -, hfront, herror, offset, rfl⟩
  · exact absurd h (hall slot hslot)
  · refine ⟨offset, ?_⟩
    change (slotsOf document).foldlM (Slots.add source) .empty = _
    rw [hsplit]
    exact foldlM_error hfront herror

end Fold

end Slots

section Exports

/-- A pattern that is exported. -/
def UnsupportedBinding (isExported : Bool) (binding : Binding) : Prop :=
  isExported = true ∧ ∃ span names, binding = .pattern span names

/-- A specifier with a name that is a string. -/
def UnsupportedSpecifier (specifier : ExportSpecifier) : Prop :=
  (∃ literal, specifier.localName = .quoted literal) ∨
    ∃ literal, specifier.exported = some (.quoted literal)

/-- A statement exports what no prop can stand for: a pattern, a name that is a
string, or a value without a name. What another module exports, and what only the
type checker sees, is no prop. -/
def Unsupported (statement : Statement) : Prop :=
  match statement.kind with
  | .variableDeclaration keyword bindings =>
    ∃ binding ∈ bindings, UnsupportedBinding keyword.isSome binding
  | .exportClause fromSource typeOnly specifiers =>
    fromSource = false ∧ typeOnly = false ∧
      ∃ specifier ∈ specifiers, specifier.typeOnly = false ∧ UnsupportedSpecifier specifier
  | .exportDefault => True
  | .functionDeclaration .. | .classDeclaration .. | .typeDeclaration _ | .labeled .. | .other =>
    False

/-- The error for an export that no prop can stand for. -/
def ShowsExport (error : Error) : Prop :=
  ∃ construct offset, error = .unsupportedExport construct offset

theorem unsupportedBinding_iff {isExported : Bool} {binding : Binding} :
    UnsupportedBinding isExported binding ↔ patternObstacle? isExported binding ≠ none := by
  cases binding <;> cases isExported <;>
    simp [UnsupportedBinding, patternObstacle?, Binding.patternSpan?]

theorem unsupportedSpecifier_iff {specifier : ExportSpecifier} :
    UnsupportedSpecifier specifier ↔ stringObstacle? specifier ≠ none := by
  obtain ⟨span, localName, exported, typeOnly⟩ := specifier
  cases localName with
  | quoted literal => simp [UnsupportedSpecifier, stringObstacle?]
  | identifier name =>
    cases exported with
    | none => simp [UnsupportedSpecifier, stringObstacle?]
    | some outside => cases outside <;> simp [UnsupportedSpecifier, stringObstacle?]

/-- What is unsupported is what has something in the way. -/
theorem unsupported_iff {statement : Statement} :
    Unsupported statement ↔ obstacles statement ≠ [] := by
  obtain ⟨span, kind⟩ := statement
  cases kind with
  | variableDeclaration keyword bindings =>
    simp [Unsupported, obstacles, unsupportedBinding_iff]
  | exportClause fromSource typeOnly specifiers =>
    cases fromSource <;> cases typeOnly <;>
      simp [Unsupported, obstacles, unsupportedSpecifier_iff]
  | exportDefault => simp [Unsupported, obstacles]
  | functionDeclaration keyword name => simp [Unsupported, obstacles]
  | classDeclaration keyword name => simp [Unsupported, obstacles]
  | typeDeclaration keyword => simp [Unsupported, obstacles]
  | labeled label assigns => simp [Unsupported, obstacles]
  | other => simp [Unsupported, obstacles]

variable (place : ScriptPlace) (surface : Surface)

theorem add_ok (statement : Statement) (h : ¬ Unsupported statement) :
    ∃ next, surface.add place statement = .ok next := by
  have hends : FailsFor place statement.span (obstacles statement) (surface.add place statement) :=
    add_failsFor surface statement
  rwa [not_not.mp (unsupported_iff.not.mp h)] at hends

/-- The error is the one for what is first in the way. -/
theorem add_error_first {statement : Statement} {first : Obstacle} {others : List Obstacle}
    (h : obstacles statement = first :: others) :
    surface.add place statement = .error (first.error place statement.span) := by
  have hends : FailsFor place statement.span (obstacles statement) (surface.add place statement) :=
    add_failsFor surface statement
  rwa [h] at hends

theorem add_error (statement : Statement) (h : Unsupported statement) :
    ∃ error, surface.add place statement = .error error ∧ ShowsExport error := by
  obtain ⟨first, others, hfound⟩ := List.exists_cons_of_ne_nil (unsupported_iff.mp h)
  exact ⟨_, add_error_first place surface hfound, _, _, rfl⟩

/-- A survey that ends early has the parts of what it has taken in. -/
theorem survey_error {front rest : List Statement} {statement : Statement} {between : Surface}
    {error : Error} (hfront : front.foldlM (Surface.add place) surface = .ok between)
    (hadd : between.add place statement = .error error) :
    survey place surface (front ++ statement :: rest) =
      (front.filterMap exportPart?, .error error) := by
  induction front generalizing surface with
  | nil =>
    cases hfront
    rw [List.nil_append, survey, hadd]
    rfl
  | cons first front ih =>
    rw [List.foldlM_cons] at hfront
    obtain ⟨next, hnext, hfront⟩ := Except.bind_eq_ok.mp hfront
    rw [List.cons_append, survey, hnext]
    dsimp only
    rw [ih next hfront, List.filterMap_cons]
    cases exportPart? first <;> rfl

theorem survey_eq {statements : List Statement} {last : Surface}
    (h : statements.foldlM (Surface.add place) surface = .ok last) :
    survey place surface statements = (statements.filterMap exportPart?, .ok last) := by
  induction statements generalizing surface with
  | nil =>
    cases h
    rfl
  | cons first rest ih =>
    rw [List.foldlM_cons] at h
    obtain ⟨next, hnext, hrest⟩ := Except.bind_eq_ok.mp h
    rw [survey, hnext]
    dsimp only
    rw [ih next hrest, List.filterMap_cons]
    cases exportPart? first <;> rfl

end Exports

section Passes

variable {parser : Script.Parser} {source : Text} {earlier : List Edit}
  {buffer last : EditBuffer} {script : ScriptBlock} {slots : Text}

theorem applyEdits_eq {edits : List Edit} (h : buffer.applyUntil edits = (last, none)) :
    applyEdits buffer edits = .ok last := by
  unfold applyEdits EditBuffer.applyAll
  rw [h]
  rfl

/-- A buffer that takes the edits that make a script the head of the function,
whichever of its statements are looked at. -/
def TakesHead (buffer : EditBuffer) (source : Text) (script : ScriptBlock) (slots : Text) : Prop :=
  ∀ statements, LaidOut (Text.slice source script.content) statements → ∀ surface,
    buffer.Takes (headEdits script statements surface slots)

theorem cutExports_ok {statements : List Statement} {surface : Surface} {start : Nat}
    (hsurface : statements.foldlM (Surface.add ⟨buffer.source, start⟩) .empty = .ok surface)
    (htakes : buffer.applyUntil (exportCuts start statements) = (last, none)) :
    cutExports buffer statements start = (last, .ok surface) := by
  unfold exportCuts at htakes
  rw [cutExports, survey_eq _ _ hsurface]
  dsimp only
  rw [htakes]

theorem cutExports_error {front rest : List Statement} {statement : Statement} {between : Surface}
    {error : Error} {start : Nat}
    (hfront : front.foldlM (Surface.add ⟨buffer.source, start⟩) .empty = .ok between)
    (hadd : between.add ⟨buffer.source, start⟩ statement = .error error)
    (htakes : buffer.applyUntil (exportCuts start front) = (last, none)) :
    cutExports buffer (front ++ statement :: rest) start = (last, .error error) := by
  unfold exportCuts at htakes
  rw [cutExports, survey_error _ _ hfront hadd]
  dsimp only
  rw [htakes]

theorem declareReactive_ok {statements : List Statement} {declared : List Text} {start : Nat}
    (htakes : buffer.applyUntil (reactiveDeclarations start declared statements) = (last, none)) :
    declareReactive buffer declared statements start =
      (last, .ok ((firstAssignments declared statements).map Prod.snd)) := by
  unfold reactiveDeclarations at htakes
  unfold declareReactive
  rw [implicitDeclarations_eq]
  dsimp only
  rw [htakes]

/-- Making a script the head of the function fails only for what is wrong with
the script. -/
theorem embedScript_ends (h : buffer.Records source earlier)
    (htakes : TakesHead buffer source script slots)
    (hlaid : ∀ statements, parser.statements (Text.slice source script.content) = .ok statements →
      LaidOut (Text.slice source script.content) statements) :
    match parser.statements (Text.slice source script.content) with
    | .error error => embedScript parser buffer script slots =
        .error (.scriptSyntax error.message (script.content.start + (error.start - parser.base)))
    | .ok statements =>
      ((∀ s ∈ statements, ¬ Unsupported s) →
        ∃ made, embedScript parser buffer script slots = .ok made) ∧
      ((∃ s ∈ statements, Unsupported s) →
        ∃ error, embedScript parser buffer script slots = .error error ∧ ShowsExport error) := by
  obtain ⟨framed, hframed⟩ : buffer.Takes (scriptEdits script) :=
    (htakes [] (LaidOut.nil _) .empty).front.front.front
  have hsource : framed.source = source := (EditBuffer.applyUntil_records h hframed).source_eq
  unfold embedScript
  rw [applyEdits_eq hframed]
  cases hparse : parser.statements (Text.slice source script.content) with
  | error error =>
    have hscript : parseScript parser (Text.slice framed.source script.content)
        script.content.start = .error (.scriptSyntax error.message
          (script.content.start + (error.start - parser.base))) := by
      rw [hsource, parseScript, hparse]
      rfl
    dsimp only [bind, Except.bind]
    rw [hscript]
  | ok statements =>
    have hscript : parseScript parser (Text.slice framed.source script.content)
        script.content.start = .ok statements := by
      rw [hsource, parseScript, hparse]
      rfl
    have hstatements := hlaid statements hparse
    dsimp only [bind, Except.bind]
    rw [hscript]
    dsimp only
    rcases foldlM_ends (fun surface statement => add_ok ⟨framed.source, _⟩ surface statement)
      (fun surface statement => add_error ⟨framed.source, script.content.start⟩ surface statement)
      statements .empty with ⟨hall, surface, hsurface⟩ |
      ⟨front, statement, rest, between, error, rfl, hbad, hfront, hadd, hshown⟩
    · have htaken := htakes statements hstatements surface
      obtain ⟨cut, hcut⟩ := htaken.front.front.rest hframed
      have hcutWhole := EditBuffer.applyUntil_append.mpr ⟨framed, hframed, hcut⟩
      obtain ⟨full, hfull⟩ := htaken.front.rest hcutWhole
      rw [cutExports_ok hsurface hcut]
      dsimp only
      rw [declareReactive_ok hfull]
      exact ⟨fun _ => ⟨_, rfl⟩, fun ⟨s, hmem, hbad⟩ => absurd hbad (hall s hmem)⟩
    · have hbefore : LaidOut (Text.slice source script.content) front :=
        hstatements.sublist (List.sublist_append_left _ _)
      obtain ⟨cut, hcut⟩ := (htakes front hbefore .empty).front.front.rest hframed
      rw [cutExports_error hfront hadd hcut]
      have hmem : statement ∈ front ++ statement :: rest := by simp
      exact ⟨fun hall => absurd hbad (hall statement hmem), fun _ => ⟨error, rfl, hshown⟩⟩

end Passes

section Assembly

variable (source : Text)

/-- The edits of the markup are accepted, and so are those of whatever is taken in
after them. -/
theorem exists_styled : ∃ converted styled,
    applyEdits (.ofText source) (fragmentConverter (Markup.parse source).document) =
        .ok converted ∧
      applyEdits converted ((Markup.parse source).document.styles.map
        fun style => Edit.remove style.span) = .ok styled ∧
      styled.Records source (markupEdits (Markup.parse source).document) ∧
      (∀ slots, styled.Takes (wrapEdits slots)) ∧
      ∀ script ∈ (Markup.parse source).document.scripts, ∀ slots,
        TakesHead styled source script slots := by
  have hmarkup : (EditBuffer.ofText source).Takes (markupEdits (Markup.parse source).document) :=
    (takes_wrapEdits source [] []).front.front
  obtain ⟨converted, hconverted⟩ := hmarkup.front
  obtain ⟨styled, hstyled⟩ := hmarkup.rest hconverted
  have hboth := EditBuffer.applyUntil_append.mpr ⟨converted, hconverted, hstyled⟩
  have hrecords := EditBuffer.applyUntil_records (EditBuffer.ofText_records source) hboth
  rw [List.nil_append] at hrecords
  refine ⟨converted, styled, applyEdits_eq hconverted, applyEdits_eq hstyled, hrecords, ?_, ?_⟩
  · exact fun slots => (takes_wrapEdits source slots []).front.rest hboth
  · exact fun script hscript slots statements hlaid surface =>
      (takes_headEdits surface slots [] hscript hlaid).front.rest hboth

variable {source} (parser : Script.Parser) (options : Options)

theorem assemble_misnamed {slot : Node} (hslot : slot ∈ slotsOf (Markup.parse source).document)
    (h : Misnamed slot) :
    ∃ offset, assemble parser source (Markup.parse source).document fragmentConverter options =
      .error (.malformedSlotAttribute defaultSlot nameAttribute offset) := by
  obtain ⟨converted, styled, hconverted, -⟩ := exists_styled source
  obtain ⟨offset, hslots⟩ := ofNodes_error source hslot h
  refine ⟨offset, ?_⟩
  unfold assemble
  rw [hconverted, hslots]
  rfl

theorem assemble_unscripted
    (hslots : ∀ slot ∈ slotsOf (Markup.parse source).document, ¬ Misnamed slot)
    (hscript : (Markup.parse source).document.instanceScript? = none) :
    ∃ form, assemble parser source (Markup.parse source).document fragmentConverter options =
      .ok form := by
  obtain ⟨converted, styled, hconverted, hstyled, -, hwrap, -⟩ := exists_styled source
  obtain ⟨slots, hfound⟩ := ofNodes_ok source hslots
  obtain ⟨wrapped, hwrapped⟩ := hwrap slots.written
  have hembed : embedMarkup styled slots.written = .ok wrapped := applyEdits_eq hwrapped
  unfold assemble
  rw [hconverted, hfound, hscript]
  dsimp only [bind, Except.bind]
  rw [hstyled]
  dsimp only
  rw [hembed]
  exact ⟨_, rfl⟩

theorem assemble_scripted {script : ScriptBlock}
    (hslots : ∀ slot ∈ slotsOf (Markup.parse source).document, ¬ Misnamed slot)
    (hscript : (Markup.parse source).document.instanceScript? = some script)
    (hplaces : parser.PlacesItems (Text.slice source script.content))
    (hleads : parser.LeadsExports (Text.slice source script.content)) :
    match parser.statements (Text.slice source script.content) with
    | .error error =>
      assemble parser source (Markup.parse source).document fragmentConverter options =
        .error (.scriptSyntax error.message (script.content.start + (error.start - parser.base)))
    | .ok statements =>
      ((∀ s ∈ statements, ¬ Unsupported s) → ∃ form,
        assemble parser source (Markup.parse source).document fragmentConverter options =
          .ok form) ∧
      ((∃ s ∈ statements, Unsupported s) → ∃ error,
        assemble parser source (Markup.parse source).document fragmentConverter options =
          .error error ∧ ShowsExport error) := by
  obtain ⟨converted, styled, hconverted, hstyled, hrecords, -, hhead⟩ := exists_styled source
  obtain ⟨slots, hfound⟩ := ofNodes_ok source hslots
  have htakes := hhead script (List.mem_of_find?_eq_some hscript) slots.written
  have hends := embedScript_ends hrecords htakes fun statements hparse =>
    laidOut_of_placesItems hparse hplaces hleads
  unfold assemble
  rw [hconverted, hfound, hscript]
  dsimp only [bind, Except.bind]
  rw [hstyled]
  dsimp only
  cases hparse : parser.statements (Text.slice source script.content) with
  | error error =>
    rw [hparse] at hends
    dsimp only at hends ⊢
    rw [hends]
  | ok statements =>
    rw [hparse] at hends
    dsimp only at hends ⊢
    constructor
    · intro hall
      obtain ⟨made, hmade⟩ := hends.1 hall
      rw [hmade]
      exact ⟨_, rfl⟩
    · intro hbad
      obtain ⟨error, herror, hshown⟩ := hends.2 hbad
      rw [herror]
      exact ⟨error, rfl, hshown⟩

end Assembly

/-- How making the typed form of a document ends. What is wrong with the name of a
slot comes before what is wrong with the script, and its syntax before its exports.
Of the syntax, the parser's own words are passed on. -/
structure Outcome (parser : Script.Parser) (source : Text) (document : Document)
    (locate : Error → Error) (result : Except Error TypedForm) : Prop where
  misnamed : ∀ slot ∈ slotsOf document, Misnamed slot →
    ∃ offset, result =
      .error (locate (.malformedSlotAttribute defaultSlot nameAttribute offset))
  unscripted : (∀ slot ∈ slotsOf document, ¬ Misnamed slot) →
    document.instanceScript? = none → ∃ form, result = .ok form
  unparsed : (∀ slot ∈ slotsOf document, ¬ Misnamed slot) →
    ∀ script error, document.instanceScript? = some script →
      parser.parse (Text.slice source script.content) = .error error →
      result = .error (locate (.scriptSyntax error.message
        (script.content.start + (error.start - parser.base))))
  unsupported : (∀ slot ∈ slotsOf document, ¬ Misnamed slot) →
    ∀ script statements, document.instanceScript? = some script →
      parser.statements (Text.slice source script.content) = .ok statements →
      ∀ s ∈ statements, Unsupported s →
        ∃ construct offset, result = .error (locate (.unsupportedExport construct offset))
  typed : (∀ slot ∈ slotsOf document, ¬ Misnamed slot) →
    ∀ script statements, document.instanceScript? = some script →
      parser.statements (Text.slice source script.content) = .ok statements →
      (∀ s ∈ statements, ¬ Unsupported s) → ∃ form, result = .ok form

theorem root_locate (options : Options) (source : Text) (error : Error) :
    (options.locate source error).root = error.root := by
  unfold Options.locate
  split
  · rfl
  · exact Error.root_inFile _ _ _

section Outcome

variable {parser : Script.Parser} {source : Text} {options : Options} {document : Document}
  {result : Except Error TypedForm}

/-- None of the ways to end is that an edit is refused. -/
theorem Outcome.root_ne_edit
    (h : Outcome parser source document (options.locate source) result) {error : Error}
    (herror : result = .error error) (refusal : EditError) :
    error.root ≠ .edit refusal := by
  have hother {cause : Error} (hcause : result = .error (options.locate source cause))
      (hroot : cause.root ≠ .edit refusal) : error.root ≠ .edit refusal := by
    cases Except.error.inj (herror.symm.trans hcause)
    rwa [root_locate]
  have hnone {form : TypedForm} (hform : result = .ok form) : error.root ≠ .edit refusal :=
    nomatch herror.symm.trans hform
  by_cases hslots : ∀ slot ∈ slotsOf document, ¬ Misnamed slot
  · cases hscript : document.instanceScript? with
    | none =>
      obtain ⟨form, hform⟩ := h.unscripted hslots hscript
      exact hnone hform
    | some script =>
      cases hparse : parser.statements (Text.slice source script.content) with
      | error said =>
        exact hother (h.unparsed hslots script said hscript
          (Script.Parser.statements_error.mp hparse)) nofun
      | ok statements =>
        by_cases hall : ∀ s ∈ statements, ¬ Unsupported s
        · obtain ⟨form, hform⟩ := h.typed hslots script statements hscript hparse hall
          exact hnone hform
        · simp only [not_forall, not_not] at hall
          obtain ⟨s, hmem, hbad⟩ := hall
          obtain ⟨construct, offset, hshown⟩ :=
            h.unsupported hslots script statements hscript hparse s hmem hbad
          exact hother hshown nofun
  · simp only [not_forall, not_not] at hslots
    obtain ⟨slot, hmem, hmisnamed⟩ := hslots
    obtain ⟨offset, hshown⟩ := h.misnamed slot hmem hmisnamed
    exact hother hshown nofun

theorem typeDocument_outcome
    (hscripts : ∀ script, (Markup.parse source).document.instanceScript? = some script →
      parser.PlacesItems (Text.slice source script.content) ∧
        parser.LeadsExports (Text.slice source script.content)) :
    Outcome parser source (Markup.parse source).document (options.locate source)
      (typeDocument parser source (Markup.parse source).document fragmentConverter options) where
  misnamed := by
    intro slot hslot hmisnamed
    obtain ⟨offset, hends⟩ := assemble_misnamed parser options hslot hmisnamed
    exact ⟨offset, by rw [typeDocument, hends]; rfl⟩
  unscripted := by
    intro hslots hscript
    obtain ⟨form, hform⟩ := assemble_unscripted parser options hslots hscript
    exact ⟨form, typeDocument_ok.mpr hform⟩
  unparsed := by
    intro hslots script error hscript hparse
    obtain ⟨hplaces, hleads⟩ := hscripts script hscript
    have hends := assemble_scripted parser options hslots hscript hplaces hleads
    rw [Script.Parser.statements_error.mpr hparse] at hends
    rw [typeDocument, hends]
    rfl
  unsupported := by
    intro hslots script statements hscript hparse s hmem hbad
    obtain ⟨hplaces, hleads⟩ := hscripts script hscript
    have hends := assemble_scripted parser options hslots hscript hplaces hleads
    rw [hparse] at hends
    obtain ⟨error, herror, construct, offset, rfl⟩ := hends.2 ⟨s, hmem, hbad⟩
    exact ⟨construct, offset, by rw [typeDocument, herror]; rfl⟩
  typed := by
    intro hslots script statements hscript hparse hall
    obtain ⟨hplaces, hleads⟩ := hscripts script hscript
    have hends := assemble_scripted parser options hslots hscript hplaces hleads
    rw [hparse] at hends
    obtain ⟨form, hform⟩ := hends.1 hall
    exact ⟨form, typeDocument_ok.mpr hform⟩

end Outcome

/-- A document is never given up for an edit that is refused, so making the typed
form of a component fails for the first fault of its markup, or else as its
document has it. The parser is to place the items of the script in it and to begin
what is exported with the word `export`. -/
theorem typeComponent_outcome (parser : Script.Parser) (source : Text) (options : Options)
    (hscripts : ∀ script, (Markup.parse source).document.instanceScript? = some script →
      parser.PlacesItems (Text.slice source script.content) ∧
        parser.LeadsExports (Text.slice source script.content)) :
    (∀ error refusal,
      typeDocument parser source (Markup.parse source).document fragmentConverter options =
        .error error → error.root ≠ .edit refusal) ∧
    (∀ fault rest, (Markup.parse source).errors = fault :: rest →
      typeComponent parser source options = .error (options.locate source (.template fault))) ∧
    ((Markup.parse source).errors = [] →
      Outcome parser source (Markup.parse source).document (options.locate source)
        (typeComponent parser source options)) := by
  refine ⟨?_, ?_, ?_⟩
  · exact fun error refusal herror => (typeDocument_outcome hscripts).root_ne_edit herror refusal
  · intro fault rest herrors
    unfold typeComponent
    dsimp only
    rw [herrors]
  · intro herrors
    have hsame : typeComponent parser source options =
        typeDocument parser source (Markup.parse source).document fragmentConverter options := by
      unfold typeComponent
      dsimp only
      rw [herrors]
    rw [hsame]
    exact typeDocument_outcome hscripts

/-- The one export of the script begins with the word. -/
theorem countingScript_leads : countingParser.LeadsExports countingScript := by
  refine Script.Parser.leadsExports_of_parse countingScript_parse ?_
  simp only [countingItems, List.mem_cons, List.not_mem_nil, or_false]
  rintro item (rfl | rfl) declaration hkind
  · have hslice : Text.slice countingScript (countingParser.place ⟨1, 14⟩) =
        "export let a;".toList := by
      decide +kernel
    rw [hslice]
    exact Script.exportsDeclaration_spaced (by decide) "et a;".toList
  · cases hkind

theorem typeComponent_outcome_counting :
    ∃ form, typeComponent countingParser countingComponent .default = .ok form := by
  have herrors : (Markup.parse countingComponent).errors = [] := by decide +kernel
  have hslots : slotsOf (Markup.parse countingComponent).document = [] := by decide +kernel
  obtain ⟨script, hscript, -, -, hslice⟩ := countingComponent_script
  obtain ⟨-, -, houtcome⟩ := typeComponent_outcome countingParser countingComponent .default (by
    intro other hother
    cases hscript.symm.trans hother
    rw [hslice]
    exact ⟨countingScript_places, countingScript_leads⟩)
  refine (houtcome herrors).typed ?_ script countingStatements hscript
    (hslice ▸ countingScript_statements) ?_
  · rw [hslots]
    exact List.forall_mem_nil _
  · simp [countingStatements, Unsupported, UnsupportedBinding]

end TypedComponent.Component
