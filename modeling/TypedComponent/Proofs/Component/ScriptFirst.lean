import TypedComponent.Proofs.Component.TypedCode

/-!
The script in front of the markup. Whatever is wrong with a source, the typed
form begins with its instance script, and if the script is closed, its fragment
begins right behind it. If the script never ends, there is no tag to write the
beginning of the fragment over, and it is placed at the end of the source; the
move to the front leaves it there, behind the markup.
-/

namespace TypedComponent.Component

open Markup (Document ScriptBlock)
open Script (Statement)

/-- The edits of all passes over a document make its instance script the head of
the typed form. -/
theorem heads {source : Text} {document : Document} {script : ScriptBlock}
    {statements : List Statement} {surface : Surface} {slots ending : Text}
    (hlies : script.LiesIn source) (hcuts : ∀ cut ∈ markupCuts document, cut.Apart script.span) :
    Heads source script (markupCuts document) (statements.filterMap exportPart?)
      (declarations surface.declared statements)
      (componentEdits document (headEdits script statements surface slots) ending) := by
  have hopening := hlies.opening_lt
  have hcontent := hlies.content_place.start_le
  have hstop := hlies.stop_le
  exact {
    liesIn := hlies
    cuts_apart := hcuts
    removed := by rw [removed_componentEdits, removed_headEdits]
    placed_from := by
      intro place hplace
      rw [placed_componentEdits, placed_headEdits] at hplace
      rcases List.mem_append.mp hplace with hend | hdeclared
      · split at hend
        · rw [List.mem_singleton.mp hend]
          exact hcontent
        · cases hend
      · obtain ⟨text, -, rfl⟩ := List.mem_map.mp hdeclared
        exact Nat.le_add_left _ _
    placed_inside := by
      intro offset hoffset
      have hbefore : script.content.stop ≠ offset + script.content.start := by
        unfold Span.length at hoffset
        omega
      rw [placed_componentEdits, placed_headEdits, textsAt_append, textsAt_shifted]
      split
      · rw [textsAt_eq_nil fun place hplace => by rwa [List.mem_singleton.mp hplace],
          List.nil_append]
      · rfl
    relocations := by
      rw [relocations_componentEdits, relocations_headEdits _ _ _ _ (by omega)]
    opening := by
      rw [overwrite_mem_componentEdits, overwrite_mem_headEdits]
      exact .inl ⟨rfl, rfl⟩
    overwritten := by
      intro range text hedit
      rw [overwrite_mem_componentEdits, overwrite_mem_headEdits] at hedit
      rcases hedit with ⟨hrange, -⟩ | ⟨-, hrange, -⟩
      · exact .inl hrange
      · exact .inr hrange
    ahead := insertsAhead_componentEdits _ _ _ (insertsAhead_headEdits _ _ _ _) }

section Texts

variable {source : Text} {document : Document} {script : ScriptBlock}
  {statements : List Statement} {surface : Surface} {slots ending : Text} {buffer : EditBuffer}

/-- A closed script is followed by the beginning of the fragment. -/
theorem closed_text (hlies : script.LiesIn source)
    (hcuts : ∀ cut ∈ markupCuts document, cut.Apart script.span)
    (hclosed : script.content.stop < script.span.stop)
    (h : buffer.Records source
      (componentEdits document (headEdits script statements surface slots) ending)) :
    ∃ rest, (Cellwise.pieces source
      (componentEdits document (headEdits script statements surface slots) ending)).flatMap
        Piece.text =
      "<>".toList ++ (functionOpening ++
        (Text.spliced (Text.slice source script.content) (statements.filterMap exportPart?)
          (declarations surface.declared statements) ++ fragmentOpening)) ++ rest := by
  have e : Heads source script (markupCuts document) (statements.filterMap exportPart?)
      (declarations surface.declared statements)
      (componentEdits document (headEdits script statements surface slots) ending) :=
    heads hlies hcuts
  have hne : script.content.stop ≠ script.span.stop := Nat.ne_of_lt hclosed
  have hclosing : .overwrite ⟨script.content.stop, script.span.stop⟩ fragmentOpening ∈
      componentEdits document (headEdits script statements surface slots) ending := by
    rw [overwrite_mem_componentEdits, overwrite_mem_headEdits]
    exact .inr ⟨hne, rfl, rfl⟩
  have hend : textsAt ((componentEdits document (headEdits script statements surface slots)
      ending).filterMap Edit.placed?) script.content.stop =
        textsAt (declarations surface.declared statements) script.content.length := by
    have hstop : script.content.stop = script.content.length + script.content.start := by
      have hle := hlies.content_place.start_le
      unfold Span.length
      omega
    rw [placed_componentEdits, placed_headEdits, if_neg hne, List.nil_append, hstop]
    exact textsAt_shifted _ _ _
  rw [pieces_componentEdits (prepended_headEdits _ _ _ _) (insertsAhead_headEdits _ _ _ _),
    e.order_eq, List.flatMap_append, List.flatMap_append, e.script_text h hclosing hend]
  simp only [List.append_assoc]
  exact ⟨_, rfl⟩

/-- A script that never ends is followed by the markup, and the fragment begins
behind both. -/
theorem unclosed_text (hlies : script.LiesIn source)
    (hcuts : ∀ cut ∈ markupCuts document, cut.Apart script.span)
    (hunclosed : script.content.stop = script.span.stop)
    (h : buffer.Records source
      (componentEdits document (headEdits script statements surface slots) ending)) :
    (Cellwise.pieces source
      (componentEdits document (headEdits script statements surface slots) ending)).flatMap
        Piece.text =
      "<>".toList ++ (functionOpening ++
        ((Text.splicedChars (Text.slice source script.content) (statements.filterMap exportPart?)
            (declarations surface.declared statements) ++
          Text.without source (script.span :: markupCuts document)) ++ fragmentOpening) ++
        textsAt (declarations surface.declared statements)
          (Text.bytes (Text.slice source script.content))) ++
        ("</>".toList ++ functionEnding (writtenProps surface.exports) slots ++ ending) := by
  have e : Heads source script (markupCuts document) (statements.filterMap exportPart?)
      (declarations surface.declared statements)
      (componentEdits document (headEdits script statements surface slots) ending) :=
    heads hlies hcuts
  have hlast : script.span.stop = Text.bytes source :=
    (hlies.closed_or_last.resolve_left (by omega)).2
  have hstop : Text.bytes source = script.content.length + script.content.start := by
    have hle := hlies.content_place.start_le
    unfold Span.length
    omega
  have hnone : Text.cellsIn source ⟨script.content.stop, script.span.stop⟩ = [] :=
    Text.cellsIn_eq_nil (Nat.le_of_eq hunclosed.symm)
  have hbehind : Text.cellsIn source ⟨script.span.stop, Text.bytes source⟩ = [] :=
    Text.cellsIn_eq_nil (Nat.le_of_eq hlast.symm)
  have hscript : ((Text.cellsIn source script.span).flatMap (Cellwise.held (componentEdits document
      (headEdits script statements surface slots) ending))).flatMap Piece.text =
        functionOpening ++ Text.splicedChars (Text.slice source script.content)
          (statements.filterMap exportPart?) (declarations surface.declared statements) := by
    rw [e.script_cells, hnone, List.append_nil, List.flatMap_append, List.flatMap_append,
      e.opening_text h, e.inside_text]
  have hmarkup := e.markup_text
    (by
      rw [hbehind]
      exact fun _ hcell => nomatch hcell)
    (by
      rw [hbehind]
      exact fun _ hcell => nomatch hcell)
  have hend : textsAt ((headEdits script statements surface slots).filterMap Edit.placed?)
      (Text.bytes source) = fragmentOpening ++
        textsAt (declarations surface.declared statements) script.content.length := by
    rw [placed_headEdits, if_pos hunclosed, textsAt_append, hunclosed, hlast, hstop,
      textsAt_shifted]
    simp [textsAt]
  rw [pieces_componentEdits (prepended_headEdits _ _ _ _) (insertsAhead_headEdits _ _ _ _),
    e.order_eq, List.flatMap_append, List.flatMap_append, hscript, hmarkup, hend, outro_headEdits,
    e.bytes_content]
  simp only [List.append_assoc]

end Texts

/-- How the typed form of a document with an instance script begins, whatever is
wrong with its source. -/
theorem typeDocument_begins {parser : Script.Parser} {source : Text} {options : Options}
    {form : TypedForm} {script : ScriptBlock}
    (h : typeDocument parser source (Markup.parse source).document fragmentConverter options =
      .ok form)
    (hscript : (Markup.parse source).document.instanceScript? = some script) :
    ∃ statements,
      parser.statements (Text.slice source script.content) = .ok statements ∧
        (script.content.stop < script.span.stop → ∃ rest,
          form.code = "<></>;function render() \x7b\n".toList ++
            Text.spliced (Text.slice source script.content) (statements.filterMap exportPart?)
              (declarations (statements.flatMap declaredNames) statements) ++
            ";\n<>".toList ++ rest) ∧
        (script.content.stop = script.span.stop →
          form.code = codeWithScript
            (Text.splicedChars (Text.slice source script.content)
                (statements.filterMap exportPart?)
                (declarations (statements.flatMap declaredNames) statements) ++
              Text.without source (script.span :: markupCuts (Markup.parse source).document))
            (textsAt (declarations (statements.flatMap declaredNames) statements)
              (Text.bytes (Text.slice source script.content)))
            (writtenProps form.exports) form.slots.written
            (exportedClass (options.filename.map nameOfPath))) := by
  obtain ⟨-, edits, buffer, hframing, hedits, hcode⟩ := assemble_ok (typeDocument_ok.mp h)
  have hrecords : buffer.Records source (componentEdits (Markup.parse source).document edits
      (exportedClass (options.filename.map nameOfPath))) := hedits
  rw [hscript] at hframing
  obtain ⟨statements, surface, hparse, hsurface, hexports, rfl⟩ := hframing
  have hmem := List.mem_of_find?_eq_some hscript
  have hlies := Markup.parse_scripts source hmem
  have hcuts := markupCuts_apart source hmem
  have htext := hcode.trans hrecords.pieces_agree.text
  refine ⟨statements, hparse, ?_⟩
  rw [← Surface.declared_of_foldlM hsurface]
  constructor
  · intro hclosed
    obtain ⟨rest, hrest⟩ := closed_text hlies hcuts hclosed hrecords
    refine ⟨rest, htext.trans (hrest.trans ?_)⟩
    rw [opening_eq]
    simp only [List.append_assoc]
    rfl
  · intro hunclosed
    rw [htext, unclosed_text hlies hcuts hunclosed hrecords, hexports]
    exact codeWithScript_eq _ _ _ _ _

/-- A script that never ends, behind markup. -/
def unclosedComponent : Text := "<p/><script>let a;".toList

/-- A parser that has the tree of the script. -/
def unclosedParser : Script.Parser :=
  .ofTable 1 [("let a;".toList,
    [⟨⟨1, 7⟩, .statement (.declaration
      (.variableDeclaration false [⟨⟨5, 6⟩, .name "a".toList⟩]))⟩])]

theorem unclosedComponent_script :
    (Markup.parse unclosedComponent).document.instanceScript?.map
      (fun script => (script.span, script.content)) = some (⟨4, 18⟩, ⟨12, 18⟩) := by
  decide +kernel

theorem unclosedComponent_statements :
    unclosedParser.statements (Text.slice unclosedComponent ⟨12, 18⟩) =
      .ok [⟨⟨0, 6⟩, .variableDeclaration none [.name "a".toList]⟩] := by
  decide +kernel

theorem typeDocument_begins_unclosed :
    ∃ form, typeDocument unclosedParser unclosedComponent
        (Markup.parse unclosedComponent).document fragmentConverter .default = .ok form ∧
      form.code = codeWithScript "let a;<p/>".toList [] (writtenProps form.exports)
        form.slots.written (exportedClass none) := by
  have hsucceeds : (typeDocument unclosedParser unclosedComponent
      (Markup.parse unclosedComponent).document fragmentConverter .default).isOk = true := by
    decide +kernel
  have hcuts : markupCuts (Markup.parse unclosedComponent).document = [] := by decide +kernel
  obtain ⟨script, hscript, hplaces⟩ := Option.map_eq_some_iff.mp unclosedComponent_script
  obtain ⟨hspan, hcontent⟩ := Prod.mk.inj hplaces
  cases hform : typeDocument unclosedParser unclosedComponent
      (Markup.parse unclosedComponent).document fragmentConverter .default with
  | error error =>
    rw [hform] at hsucceeds
    cases hsucceeds
  | ok form =>
    obtain ⟨statements, hstatements, -, hunclosed⟩ := typeDocument_begins hform hscript
    rw [hcontent, unclosedComponent_statements] at hstatements
    cases hstatements
    refine ⟨form, rfl, (hunclosed (by rw [hcontent, hspan])).trans ?_⟩
    rw [hcontent, hspan, hcuts]
    have hscriptAndMarkup : Text.splicedChars (Text.slice unclosedComponent ⟨12, 18⟩) [] [] ++
        Text.without unclosedComponent [⟨4, 18⟩] = "let a;<p/>".toList := by
      decide +kernel
    exact congrArg (codeWithScript · _ _ _ _) hscriptAndMarkup

/-- The beginning of the fragment does not always follow the script. -/
theorem fragmentOpening_not_behind_script :
    ¬ ∀ (source : Text) (options : Options) (form : TypedForm) (script : ScriptBlock)
      (statements : List Statement),
      typeDocument unclosedParser source (Markup.parse source).document fragmentConverter
        options = .ok form →
      (Markup.parse source).document.instanceScript? = some script →
      unclosedParser.statements (Text.slice source script.content) = .ok statements →
      ∃ rest, form.code = "<></>;function render() \x7b\n".toList ++
        Text.spliced (Text.slice source script.content) (statements.filterMap exportPart?)
          (declarations (statements.flatMap declaredNames) statements) ++
        ";\n<>".toList ++ rest := by
  intro h
  have hcode : (typeDocument unclosedParser unclosedComponent
      (Markup.parse unclosedComponent).document fragmentConverter .default).toOption.map
        (fun form => form.code.take 36) =
          some "<></>;function render() \x7b\nlet a;<p/>".toList := by
    decide +kernel
  obtain ⟨script, hscript, hplaces⟩ := Option.map_eq_some_iff.mp unclosedComponent_script
  obtain ⟨-, hcontent⟩ := Prod.mk.inj hplaces
  have hstatements := unclosedComponent_statements
  rw [← hcontent] at hstatements
  cases hform : typeDocument unclosedParser unclosedComponent
      (Markup.parse unclosedComponent).document fragmentConverter .default with
  | error error =>
    rw [hform] at hcode
    cases hcode
  | ok form =>
    obtain ⟨rest, hrest⟩ := h unclosedComponent .default form script _ hform hscript hstatements
    rw [hform] at hcode
    have hexpected : "<></>;function render() \x7b\n".toList ++
        Text.spliced (Text.slice unclosedComponent ⟨12, 18⟩) [] [] ++ ";\n<>".toList =
          "<></>;function render() \x7b\nlet a;;\n<>".toList := by
      decide +kernel
    have hbegins : form.code = "<></>;function render() \x7b\nlet a;;\n<>".toList ++ rest := by
      rw [hrest, hcontent]
      exact congrArg (· ++ rest) hexpected
    have hbegan : form.code.take 36 = "<></>;function render() \x7b\nlet a;<p/>".toList :=
      Option.some.inj hcode
    rw [hbegins, List.take_left' (by decide)] at hbegan
    revert hbegan
    decide

end TypedComponent.Component
