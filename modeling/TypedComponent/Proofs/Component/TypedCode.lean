import TypedComponent.Proofs.Component.Effects
import TypedComponent.Proofs.Component.Embedding
import TypedComponent.Proofs.Markup.Blocks

/-!
The code of a typed form, spelled out. All passes together leave the script and
the markup as two texts of their own, the script in front, with fixed text
around them.
-/

namespace TypedComponent.Component

open Markup (Document ScriptBlock)
open Script (Statement)

/-- The edits of all passes over a document embed its instance script. -/
theorem embeds {parser : Script.Parser} {source : Text} {document : Document}
    {script : ScriptBlock} {statements : List Statement} {surface : Surface} {slots ending : Text}
    (hencloses : Markup.Outline.Encloses script.span script.content [])
    (hcuts : ∀ cut ∈ markupCuts document, cut.Apart script.span)
    (hparse : parser.statements (Text.slice source script.content) = .ok statements)
    (hwithin : WithinScript (Text.slice source script.content) statements) :
    Embeds source script (markupCuts document) (statements.filterMap exportPart?)
      (declarations surface.declared statements)
      (componentEdits document (headEdits script statements surface slots) ending) := by
  have hclosed : script.content.stop < script.span.stop :=
    hencloses.closed.resolve_right fun hne => hne rfl
  have hlt : script.span.start < script.span.stop := by
    have hstart := hencloses.start_le
    have hcontent := hencloses.content_le
    omega
  exact {
    content_le := hencloses.content_le
    closed := hclosed
    cuts_apart := hcuts
    parts_within := fun part hpart => exportPart?_within hparse hwithin hpart
    found_within := by
      intro text htext
      obtain ⟨found, hfound, rfl⟩ := List.mem_map.mp htext
      exact firstAssignments_within hwithin _ found hfound
    removed := by rw [removed_componentEdits, removed_headEdits]
    placed := by
      rw [placed_componentEdits, placed_headEdits, if_neg (Nat.ne_of_lt hclosed), List.nil_append]
    relocations := by rw [relocations_componentEdits, relocations_headEdits _ _ _ _ hlt]
    overwritten := by
      intro range text
      rw [overwrite_mem_componentEdits, overwrite_mem_headEdits,
        and_iff_right (Nat.ne_of_lt hclosed)]
    ahead := insertsAhead_componentEdits _ _ _ (insertsAhead_headEdits _ _ _ _) }

/-- A script that is embedded comes first, then the markup, and the end of the
function. -/
theorem embedded_text {source : Text} {document : Document} {script : ScriptBlock}
    {statements : List Statement} {surface : Surface} {slots ending : Text}
    {buffer : EditBuffer} {parts : List Span} {found : List (Nat × Text)}
    (e : Embeds source script (markupCuts document) parts found
      (componentEdits document (headEdits script statements surface slots) ending))
    (h : buffer.Records source
      (componentEdits document (headEdits script statements surface slots) ending)) :
    (Cellwise.pieces source
      (componentEdits document (headEdits script statements surface slots) ending)).flatMap
        Piece.text =
      "<>".toList ++ (functionOpening ++
        (Text.spliced (Text.slice source script.content) parts found ++ fragmentOpening) ++
          Text.without source (script.span :: markupCuts document)) ++
        ("</>".toList ++ functionEnding (writtenProps surface.exports) slots ++ ending) := by
  have hend := e.textsAt_end h
  rw [placed_componentEdits] at hend
  rw [pieces_componentEdits (prepended_headEdits _ _ _ _) (insertsAhead_headEdits _ _ _ _),
    e.order_eq h, List.flatMap_append, List.flatMap_append, e.script_text h, e.markup_text h,
    hend, outro_headEdits, List.append_nil]

theorem typeComponent_ok {parser : Script.Parser} {source : Text} {options : Options}
    {form : TypedForm} (h : typeComponent parser source options = .ok form) :
    (Markup.parse source).errors = [] ∧
      assemble parser source (Markup.parse source).document fragmentConverter options =
        .ok form := by
  unfold typeComponent at h
  dsimp only at h
  cases herrors : (Markup.parse source).errors with
  | cons fault rest =>
    rw [herrors] at h
    cases h
  | nil =>
    rw [herrors] at h
    exact ⟨rfl, typeDocument_ok.mp h⟩

/-- The code around an instance script and the markup that is left without it. -/
def codeWithScript (script markup props slots ending : Text) : Text :=
  "<></>;function render() \x7b\n".toList ++ script ++ ";\n<>".toList ++ markup ++
    "</>\nreturn \x7b props: ".toList ++ props ++ ", slots: ".toList ++ slots ++
    " \x7d\x7d".toList ++ ending

/-- The code around markup that has no instance script. -/
def codeWithoutScript (markup slots ending : Text) : Text :=
  "<></>;function render() \x7b\n<>".toList ++ markup ++
    "</>;\nreturn \x7b props: \x7b\x7d, slots: ".toList ++ slots ++ " \x7d\x7d".toList ++ ending

/-- The fixed texts around a script and markup run together. They are variables
here, since literals are compared by their characters. -/
theorem embedded_regroup {a b c d e f g ab de : Text} (hab : ab = a ++ b) (hde : de = d ++ e)
    (script markup props slots ending : Text) :
    a ++ (b ++ (script ++ c) ++ markup) ++ (d ++ (e ++ props ++ f ++ slots ++ g) ++ ending) =
      ab ++ script ++ c ++ markup ++ de ++ props ++ f ++ slots ++ g ++ ending := by
  simp only [hab, hde, List.append_assoc]

theorem wrapped_regroup {a b c d e f ab de : Text} (hab : ab = a ++ b)
    (hde : de = c ++ (d ++ e)) (markup slots ending : Text) :
    a ++ b ++ markup ++ (c ++ (d ++ (e ++ slots ++ f)) ++ ending) =
      ab ++ markup ++ de ++ slots ++ f ++ ending := by
  simp only [hab, hde, List.append_assoc]

theorem opening_eq : "<></>;function render() \x7b\n".toList = "<>".toList ++ functionOpening := by
  unfold functionOpening
  rw [← String.toList_append]
  decide

theorem ending_eq :
    "</>\nreturn \x7b props: ".toList = "</>".toList ++ "\nreturn \x7b props: ".toList := by
  rw [← String.toList_append]
  decide

theorem codeWithScript_eq (script markup props slots ending : Text) :
    "<>".toList ++ (functionOpening ++ (script ++ fragmentOpening) ++ markup) ++
        ("</>".toList ++ functionEnding props slots ++ ending) =
      codeWithScript script markup props slots ending :=
  embedded_regroup opening_eq ending_eq script markup props slots ending

theorem codeWithoutScript_eq (markup slots ending : Text) :
    "<>".toList ++ (functionOpening ++ "<>".toList) ++ markup ++
        ("</>".toList ++ (";".toList ++ functionEnding (writtenProps .empty) slots) ++ ending) =
      codeWithoutScript markup slots ending := by
  have hprops : writtenProps .empty = "\x7b\x7d".toList := by
    simp [writtenProps, Text.inBraces, Text.join, Registry.empty]
  have hopening : "<></>;function render() \x7b\n<>".toList =
      "<>".toList ++ (functionOpening ++ "<>".toList) := by
    unfold functionOpening
    rw [← String.toList_append, ← String.toList_append]
    decide
  have hending : "</>;\nreturn \x7b props: \x7b\x7d, slots: ".toList =
      "</>".toList ++ (";".toList ++
        ("\nreturn \x7b props: ".toList ++ writtenProps .empty ++ ", slots: ".toList)) := by
    rw [hprops, ← String.toList_append, ← String.toList_append, ← String.toList_append,
      ← String.toList_append]
    decide
  exact wrapped_regroup hopening hending markup slots ending

/-- The code of every component that has a typed form, provided that the parser
places the items of the script in it. An export keyword is looked for where the
parser says that its statement begins. -/
theorem typeComponent_code {parser : Script.Parser} {source : Text} {options : Options}
    {form : TypedForm} (h : typeComponent parser source options = .ok form)
    (hplaces : ∀ script, (Markup.parse source).document.instanceScript? = some script →
      parser.PlacesItems (Text.slice source script.content)) :
    Slots.ofNodes source (Markup.parse source).document.nodes = .ok form.slots ∧
      match (Markup.parse source).document.instanceScript? with
      | none =>
        form.exports = .empty ∧
          form.code = codeWithoutScript
            (Text.without source (markupCuts (Markup.parse source).document))
            form.slots.written (exportedClass (options.filename.map nameOfPath))
      | some script => ∃ statements surface,
        parser.statements (Text.slice source script.content) = .ok statements ∧
          statements.foldlM (Surface.add ⟨source, script.content.start⟩) .empty = .ok surface ∧
          form.exports = surface.exports ∧
          (∀ statement ∈ statements, ∀ part, exportPart? statement = some part ↔
            (statement.kind.keyword? = some part ∧
              Script.KeywordAt (Text.slice source script.content) statement.span.start part) ∨
            ((∃ fromSource typeOnly specifiers,
              statement.kind = .exportClause fromSource typeOnly specifiers) ∧
              part = statement.span)) ∧
          form.code = codeWithScript
            (Text.spliced (Text.slice source script.content)
              (statements.filterMap exportPart?)
              (declarations (statements.flatMap declaredNames) statements))
            (Text.without source (script.span :: markupCuts (Markup.parse source).document))
            (writtenProps form.exports) form.slots.written
            (exportedClass (options.filename.map nameOfPath)) := by
  obtain ⟨herrors, hassemble⟩ := typeComponent_ok h
  obtain ⟨hslots, edits, buffer, hframing, hedits, hcode⟩ := assemble_ok hassemble
  have hrecords : buffer.Records source (componentEdits (Markup.parse source).document edits
      (exportedClass (options.filename.map nameOfPath))) := hedits
  have htext : form.code = (Cellwise.pieces source (componentEdits
      (Markup.parse source).document edits
      (exportedClass (options.filename.map nameOfPath)))).flatMap Piece.text :=
    hcode.trans hrecords.pieces_agree.text
  refine ⟨hslots, ?_⟩
  cases hscript : (Markup.parse source).document.instanceScript? with
  | none =>
    rw [hscript] at hframing
    obtain ⟨hexports, rfl⟩ := hframing
    rw [wrapped_text] at htext
    exact ⟨hexports, htext.trans (codeWithoutScript_eq _ _ _)⟩
  | some script =>
    rw [hscript] at hframing
    obtain ⟨statements, surface, hparse, hsurface, hexports, rfl⟩ := hframing
    have hmem := List.mem_of_find?_eq_some hscript
    have hencloses := (Markup.parse_separated source hmem).2.2
    rw [herrors] at hencloses
    have hembedded := embedded_text (embeds hencloses (markupCuts_apart source hmem) hparse
      (withinScript_of_placesItems hparse (hplaces script hscript))) hrecords
    refine ⟨statements, surface, hparse, hsurface, hexports,
      fun _ hmem => exportPart?_iff hparse hmem, ?_⟩
    rw [htext, hembedded, hexports, Surface.declared_of_foldlM hsurface]
    exact codeWithScript_eq _ _ _ _ _

/-- A script that exports and reacts, between markup and a comment. -/
def countingComponent : Text :=
  "<b/><script>export let a;$: n = a</script><!---->".toList

def countingScript : Text := "export let a;$: n = a".toList

def countingItems : List Script.Tree.Item :=
  [⟨⟨1, 14⟩, .exportedDeclaration
      (.variableDeclaration false [⟨⟨12, 13⟩, .name "a".toList⟩])⟩,
    ⟨⟨14, 22⟩, .statement (.labeled "$".toList
      (.expression (.assignment .plain (.name "n".toList) (.name "a".toList))))⟩]

/-- A parser that counts positions from one. -/
def countingParser : Script.Parser := .ofTable 1 [(countingScript, countingItems)]

def countingStatements : List Statement :=
  [⟨⟨0, 13⟩, .variableDeclaration (some ⟨0, 7⟩) [.name "a".toList]⟩,
    ⟨⟨13, 21⟩, .labeled "$".toList (some "n".toList)⟩]

theorem countingScript_parse : countingParser.parse countingScript = .ok countingItems := rfl

theorem countingScript_statements :
    countingParser.statements countingScript = .ok countingStatements :=
  Script.Parser.statements_ok.mpr ⟨countingItems, countingScript_parse, by decide +kernel⟩

theorem countingScript_places : countingParser.PlacesItems countingScript := by
  refine Script.Parser.placesItems_of_parse countingScript_parse ?_ (by simp [countingItems])
  simp only [countingItems, List.mem_cons, List.not_mem_nil, or_false]
  rintro item (rfl | rfl) <;> exact ⟨by decide, by decide, by decide⟩

theorem countingComponent_script :
    ∃ script, (Markup.parse countingComponent).document.instanceScript? = some script ∧
      script.span = ⟨4, 42⟩ ∧ script.content = ⟨12, 33⟩ ∧
        Text.slice countingComponent script.content = countingScript := by
  have hscript : (Markup.parse countingComponent).document.instanceScript?.map
      (fun script => (script.span, script.content)) = some (⟨4, 42⟩, ⟨12, 33⟩) := by
    decide +kernel
  obtain ⟨script, hfound, hplaces⟩ := Option.map_eq_some_iff.mp hscript
  obtain ⟨hspan, hcontent⟩ := Prod.mk.inj hplaces
  refine ⟨script, hfound, hspan, hcontent, ?_⟩
  rw [hcontent]
  decide +kernel

/-- The parser places the items of the script. -/
theorem countingComponent_places {script : ScriptBlock}
    (hscript : (Markup.parse countingComponent).document.instanceScript? = some script) :
    countingParser.PlacesItems (Text.slice countingComponent script.content) := by
  obtain ⟨own, hown, -, -, hslice⟩ := countingComponent_script
  cases hown.symm.trans hscript
  rw [hslice]
  exact countingScript_places

theorem typeComponent_code_counting :
    ∃ form, typeComponent countingParser countingComponent .default = .ok form ∧
      form.code = codeWithScript "let a;;let n; $: n = a".toList "<b/>".toList "\x7ba\x7d".toList
        "\x7b\x7d".toList (exportedClass none) := by
  have hsucceeds : (typeComponent countingParser countingComponent .default).isOk = true := by
    decide +kernel
  have hsurveyed : countingStatements.foldlM (Surface.add ⟨countingComponent, 12⟩) .empty =
      .ok ⟨⟨[("a".toList, none)]⟩, ["a".toList]⟩ := by
    decide +kernel
  have hslots : Slots.ofNodes countingComponent
      (Markup.parse countingComponent).document.nodes = .ok .empty := by
    decide +kernel
  have hcuts : markupCuts (Markup.parse countingComponent).document = [⟨42, 49⟩] := by
    decide +kernel
  obtain ⟨script, hscript, hspan, hcontent, hslice⟩ := countingComponent_script
  cases hform : typeComponent countingParser countingComponent .default with
  | error error =>
    rw [hform] at hsucceeds
    cases hsucceeds
  | ok form =>
    refine ⟨form, rfl, ?_⟩
    obtain ⟨hformSlots, hcase⟩ := typeComponent_code hform fun _ => countingComponent_places
    rw [hscript] at hcase
    obtain ⟨statements, surface, hstatements, hsurface, hexports, -, hcode⟩ := hcase
    rw [hslice] at hstatements hcode
    cases countingScript_statements.symm.trans hstatements
    rw [hcontent, hsurveyed] at hsurface
    cases hsurface
    have hempty := Except.ok.inj (hslots.symm.trans hformSlots)
    rw [hcode, hexports, hspan, hcuts, ← hempty]
    have hcode : Text.spliced countingScript (countingStatements.filterMap exportPart?)
        (declarations (countingStatements.flatMap declaredNames) countingStatements) =
          "let a;;let n; $: n = a".toList := by
      decide +kernel
    have hmarkup : Text.without countingComponent [⟨4, 42⟩, ⟨42, 49⟩] = "<b/>".toList := by
      decide +kernel
    have hprops : writtenProps ⟨[("a".toList, none)]⟩ = "\x7ba\x7d".toList := by decide +kernel
    have hwritten : Slots.written .empty = "\x7b\x7d".toList := by decide +kernel
    rw [hmarkup, hprops, hwritten]
    exact congrArg (codeWithScript · _ _ _ _) hcode

end TypedComponent.Component
