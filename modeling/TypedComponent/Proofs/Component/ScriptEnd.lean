import TypedComponent.Proofs.Component.ScriptFirst
import TypedComponent.Proofs.Script.Separator

/-!
The end of the script in the typed form. The semicolon behind the script ends it,
whatever the markup behind it is, unless the script ends in a comment or in a string
that is not closed. A comment on the last line of a script is such an end: the line
that it takes up is the one with the semicolon.
-/

namespace TypedComponent.Component

open Markup (Document ScriptBlock)
open Script (Layout Phrase Statement StatementKind semicolon)

/-- The text of a script in the typed form. -/
def emittedScript (source : Text) (script : ScriptBlock) (statements : List Statement) : Text :=
  Text.spliced (Text.slice source script.content) (statements.filterMap exportPart?)
    (declarations (statements.flatMap declaredNames) statements)

/-- A separator is behind every script that has a typed form. If a semicolon is left
behind the script, then the script, the separator and another script, whose beginning
can be behind an empty statement, are read as the statements of both scripts, with at
most one empty statement between them. -/
theorem typeComponent_separator {parser : Script.Parser} {source : Text} {options : Options}
    {form : TypedForm} {script : ScriptBlock}
    (h : typeComponent parser source options = .ok form)
    (hscript : (Markup.parse source).document.instanceScript? = some script)
    (hcross : parser.Crosses) (htakes : parser.TakesSemicolons) :
    ∃ statements rest,
      parser.statements (Text.slice source script.content) = .ok statements ∧
        form.code = "<></>;function render() \x7b\n".toList ++
          emittedScript source script statements ++ Script.separator ++ "<>".toList ++ rest ∧
        ∀ own t others, parser.statements (emittedScript source script statements) = .ok own →
          parser.Locates (emittedScript source script statements) →
          parser.LeavesSemicolons (emittedScript source script statements) →
          parser.statements t = .ok others → parser.Locates t →
          parser.FollowsSemicolons t →
          ∃ found, parser.statements
              (emittedScript source script statements ++ Script.separator ++ t) = .ok found ∧
            (found.map (·.kind.unplaced) =
                own.map (·.kind.unplaced) ++ others.map (·.kind.unplaced) ∨
              found.map (·.kind.unplaced) =
                own.map (·.kind.unplaced) ++ .other :: others.map (·.kind.unplaced)) := by
  obtain ⟨herrors, hassemble⟩ := typeComponent_ok h
  obtain ⟨-, edits, buffer, hframing, hedits, hcode⟩ := assemble_ok hassemble
  have hrecords : buffer.Records source (componentEdits (Markup.parse source).document edits
      (exportedClass (options.filename.map nameOfPath))) := hedits
  rw [hscript] at hframing
  obtain ⟨statements, surface, hparse, hsurface, -, rfl⟩ := hframing
  have hmem := List.mem_of_find?_eq_some hscript
  have hclosed : script.content.stop < script.span.stop :=
    (Markup.parse_separated source hmem).2.2.closed.resolve_right fun hne => hne herrors
  obtain ⟨rest, hrest⟩ := closed_text (Markup.parse_scripts source hmem)
    (markupCuts_apart source hmem) hclosed hrecords
  have hseparator : fragmentOpening = Script.separator ++ "<>".toList := by decide
  refine ⟨statements, rest, hparse, ?_, ?_⟩
  · rw [hcode.trans hrecords.pieces_agree.text, hrest, opening_eq, hseparator,
      Surface.declared_of_foldlM hsurface, emittedScript]
    simp only [List.append_assoc]
  · intro own t others hown hownLocates hleaves hothers hothersLocates hfollows
    obtain ⟨layout, hlayout, hreads, hmeanings⟩ := hownLocates.exists_layout hown
    obtain ⟨other, rfl, hotherReads, hotherMeanings⟩ := hothersLocates.exists_layout hothers
    rw [← hlayout] at hleaves ⊢
    rw [hmeanings, hotherMeanings]
    exact hleaves.statements hcross htakes hreads hotherReads hfollows

/-- A script of one statement. -/
def briefComponent : Text := "<script>a;</script>".toList

def briefPhrase : Phrase := .ofStatement "a;".toList (.expression (.name "a".toList))

def briefStock : Script.Stock where
  phrases := [briefPhrase, semicolon]
  starts := by
    simp only [List.mem_cons, List.not_mem_nil, or_false]
    rintro phrase (rfl | rfl) <;> exact ⟨_, _, rfl, by decide, by decide⟩
  apart := by
    simp only [List.mem_cons, List.not_mem_nil, or_false]
    rintro phrase (rfl | rfl) other (rfl | rfl) rest h <;> first | rfl | cases h

def briefItems : List Script.Tree.Item := [⟨⟨1, 3⟩, .statement (.expression (.name "a".toList))⟩]

theorem briefScript_reads : (briefStock.parser 1).Reads ⟨[([], briefPhrase)], []⟩ :=
  Script.Stock.reads_iff.mpr ⟨by decide, by simp [briefStock], rfl⟩

theorem briefScript_located : (briefStock.parser 1).Locates "a;".toList := by
  have hparse : (briefStock.parser 1).parse "a;".toList = .ok briefItems := briefScript_reads.parse
  have hbase : (briefStock.parser 1).base = 1 := rfl
  refine ⟨briefScript_reads.unmarked,
    Script.Parser.placesItems_of_parse hparse ?_ (by simp [briefItems]),
    Script.Parser.leadsExports_of_parse hparse (by simp [briefItems]),
    Script.Parser.nestsParts_of_parse hparse (by simp [briefItems, hbase]) ?_ ?_⟩
  · intro item hitem
    cases List.mem_singleton.mp hitem
    exact ⟨by decide, by decide, by decide⟩
  all_goals
    intro item hitem part hpart
    cases List.mem_singleton.mp hitem
    cases hpart

theorem briefScript_leaves : (briefStock.parser 1).LeavesSemicolons "a;".toList :=
  ⟨[([], briefPhrase), ([], semicolon)], by decide,
    Script.Stock.reads_iff.mpr ⟨by decide, by simp [briefStock], rfl⟩⟩

theorem typeComponent_separator_brief :
    ∃ form, typeComponent (briefStock.parser 1) briefComponent .default = .ok form ∧
      (∃ rest, form.code = "<></>;function render() \x7b\na;;\n<>".toList ++ rest) ∧
        ∃ found, (briefStock.parser 1).statements "a;;\na;".toList = .ok found ∧
          (found.map (·.kind.unplaced) = [.other, .other] ∨
            found.map (·.kind.unplaced) = [.other, .other, .other]) := by
  have hsucceeds : (typeComponent (briefStock.parser 1) briefComponent .default).isOk = true := by
    decide +kernel
  have hscript : (Markup.parse briefComponent).document.instanceScript?.map
      (·.content) = some ⟨8, 10⟩ := by decide +kernel
  have hslice : Text.slice briefComponent ⟨8, 10⟩ = "a;".toList := by decide +kernel
  have hparse : (briefStock.parser 1).statements "a;".toList = .ok [⟨⟨0, 2⟩, .other⟩] :=
    Script.Parser.statements_ok.mpr ⟨_, briefScript_reads.parse, by decide +kernel⟩
  cases hform : typeComponent (briefStock.parser 1) briefComponent .default with
  | error error =>
    rw [hform] at hsucceeds
    cases hsucceeds
  | ok form =>
    obtain ⟨script, hfound, hcontent⟩ := Option.map_eq_some_iff.mp hscript
    obtain ⟨statements, rest, hstatements, hcode, hseparated⟩ :=
      typeComponent_separator hform hfound (briefStock.crosses 1)
        (Script.Stock.takesSemicolons (by simp [briefStock]) 1)
    rw [hcontent, hslice, hparse] at hstatements
    cases hstatements
    have hemitted : emittedScript briefComponent script [⟨⟨0, 2⟩, .other⟩] = "a;".toList := by
      rw [emittedScript, hcontent, hslice]
      decide +kernel
    rw [hemitted] at hcode hseparated
    refine ⟨form, rfl, ⟨rest, ?_⟩, hseparated _ _ _ hparse briefScript_located briefScript_leaves
      hparse briefScript_located (Script.Stock.followsSemicolons (by simp [briefStock]) 1 _)⟩
    rw [hcode]
    exact congrArg (· ++ rest) (by decide)

/-- A script with a comment on its last line. -/
def commentedComponent : Text := "<script>let a = b // c</script>".toList

/-- A declaration of `a` at the start of a script. -/
def commentedItem (stop : Nat) : Script.Tree.Item :=
  ⟨⟨1, stop⟩, .statement (.declaration
    (.variableDeclaration false [⟨⟨5, 6⟩, .name "a".toList⟩]))⟩

/-- The parser that has the script and a call, and both as one with a separator between
them. There the value is what is called. -/
def commentedParser : Script.Parser :=
  .ofTable 1 [("let a = b // c".toList, [commentedItem 10]),
    ("(d)".toList, [⟨⟨1, 4⟩, .statement (.expression .other)⟩]),
    ("let a = b // c;\n(d)".toList, [commentedItem 20])]

/-- The comment takes the semicolon in, and the statement in front of it goes on
behind it. -/
theorem separator_in_comment :
    ¬ ∀ (source : Text) (options : Options) (form : TypedForm) (script : ScriptBlock)
      (statements own others : List Statement) (t : Text),
      typeComponent commentedParser source options = .ok form →
      (Markup.parse source).document.instanceScript? = some script →
      commentedParser.statements (Text.slice source script.content) = .ok statements →
      commentedParser.statements (emittedScript source script statements) = .ok own →
      commentedParser.statements t = .ok others →
      ∃ found, commentedParser.statements
          (emittedScript source script statements ++ Script.separator ++ t) = .ok found ∧
        (found.map (·.kind.unplaced) =
            own.map (·.kind.unplaced) ++ others.map (·.kind.unplaced) ∨
          found.map (·.kind.unplaced) =
            own.map (·.kind.unplaced) ++ .other :: others.map (·.kind.unplaced)) := by
  intro h
  have hsucceeds : (typeComponent commentedParser commentedComponent .default).isOk = true := by
    decide +kernel
  have hscript : (Markup.parse commentedComponent).document.instanceScript?.map
      (·.content) = some ⟨8, 22⟩ := by decide +kernel
  have hparse : commentedParser.statements (Text.slice commentedComponent ⟨8, 22⟩) =
      .ok [⟨⟨0, 9⟩, .variableDeclaration none [.name "a".toList]⟩] := by decide +kernel
  have hown : commentedParser.statements "let a = b // c".toList =
      .ok [⟨⟨0, 9⟩, .variableDeclaration none [.name "a".toList]⟩] := by decide +kernel
  have hother : commentedParser.statements "(d)".toList = .ok [⟨⟨0, 3⟩, .other⟩] := by
    decide +kernel
  have hjoined : commentedParser.statements "let a = b // c;\n(d)".toList =
      .ok [⟨⟨0, 19⟩, .variableDeclaration none [.name "a".toList]⟩] := by decide +kernel
  cases hform : typeComponent commentedParser commentedComponent .default with
  | error error =>
    rw [hform] at hsucceeds
    cases hsucceeds
  | ok form =>
    obtain ⟨script, hfound, hcontent⟩ := Option.map_eq_some_iff.mp hscript
    have hemitted : emittedScript commentedComponent script
        [⟨⟨0, 9⟩, .variableDeclaration none [.name "a".toList]⟩] = "let a = b // c".toList := by
      rw [emittedScript, hcontent]
      decide +kernel
    obtain ⟨found, hparsed, hkinds⟩ := h commentedComponent .default form script _ _ _ "(d)".toList
      hform hfound (by rw [hcontent, hparse]) (by rw [hemitted, hown]) hother
    have hsame : emittedScript commentedComponent script
        [⟨⟨0, 9⟩, .variableDeclaration none [.name "a".toList]⟩] ++ Script.separator ++
          "(d)".toList = "let a = b // c;\n(d)".toList := by
      rw [hemitted]
      decide
    rw [hsame, hjoined] at hparsed
    cases hparsed
    simp [StatementKind.unplaced] at hkinds

end TypedComponent.Component
