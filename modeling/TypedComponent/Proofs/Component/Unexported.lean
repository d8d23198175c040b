import TypedComponent.Proofs.Component.CutScript
import TypedComponent.Proofs.Script.Stock

/-!
What is read when the exports are cut out of a script. Its statements are to be the
ones from before, without clauses and keywords. That holds if and only if all
statements that the cuts bring together would be two statements elsewhere too: where
a clause alone kept two statements apart, nothing does so in the text that is left.
-/

namespace TypedComponent

namespace Script

/-- Whether the variables of a declaration are disposed of at the end. -/
def Tree.Declaration.isUsing : Tree.Declaration → Bool
  | .usingDeclaration => true
  | _ => false

/-- What is behind the word `export` and its blanks at the start of a text. -/
def withoutKeyword (text : Text) : Text :=
  match Text.after? "export".toList text with
  | some rest => rest.dropWhile Text.isBlank
  | none => text

namespace Phrase

/-- A declaration that is exported without its keyword. -/
def unexportedDeclaration (phrase : Phrase) (declared : Tree.Declaration) : Phrase :=
  let left := withoutKeyword phrase.text
  ofStatement left (.declaration
    (declared.mapSpans (·.shiftedBack (Text.bytes phrase.text - Text.bytes left))))

/-- What is left of a statement without its exports. -/
def unexported? (phrase : Phrase) : Option Phrase :=
  match phrase.kind with
  | .exportedNames .. | .exportedEverything => none
  | .exportedDeclaration declared =>
    some (if declared.isUsing then phrase else phrase.unexportedDeclaration declared)
  | _ => some phrase

end Phrase

namespace Layout

/-- Passages without their exports, behind a gap. Gaps are kept, and where a
clause is left out two become one. -/
def unexportedFrom (gap tail : Text) : List (Text × Phrase) → Layout
  | [] => ⟨[], gap ++ tail⟩
  | (first, phrase) :: others =>
    match phrase.unexported? with
    | none => unexportedFrom (gap ++ first) tail others
    | some left => behind [(gap ++ first, left)] (unexportedFrom [] tail others)

def unexported (layout : Layout) : Layout := unexportedFrom [] layout.tail layout.passages

end Layout

/-- What is left of a kind of statement without its exports, but for places. -/
def StatementKind.left? : StatementKind → Option StatementKind
  | .exportClause .. => none
  | .variableDeclaration _ bindings =>
    some (.variableDeclaration none (bindings.map Binding.unplaced))
  | .functionDeclaration _ name => some (.functionDeclaration none name)
  | .classDeclaration _ name => some (.classDeclaration none name)
  | .typeDeclaration _ => some (.typeDeclaration none)
  | .exportDefault => some .exportDefault
  | .labeled label assigns => some (.labeled label assigns)
  | .other => some .other

section Left

theorem Binding.unplaced_unplaced (binding : Binding) :
    binding.unplaced.unplaced = binding.unplaced := by
  cases binding <;> rfl

theorem StatementKind.left?_unplaced (kind : StatementKind) : kind.unplaced.left? = kind.left? := by
  cases kind with
  | variableDeclaration keyword bindings =>
    simp [StatementKind.unplaced, StatementKind.left?, Function.comp_def,
      Binding.unplaced_unplaced]
  | _ => rfl

/-- What is left of a declaration is the same whether it was exported or not. -/
theorem Lowering.declaration_left? (lower : Lowering) (keyword : Option Span)
    (declared : Tree.Declaration) :
    (lower.declaration keyword declared).left? =
      some (lower.declaration none declared).unplaced := by
  cases declared with
  | variableDeclaration isAmbient _ | functionDeclaration isAmbient _
  | classDeclaration isAmbient _ => cases isAmbient <;> rfl
  | _ => rfl

theorem Lowering.statement_left? (lower : Lowering) (statement : Tree.Statement) :
    (lower.statement statement).left? = some (lower.statement statement).unplaced := by
  cases statement with
  | declaration declared => exact lower.declaration_left? none declared
  | _ => rfl

theorem Phrase.left?_exportedDeclaration (phrase : Phrase) {declared : Tree.Declaration}
    (hkind : phrase.kind = .exportedDeclaration declared) :
    phrase.meaning.left? = some (if declared.isUsing then phrase
      else phrase.unexportedDeclaration declared).meaning := by
  have hown : phrase.meaning =
      (Lowering.declaration ⟨phrase.text, 0⟩ (exportKeyword? phrase.text 0) declared).unplaced := by
    rw [Phrase.meaning, hkind]
    rfl
  rw [hown, StatementKind.left?_unplaced, Lowering.declaration_left?]
  split
  · next husing =>
    rw [hown]
    cases declared <;> cases husing
    rfl
  · exact congrArg some (Lowering.declaration_unplaced _ _ rfl declared).symm

/-- What is left of a phrase means what is left of its meaning. -/
theorem Phrase.left?_meaning (phrase : Phrase) :
    phrase.meaning.left? = phrase.unexported?.map Phrase.meaning := by
  unfold Phrase.unexported?
  cases hkind : phrase.kind with
  | exportedDeclaration declared => exact phrase.left?_exportedDeclaration hkind
  | statement inner =>
    rw [Option.map_some, Phrase.meaning, hkind, StatementKind.left?_unplaced]
    exact Lowering.statement_left? _ inner
  | exportedNames | exportedEverything =>
    rw [Phrase.meaning, hkind]
    rfl
  | _ =>
    rw [Option.map_some, Phrase.meaning, hkind]
    rfl

/-- The statements that are left are those from before, without what is cut out. -/
theorem Layout.meanings_unexportedFrom (gap tail : Text) (passages : List (Text × Phrase)) :
    (unexportedFrom gap tail passages).passages.map (·.2.meaning) =
      passages.filterMap (·.2.meaning.left?) := by
  induction passages generalizing gap with
  | nil => rfl
  | cons passage others ih =>
    obtain ⟨first, phrase⟩ := passage
    rw [unexportedFrom, List.filterMap_cons, phrase.left?_meaning]
    cases phrase.unexported? with
    | none => exact ih (gap ++ first)
    | some left => exact congrArg (left.meaning :: ·) (ih [])

end Left

/-- The keyword of a text that exports a declaration, and what is behind it. -/
theorem withoutKeyword_eq {text : Text} (h : ExportsDeclaration text) (before rest : Text) :
    ∃ keyword front, exportKeyword? (before ++ text ++ rest) (Text.bytes before) = some keyword ∧
      text = front ++ withoutKeyword text ∧
        keyword = ⟨Text.bytes before, Text.bytes before + Text.bytes front⟩ := by
  obtain ⟨blanks, first, more, rfl, hblanks, hfirst⟩ := h
  have hafter : Text.after? "export".toList ("export".toList ++ (blanks ++ first :: more)) =
      some (blanks ++ first :: more) := Text.after?_append _ _
  have hsix : Text.bytes "export".toList = 6 := by decide
  refine ⟨⟨Text.bytes before, Text.bytes before + 6 + Text.bytes blanks⟩,
    "export".toList ++ blanks, ?_, ?_, ?_⟩
  · rw [List.append_assoc before, exportKeyword?_append, List.append_assoc, List.append_assoc,
      Text.after?_append, List.cons_append, Option.map_some, takeWhile_isBlank _ hblanks hfirst]
  · rw [withoutKeyword, List.append_assoc, hafter]
    dsimp only
    rw [dropWhile_isBlank _ hblanks hfirst, List.append_assoc]
  · rw [Text.bytes_append, hsix, Nat.add_assoc]

end Script

namespace Component

open Script (Layout Lowering Phrase Statement StatementKind)
open Script.Layout (behind itemsFrom unexportedFrom written)

section Text

/-- A phrase as a statement of a script that has it at a place. -/
def placed (phrase : Phrase) (before rest : Text) (base : Nat) : Statement :=
  Lowering.item ⟨before ++ phrase.text ++ rest, base⟩
    ⟨⟨base + Text.bytes before, base + Text.bytes before + Text.bytes phrase.text⟩,
      phrase.kind.mapSpans (·.shifted (base + Text.bytes before))⟩

variable {phrase : Phrase} {before rest : Text} {base : Nat}

theorem placed_eq : placed phrase before rest base =
    ⟨⟨Text.bytes before, Text.bytes before + Text.bytes phrase.text⟩,
      Lowering.kind ⟨before ++ phrase.text ++ rest, base⟩ (Text.bytes before)
        (phrase.kind.mapSpans (·.shifted (base + Text.bytes before)))⟩ := by
  have hspan : Lowering.span ⟨before ++ phrase.text ++ rest, base⟩
      ⟨base + Text.bytes before, base + Text.bytes before + Text.bytes phrase.text⟩ =
        ⟨Text.bytes before, Text.bytes before + Text.bytes phrase.text⟩ := by
    simp only [Lowering.span, Span.shiftedBack, Span.mk.injEq]
    omega
  rw [placed, Lowering.item, hspan]

theorem slice_middle (front text behind : Text) :
    Text.slice (front ++ text ++ behind) ⟨Text.bytes front, Text.bytes front + Text.bytes text⟩ =
      text :=
  Text.slice_of_append rfl rfl (by simp [Span.length])

theorem slice_of_uncut (h : exportPart? (placed phrase before rest base) = none) :
    Text.slice (before ++ phrase.text ++ rest)
        ⟨bodyStart (placed phrase before rest base), (placed phrase before rest base).span.stop⟩ =
      phrase.text := by
  rw [bodyStart, h, placed_eq]
  exact slice_middle _ _ _

theorem slice_of_clause (h : exportPart? (placed phrase before rest base) =
      some (placed phrase before rest base).span) :
    Text.slice (before ++ phrase.text ++ rest)
        ⟨bodyStart (placed phrase before rest base), (placed phrase before rest base).span.stop⟩ =
      [] := by
  rw [bodyStart, h]
  simp [Text.slice, Span.length]

theorem slice_of_declaration {declared : Script.Tree.Declaration}
    (hkind : phrase.kind = .exportedDeclaration declared)
    (h : exportPart? (placed phrase before rest base) =
      Script.exportKeyword? (before ++ phrase.text ++ rest) (Text.bytes before)) :
    Text.slice (before ++ phrase.text ++ rest)
        ⟨bodyStart (placed phrase before rest base), (placed phrase before rest base).span.stop⟩ =
      Script.withoutKeyword phrase.text := by
  obtain ⟨keyword, front, hkeyword, htext, rfl⟩ :=
    Script.withoutKeyword_eq (phrase.leads declared hkind) before rest
  rw [bodyStart, h, hkeyword, placed_eq]
  apply Text.slice_of_append (a := before ++ front) (b := rest)
  · refine (congrArg (before ++ · ++ rest) htext).trans ?_
    simp only [List.append_assoc]
  · rw [Text.bytes_append]
  · have hbytes := congrArg Text.bytes htext
    rw [Text.bytes_append] at hbytes
    simp only [Span.length]
    omega

theorem exportPart?_declaration (lower : Lowering) (keyword : Option Span)
    (declared : Script.Tree.Declaration) (span : Span) :
    exportPart? ⟨span, lower.declaration keyword declared⟩ =
      if declared.isUsing then none else keyword := by
  cases declared with
  | variableDeclaration isAmbient _ | functionDeclaration isAmbient _
  | classDeclaration isAmbient _ => cases isAmbient <;> rfl
  | _ => rfl

theorem exportPart?_statement (lower : Lowering) (statement : Script.Tree.Statement)
    (span : Span) : exportPart? ⟨span, lower.statement statement⟩ = none := by
  cases statement with
  | declaration declared =>
    refine (exportPart?_declaration lower none declared span).trans ?_
    split <;> rfl
  | _ => rfl

/-- What is left of a statement in its script is what is left of its phrase. -/
theorem slice_bodyStart (phrase : Phrase) (before rest : Text) (base : Nat) :
    Text.slice (before ++ phrase.text ++ rest)
        ⟨bodyStart (placed phrase before rest base), (placed phrase before rest base).span.stop⟩ =
      (phrase.unexported?.map Phrase.text).getD [] := by
  unfold Phrase.unexported?
  cases hkind : phrase.kind with
  | exportedDeclaration declared =>
    have hpart : exportPart? (placed phrase before rest base) = if declared.isUsing then none
        else Script.exportKeyword? (before ++ phrase.text ++ rest) (Text.bytes before) := by
      rw [placed_eq, hkind]
      refine (exportPart?_declaration _ _ _ _).trans ?_
      cases declared <;> rfl
    dsimp only [Option.map_some, Option.getD_some]
    split at hpart
    · next husing =>
      rw [if_pos husing]
      exact slice_of_uncut hpart
    · next husing =>
      rw [if_neg husing]
      exact slice_of_declaration hkind hpart
  | exportedNames specifiers source isTypeOnly =>
    refine slice_of_clause ?_
    rw [placed_eq, hkind]
    rfl
  | exportedEverything =>
    refine slice_of_clause ?_
    rw [placed_eq, hkind]
    rfl
  | statement inner =>
    refine slice_of_uncut ?_
    rw [placed_eq, hkind]
    exact exportPart?_statement _ _ _
  | _ =>
    refine slice_of_uncut ?_
    rw [placed_eq, hkind]
    rfl

/-- The text that is left of a script is the script that is left. -/
theorem unexported_text {content before tail : Text} {passages : List (Text × Phrase)}
    (hcontent : content = before ++ (written passages ++ tail)) (gap : Text) (base : Nat) :
    gap ++ unexported content (Text.bytes before)
        ((itemsFrom (base + Text.bytes before) passages).map (Lowering.item ⟨content, base⟩)) =
      (unexportedFrom gap tail passages).text := by
  induction passages generalizing gap before with
  | nil =>
    have hrest : Text.slice content ⟨Text.bytes before, Text.bytes content⟩ = tail := by
      apply Text.slice_of_append (a := before) (b := []) (by simpa using hcontent) rfl
      simp [hcontent, Span.length]
    simp only [itemsFrom, List.map_nil, unexported, hrest, unexportedFrom]
    rfl
  | cons passage others ih =>
    obtain ⟨first, phrase⟩ := passage
    have hcut : content = (before ++ first) ++ phrase.text ++ (written others ++ tail) := by
      rw [hcontent]
      simp only [Layout.written_cons, List.append_assoc]
    have hown : Lowering.item ⟨content, base⟩
        ⟨⟨base + Text.bytes before + Text.bytes first,
            base + Text.bytes before + Text.bytes first + Text.bytes phrase.text⟩,
          phrase.kind.mapSpans (·.shifted (base + Text.bytes before + Text.bytes first))⟩ =
        placed phrase (before ++ first) (written others ++ tail) base := by
      rw [placed, ← hcut, Text.bytes_append, ← Nat.add_assoc]
    have hgap : Text.slice content ⟨Text.bytes before, Text.bytes (before ++ first)⟩ = first := by
      apply Text.slice_of_append (a := before) (b := phrase.text ++ (written others ++ tail))
      · rw [hcut]
        simp only [List.append_assoc]
      · rfl
      · rw [Text.bytes_append]
        simp only [Span.length]
        omega
    have hbody := slice_bodyStart phrase (before ++ first) (written others ++ tail) base
    have hrest := fun gap => ih hcut gap
    rw [← hcut] at hbody
    simp only [Text.bytes_append, ← Nat.add_assoc] at hrest
    rw [itemsFrom, List.map_cons, hown, unexported, hbody]
    simp only [placed_eq, Text.bytes_append] at hgap ⊢
    rw [hgap, unexportedFrom]
    cases phrase.unexported? with
    | none =>
      rw [← hrest (gap ++ first)]
      simp
    | some left =>
      dsimp only
      rw [Layout.text_behind, ← hrest []]
      simp

end Text

/-- Exports are cut out of a script by itself. The text that is left is read statement
by statement if and only if the statements that the cuts bring together meet somewhere
as they do now, and then its statements are those from before without their exports. -/
theorem cutExports_code {parser : Script.Parser} {content : Text} {statements : List Statement}
    {buffer : EditBuffer} {surface : Surface}
    (hparse : parser.statements content = .ok statements)
    (hlocates : parser.Locates content) (hcross : parser.Crosses)
    (hcut : cutExports (.ofText content) statements 0 = (buffer, .ok surface)) :
    ∃ layout : Layout, layout.text = content ∧ parser.Reads layout ∧
      buffer.finish.code = layout.unexported.text ∧
      (parser.Reads layout.unexported ↔ ∀ junction ∈ layout.unexported.junctions,
        junction ∉ layout.junctions → parser.Joins junction) ∧
      (parser.Reads layout.unexported → ∃ found,
        parser.statements buffer.finish.code = .ok found ∧
          found.map (·.kind.unplaced) = statements.filterMap (·.kind.left?)) := by
  obtain ⟨layout, rfl, hreads, hmeanings⟩ := hlocates.exists_layout hparse
  obtain ⟨items, hitems, rfl⟩ := Script.Parser.statements_ok.mp hparse
  have hcode : buffer.finish.code = layout.unexported.text := by
    rw [cutExports_text (laidOut_of_placesItems hparse hlocates.places hlocates.leads) hcut]
    cases hitems.symm.trans hreads.parse
    exact unexported_text (List.nil_append _).symm [] parser.base
  refine ⟨layout, rfl, hreads, hcode, ?_, fun hleft => ?_⟩
  · rw [Script.Parser.reads_iff_joins hcross]
    refine ⟨fun h junction hmem _ => h junction hmem, fun h junction hmem => ?_⟩
    by_cases hold : junction ∈ layout.junctions
    · exact ⟨layout, hreads, hold⟩
    · exact h junction hmem hold
  · obtain ⟨found, hfound, hfoundMeanings⟩ := hleft.statements
    refine ⟨found, hcode ▸ hfound, ?_⟩
    have hkinds := congrArg (List.filterMap StatementKind.left?) hmeanings
    simp only [List.filterMap_map, Function.comp_def, StatementKind.left?_unplaced] at hkinds
    rw [hfoundMeanings, List.filterMap_map]
    refine Eq.trans ?_ hkinds.symm
    exact Layout.meanings_unexportedFrom [] layout.tail layout.passages

section Exporting

def exportedPhrase : Phrase where
  text := "export let a;".toList
  kind := .exportedDeclaration (.variableDeclaration false [⟨⟨11, 12⟩, .name "a".toList⟩])
  names_lieIn := nofun
  leads := fun _ _ => Script.exportsDeclaration_spaced (by decide) "et a;".toList

def declaredPhrase : Phrase :=
  .ofStatement "let a;".toList
    (.declaration (.variableDeclaration false [⟨⟨4, 5⟩, .name "a".toList⟩]))

def clausePhrase : Phrase where
  text := "export\x7ba\x7d;".toList
  kind := .exportedNames [.named ⟨7, 8⟩ (.identifier "a".toList) none false] none false
  names_lieIn := by
    intro specifiers source isTypeOnly _ part hpart
    cases List.mem_singleton.mp hpart
    exact ⟨by decide, by decide, by decide⟩
  leads := nofun

def usedPhrase : Phrase := .ofStatement "a;".toList (.expression (.name "a".toList))

def exportingStock : Script.Stock where
  phrases := [exportedPhrase, declaredPhrase, clausePhrase, usedPhrase]
  starts := by
    simp only [List.mem_cons, List.not_mem_nil, or_false]
    rintro phrase (rfl | rfl | rfl | rfl) <;> exact ⟨_, _, rfl, by decide, by decide⟩
  apart := by
    simp only [List.mem_cons, List.not_mem_nil, or_false]
    rintro phrase (rfl | rfl | rfl | rfl) other (rfl | rfl | rfl | rfl) rest h <;>
      first | rfl | cases h

/-- A script with an exported declaration, a clause and another statement. -/
def exportingLayout : Layout :=
  ⟨[([], exportedPhrase), (" ".toList, clausePhrase), (" ".toList, usedPhrase)], []⟩

def exportingItems : List Script.Tree.Item :=
  [⟨⟨1, 14⟩, .exportedDeclaration (.variableDeclaration false [⟨⟨12, 13⟩, .name "a".toList⟩])⟩,
    ⟨⟨15, 25⟩, .exportedNames [.named ⟨22, 23⟩ (.identifier "a".toList) none false] none false⟩,
    ⟨⟨26, 28⟩, .statement (.expression (.name "a".toList))⟩]

def exportingStatements : List Statement :=
  [⟨⟨0, 13⟩, .variableDeclaration (some ⟨0, 7⟩) [.name "a".toList]⟩,
    ⟨⟨14, 24⟩, .exportClause false false [⟨⟨21, 22⟩, .identifier "a".toList, none, false⟩]⟩,
    ⟨⟨25, 27⟩, .other⟩]

theorem exportingLayout_reads : (exportingStock.parser 1).Reads exportingLayout :=
  Script.Stock.reads_iff.mpr ⟨by decide, by simp [exportingLayout, exportingStock], rfl⟩

theorem leftLayout_reads : (exportingStock.parser 1).Reads exportingLayout.unexported := by
  have hleft : exportingLayout.unexported =
      ⟨[([], declaredPhrase), ("  ".toList, usedPhrase)], []⟩ := rfl
  rw [hleft]
  exact Script.Stock.reads_iff.mpr ⟨by decide, by simp [exportingStock], rfl⟩

theorem exportingLayout_parse :
    (exportingStock.parser 1).parse exportingLayout.text = .ok exportingItems :=
  exportingLayout_reads.parse

theorem exportingLayout_located : (exportingStock.parser 1).Locates exportingLayout.text := by
  have hparse := exportingLayout_parse
  have hbase : (exportingStock.parser 1).base = 1 := rfl
  refine ⟨exportingLayout_reads.unmarked,
    Script.Parser.placesItems_of_parse hparse ?_ (by simp [exportingItems]),
    Script.Parser.leadsExports_of_parse hparse ?_,
    Script.Parser.nestsParts_of_parse hparse (by simp [exportingItems, hbase]) ?_ ?_⟩ <;>
    simp only [exportingItems, List.mem_cons, List.not_mem_nil, or_false]
  · rintro item (rfl | rfl | rfl) <;> exact ⟨by decide, by decide, by decide⟩
  · rintro item (rfl | rfl | rfl) declared hkind <;> cases hkind
    exact exportedPhrase.leads _ rfl
  all_goals
    rintro item (rfl | rfl | rfl) part hpart <;> cases hpart <;> try contradiction
    all_goals exact ⟨by decide, by decide, by decide⟩

theorem cutExports_code_exporting : ∃ buffer surface,
    cutExports (.ofText exportingLayout.text) exportingStatements 0 = (buffer, .ok surface) ∧
      ∃ found, (exportingStock.parser 1).statements buffer.finish.code = .ok found ∧
        found.map (·.kind.unplaced) =
          [.variableDeclaration none [.name "a".toList], .other] := by
  have hparse : (exportingStock.parser 1).statements exportingLayout.text =
      .ok exportingStatements :=
    Script.Parser.statements_ok.mpr ⟨_, exportingLayout_parse, by decide +kernel⟩
  have hsucceeds :
      (cutExports (.ofText exportingLayout.text) exportingStatements 0).2.isOk = true := by
    decide +kernel
  cases hcut : cutExports (.ofText exportingLayout.text) exportingStatements 0 with
  | mk buffer outcome =>
    rw [hcut] at hsucceeds
    cases outcome with
    | error error => cases hsucceeds
    | ok surface =>
      obtain ⟨layout, htext, hreads, -, -, hleft⟩ := cutExports_code hparse
        exportingLayout_located (exportingStock.crosses 1) hcut
      cases hreads.unique exportingLayout_reads htext
      exact ⟨buffer, surface, rfl, hleft leftLayout_reads⟩

end Exporting

section Joined

/-- A script with a clause between an expression and parentheses. -/
def joinedScript : Text := "let b = a\nexport \x7b b \x7d;(c)".toList

def joinedItems : List Script.Tree.Item :=
  [⟨⟨1, 10⟩, .statement (.declaration
      (.variableDeclaration false [⟨⟨5, 6⟩, .name "b".toList⟩]))⟩,
    ⟨⟨11, 24⟩, .exportedNames [.named ⟨20, 21⟩ (.identifier "b".toList) none false] none false⟩,
    ⟨⟨24, 27⟩, .statement (.expression .other)⟩]

def joinedStatements : List Statement :=
  [⟨⟨0, 9⟩, .variableDeclaration none [.name "b".toList]⟩,
    ⟨⟨10, 23⟩, .exportClause false false [⟨⟨19, 20⟩, .identifier "b".toList, none, false⟩]⟩,
    ⟨⟨23, 26⟩, .other⟩]

/-- The parser that has the script and what is left of it, where a value is called. -/
def joinedParser : Script.Parser :=
  .ofTable 1 [(joinedScript, joinedItems),
    ("let b = a\n(c)".toList, [⟨⟨1, 14⟩, .statement (.declaration
      (.variableDeclaration false [⟨⟨5, 6⟩, .name "b".toList⟩]))⟩])]

/-- A clause that stands between statements may be all that keeps them apart. -/
theorem statements_run_together :
    ¬ ∀ (content : Text) (statements : List Statement) (buffer : EditBuffer) (surface : Surface),
      joinedParser.statements content = .ok statements →
      cutExports (.ofText content) statements 0 = (buffer, .ok surface) →
      ∃ found, joinedParser.statements buffer.finish.code = .ok found ∧
        found.map (·.kind.unplaced) = statements.filterMap (·.kind.left?) := by
  intro h
  have hparse : joinedParser.statements joinedScript = .ok joinedStatements := by decide +kernel
  have hsucceeds : (cutExports (.ofText joinedScript) joinedStatements 0).2.isOk = true := by
    decide +kernel
  have hcode : (cutExports (.ofText joinedScript) joinedStatements 0).1.finish.code =
      "let b = a\n(c)".toList := by
    decide +kernel
  have hjoined : joinedParser.statements "let b = a\n(c)".toList =
      .ok [⟨⟨0, 13⟩, .variableDeclaration none [.name "b".toList]⟩] := by
    decide +kernel
  cases hcut : cutExports (.ofText joinedScript) joinedStatements 0 with
  | mk buffer outcome =>
    rw [hcut] at hsucceeds hcode
    cases outcome with
    | error error => cases hsucceeds
    | ok surface =>
      obtain ⟨found, hfound, hsame⟩ := h _ _ buffer surface hparse hcut
      rw [hcode, hjoined] at hfound
      cases hfound
      simp [joinedStatements, StatementKind.left?] at hsame

end Joined

end Component

end TypedComponent
