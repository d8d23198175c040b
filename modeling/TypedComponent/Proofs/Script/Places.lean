import TypedComponent.Script.Lower
import TypedComponent.Proofs.Text.Cells

/-!
Where the statements of a script are. What a parser promises about the places
in its tree is what holds of the statements: they lie in the script one after
another, and the keyword of an export is at the start of its statement, whatever
the parser.
-/

namespace TypedComponent.Script

/-- The span of the export keyword of a declaration. -/
def StatementKind.keyword? : StatementKind → Option Span
  | .variableDeclaration keyword _ | .functionDeclaration keyword _
  | .classDeclaration keyword _ | .typeDeclaration keyword => keyword
  | .exportClause .. | .exportDefault | .labeled .. | .other => none

/-- The spans of the patterns of a variable statement, or of the names of an
export clause. -/
def StatementKind.parts : StatementKind → List Span
  | .variableDeclaration _ bindings => bindings.filterMap Binding.patternSpan?
  | .exportClause _ _ specifiers => specifiers.map ExportSpecifier.span
  | .functionDeclaration .. | .classDeclaration .. | .exportDefault | .typeDeclaration _
  | .labeled .. | .other => []

section Keyword

/-- The word `export` begins at an offset, and the span covers it with all
blanks after it. -/
def KeywordAt (content : Text) (start : Nat) (keyword : Span) : Prop :=
  ∃ before blanks rest, content = before ++ "export".toList ++ blanks ++ rest ∧
    Text.bytes before = start ∧ keyword = ⟨start, start + 6 + Text.bytes blanks⟩ ∧
    (∀ c ∈ blanks, Text.isBlank c = true) ∧ ∀ c ∈ rest.head?, Text.isBlank c = false

/-- Where a text is cut, the keyword is looked for at the start of the second
part. -/
theorem exportKeyword?_append (before after : Text) :
    exportKeyword? (before ++ after) (Text.bytes before) =
      (Text.after? "export".toList after).map fun rest =>
        ⟨Text.bytes before, Text.bytes before + 6 + Text.bytes (rest.takeWhile Text.isBlank)⟩ := by
  have hplace : Text.isBoundary (before ++ after) (Text.bytes before) = true :=
    Text.isBoundary_iff.mpr ⟨before, after, rfl, rfl⟩
  unfold exportKeyword?
  rw [Text.dropBytes_append, hplace]
  cases Text.after? "export".toList after <;> rfl

theorem exportKeyword?_eq_none {content : Text} {start : Nat}
    (h : Text.isBoundary content start = false) : exportKeyword? content start = none := by
  unfold exportKeyword?
  rw [h]
  cases Text.after? "export".toList (Text.dropBytes content start) <;> rfl

theorem exportKeyword?_spec {content : Text} {start : Nat} {keyword : Span}
    (h : exportKeyword? content start = some keyword) : KeywordAt content start keyword := by
  cases hplace : Text.isBoundary content start with
  | false =>
    rw [exportKeyword?_eq_none hplace] at h
    cases h
  | true =>
    obtain ⟨before, after, rfl, rfl⟩ := Text.isBoundary_iff.mp hplace
    rw [exportKeyword?_append] at h
    obtain ⟨rest, hafter, rfl⟩ := Option.map_eq_some_iff.mp h
    have hword := Text.eq_append_of_after? hafter
    refine ⟨before, rest.takeWhile Text.isBlank, rest.dropWhile Text.isBlank, ?_, rfl, rfl,
      ?_, ?_⟩
    · rw [List.append_assoc, List.takeWhile_append_dropWhile, List.append_assoc, hword]
    · exact fun c hc => List.all_eq_true.mp List.all_takeWhile c hc
    · intro c hc
      have hhead := List.head?_dropWhile_not Text.isBlank rest
      rw [Option.mem_def.mp hc] at hhead
      simpa using hhead

theorem KeywordAt.stop_le {content : Text} {start : Nat} {keyword : Span}
    (h : KeywordAt content start keyword) : keyword.stop ≤ Text.bytes content := by
  obtain ⟨before, blanks, rest, rfl, rfl, rfl, -, -⟩ := h
  have hsix : Text.bytes "export".toList = 6 := by decide
  rw [Text.bytes_append, Text.bytes_append, Text.bytes_append, hsix]
  exact Nat.le_add_right _ _

/-- A text that is a declaration behind the word `export` and blanks. -/
def ExportsDeclaration (text : Text) : Prop :=
  ∃ blanks first rest, text = "export".toList ++ blanks ++ first :: rest ∧
    (∀ c ∈ blanks, Text.isBlank c = true) ∧ Text.isBlank first = false

/-- A declaration behind the word and one space. -/
theorem exportsDeclaration_spaced {first : Char} (hfirst : Text.isBlank first = false)
    (rest : Text) : ExportsDeclaration ("export".toList ++ [' '] ++ first :: rest) :=
  ⟨[' '], first, rest, rfl, List.forall_mem_singleton.mpr (by decide), hfirst⟩

theorem takeWhile_isBlank {blanks : Text} {first : Char} (rest : Text)
    (hblanks : ∀ c ∈ blanks, Text.isBlank c = true) (hfirst : Text.isBlank first = false) :
    (blanks ++ first :: rest).takeWhile Text.isBlank = blanks := by
  rw [List.takeWhile_append_of_pos hblanks, List.takeWhile_cons_of_neg (by simp [hfirst]),
    List.append_nil]

theorem dropWhile_isBlank {blanks : Text} {first : Char} (rest : Text)
    (hblanks : ∀ c ∈ blanks, Text.isBlank c = true) (hfirst : Text.isBlank first = false) :
    (blanks ++ first :: rest).dropWhile Text.isBlank = first :: rest := by
  rw [List.dropWhile_append_of_pos hblanks, List.dropWhile_cons_of_neg (by simp [hfirst])]

/-- The keyword of what is exported ends before the declaration. -/
theorem ExportsDeclaration.keyword_lt {content : Text} {span keyword : Span}
    (h : ExportsDeclaration (Text.slice content span)) (hspan : span.LiesIn content)
    (hkeyword : exportKeyword? content span.start = some keyword) :
    keyword.stop < span.stop := by
  obtain ⟨before, behind, hcontent, hbefore, hbytes⟩ :=
    Text.exists_slice span hspan.start_place hspan.stop_place hspan.start_le
  obtain ⟨blanks, first, rest, htext, hblanks, hfirst⟩ := h
  have hle := hspan.start_le
  have hpos := first.utf8Size_pos
  have hsix : Text.bytes "export".toList = 6 := by decide
  rw [htext, Text.bytes_append, Text.bytes_append, Text.bytes_cons, hsix, Span.length] at hbytes
  rw [hcontent, htext, ← hbefore, List.append_assoc, exportKeyword?_append] at hkeyword
  simp only [List.append_assoc, List.cons_append, Text.after?_append, Option.map_some,
    Option.some.injEq] at hkeyword
  rw [takeWhile_isBlank _ hblanks hfirst] at hkeyword
  rw [← hkeyword]
  dsimp only
  omega

end Keyword

section Lowering

variable (lower : Lowering)

theorem Lowering.declaration_keyword? (keyword : Option Span) (declaration : Tree.Declaration) :
    (lower.declaration keyword declaration).keyword? = none ∨
      (lower.declaration keyword declaration).keyword? = keyword := by
  cases declaration with
  | variableDeclaration isAmbient _ | functionDeclaration isAmbient _
  | classDeclaration isAmbient _ => cases isAmbient <;> exact .inr rfl
  | usingDeclaration => exact .inl rfl
  | _ => exact .inr rfl

theorem Lowering.statement_keyword? (statement : Tree.Statement) :
    (lower.statement statement).keyword? = none := by
  cases statement with
  | declaration declaration => exact or_self_iff.mp (lower.declaration_keyword? none declaration)
  | _ => rfl

/-- Only an exported declaration has a keyword, which is looked for where its
item begins. -/
theorem Lowering.kind_keyword? {start : Nat} {kind : Tree.ItemKind} {keyword : Span}
    (h : (lower.kind start kind).keyword? = some keyword) :
    (∃ declaration, kind = .exportedDeclaration declaration) ∧
      exportKeyword? lower.content start = some keyword := by
  cases kind with
  | exportedDeclaration declaration =>
    refine ⟨⟨declaration, rfl⟩, ?_⟩
    rcases lower.declaration_keyword? (exportKeyword? lower.content start) declaration with
      hnone | hsame
    · exact nomatch h.symm.trans hnone
    · exact hsame.symm.trans h
  | statement statement => exact nomatch h.symm.trans (lower.statement_keyword? statement)
  | _ => cases h

end Lowering

namespace Tree

/-- The spans of the targets of a declaration. -/
def Declaration.parts : Declaration → List Span
  | .variableDeclaration _ declarators => declarators.map Declarator.span
  | _ => []

def Statement.parts : Statement → List Span
  | .declaration declared => declared.parts
  | .labeled _ body => body.parts
  | .expression _ | .other => []

def ExportName.parts : ExportName → List Span
  | .identifier _ => []
  | .string span => [span]

def ExportSpecifier.parts : ExportSpecifier → List Span
  | .named span original exported _ =>
    span :: (original.parts ++ exported.toList.flatMap ExportName.parts)
  | .everything | .byDefault => []

/-- All spans in an item but its own. -/
def ItemKind.parts : ItemKind → List Span
  | .exportedDeclaration declaration => declaration.parts
  | .exportedNames specifiers .. => specifiers.flatMap ExportSpecifier.parts
  | .statement inner => inner.parts
  | _ => []

end Tree

section Parts

variable (lower : Lowering)

theorem Lowering.binding_patternSpan? {declarator : Tree.Declarator} {span : Span}
    (h : (lower.binding declarator).patternSpan? = some span) :
    span = lower.span declarator.span := by
  unfold Lowering.binding at h
  split at h <;> cases h
  rfl

theorem Lowering.declaration_parts {keyword : Option Span} {declaration : Tree.Declaration}
    {part : Span} (h : part ∈ (lower.declaration keyword declaration).parts) :
    ∃ positions ∈ declaration.parts, part = lower.span positions := by
  cases declaration with
  | variableDeclaration isAmbient declarators =>
    cases isAmbient with
    | true => cases h
    | false =>
      obtain ⟨binding, hbinding, hspan⟩ := List.mem_filterMap.mp h
      obtain ⟨declarator, hdeclarator, rfl⟩ := List.mem_map.mp hbinding
      exact ⟨_, List.mem_map_of_mem hdeclarator, lower.binding_patternSpan? hspan⟩
  | functionDeclaration isAmbient name | classDeclaration isAmbient name =>
    cases isAmbient <;> cases h
  | _ => cases h

/-- The parts of a statement are parts of its item. -/
theorem Lowering.kind_parts {start : Nat} {kind : Tree.ItemKind} {part : Span}
    (h : part ∈ (lower.kind start kind).parts) :
    ∃ positions ∈ kind.parts, part = lower.span positions := by
  cases kind with
  | exportedDeclaration declaration => exact lower.declaration_parts h
  | exportedNames specifiers source isTypeOnly =>
    obtain ⟨found, hfound, rfl⟩ := List.mem_map.mp h
    obtain ⟨specifier, hspecifier, hnamed⟩ := List.mem_filterMap.mp hfound
    cases specifier with
    | named span original exported isTypeOnly =>
      cases hnamed
      exact ⟨span, List.mem_flatMap.mpr ⟨_, hspecifier, List.mem_cons_self⟩, rfl⟩
    | everything | byDefault => cases hnamed
  | statement statement =>
    cases statement with
    | declaration declaration => exact lower.declaration_parts h
    | _ => cases h
  | _ => cases h

end Parts

namespace Parser

section Promises

variable (parser : Parser) (content : Text)

/-- The offsets that the positions of a tree stand for. -/
def place (positions : Span) : Span := positions.shiftedBack parser.base

/-- The items of a script lie in it one after another. -/
structure PlacesItems : Prop where
  liesIn : ∀ items, parser.parse content = .ok items →
    ∀ item ∈ items, (parser.place item.span).LiesIn content
  ordered : ∀ items, parser.parse content = .ok items →
    items.Pairwise fun first second => first.span.stop ≤ second.span.start

/-- An exported declaration begins with the word `export`. -/
def LeadsExports : Prop :=
  ∀ items, parser.parse content = .ok items → ∀ item ∈ items,
    ∀ declaration, item.kind = .exportedDeclaration declaration →
      ExportsDeclaration (Text.slice content (parser.place item.span))

/-- The targets of a declaration and the names of an export clause are parts of
their items. Positions are not smaller than that of the first byte. -/
structure NestsParts : Prop where
  item_start : ∀ items, parser.parse content = .ok items → ∀ item ∈ items,
    parser.base ≤ item.span.start ∧ item.span.start < item.span.stop
  part_within : ∀ items, parser.parse content = .ok items → ∀ item ∈ items,
    ∀ part ∈ item.kind.parts, item.span.start ≤ part.start ∧ part.start < part.stop ∧
      part.stop ≤ item.span.stop
  part_liesIn : ∀ items, parser.parse content = .ok items → ∀ item ∈ items,
    ∀ part ∈ item.kind.parts, (parser.place part).LiesIn content

end Promises

variable {parser : Parser} {content : Text} {statements : List Statement}

theorem statements_ok :
    parser.statements content = .ok statements ↔ ∃ items, parser.parse content = .ok items ∧
      items.map (Lowering.item ⟨content, parser.base⟩) = statements := by
  unfold Parser.statements
  cases parser.parse content with
  | error error => simp [Except.map]
  | ok items => simp [Except.map]

theorem statements_error {error : SyntaxError} :
    parser.statements content = .error error ↔ parser.parse content = .error error := by
  unfold Parser.statements
  cases parser.parse content <;> simp [Except.map]

section Statements

variable (h : parser.statements content = .ok statements)

include h

/-- Every statement comes from an item of the tree. -/
theorem exists_item {statement : Statement} (hmem : statement ∈ statements) :
    ∃ items, parser.parse content = .ok items ∧ ∃ item ∈ items,
      statement.span = parser.place item.span ∧
        statement.kind = Lowering.kind ⟨content, parser.base⟩ statement.span.start item.kind := by
  obtain ⟨items, hparse, rfl⟩ := statements_ok.mp h
  obtain ⟨item, hitem, rfl⟩ := List.mem_map.mp hmem
  exact ⟨items, hparse, item, hitem, rfl, rfl⟩

/-- The keyword of every statement of a script is the word at its start. -/
theorem statements_keyword {statement : Statement} (hmem : statement ∈ statements) {keyword : Span}
    (hkeyword : statement.kind.keyword? = some keyword) :
    KeywordAt content statement.span.start keyword := by
  obtain ⟨items, -, item, -, -, hkind⟩ := exists_item h hmem
  rw [hkind] at hkeyword
  exact exportKeyword?_spec (Lowering.kind_keyword? _ hkeyword).2

theorem PlacesItems.statement_liesIn (hplaces : parser.PlacesItems content)
    {statement : Statement} (hmem : statement ∈ statements) : statement.span.LiesIn content := by
  obtain ⟨items, hparse, item, hitem, hspan, -⟩ := exists_item h hmem
  rw [hspan]
  exact hplaces.liesIn items hparse item hitem

theorem PlacesItems.statements_ordered (hplaces : parser.PlacesItems content) :
    statements.Pairwise fun first second => first.span.stop ≤ second.span.start := by
  obtain ⟨items, hparse, rfl⟩ := statements_ok.mp h
  exact List.pairwise_map.mpr ((hplaces.ordered items hparse).imp fun hbefore =>
    Nat.sub_le_sub_right hbefore _)

theorem LeadsExports.keyword_le (hleads : parser.LeadsExports content)
    (hplaces : parser.PlacesItems content) {statement : Statement} (hmem : statement ∈ statements)
    {keyword : Span} (hkeyword : statement.kind.keyword? = some keyword) :
    keyword.stop ≤ statement.span.stop := by
  obtain ⟨items, hparse, item, hitem, hspan, hkind⟩ := exists_item h hmem
  rw [hkind] at hkeyword
  obtain ⟨⟨declaration, hexported⟩, hfound⟩ := Lowering.kind_keyword? _ hkeyword
  have hdeclares := hleads items hparse item hitem declaration hexported
  rw [hspan] at hfound ⊢
  exact Nat.le_of_lt (hdeclares.keyword_lt (hplaces.liesIn items hparse item hitem) hfound)

/-- What a statement is told to consist of begins in it. -/
theorem NestsParts.part_start_lt (hnests : parser.NestsParts content) {statement : Statement}
    (hmem : statement ∈ statements) {part : Span} (hpart : part ∈ statement.kind.parts) :
    part.start < statement.span.stop := by
  obtain ⟨items, hparse, item, hitem, hspan, hkind⟩ := exists_item h hmem
  rw [hkind] at hpart
  obtain ⟨positions, hpositions, rfl⟩ := Lowering.kind_parts _ hpart
  obtain ⟨hstart, hlt, hstop⟩ := hnests.part_within items hparse item hitem positions hpositions
  have hbase := (hnests.item_start items hparse item hitem).1
  rw [hspan]
  simp only [Lowering.span, Parser.place, Span.shiftedBack]
  omega

theorem NestsParts.statement_start_lt (hnests : parser.NestsParts content)
    {statement : Statement} (hmem : statement ∈ statements) :
    statement.span.start < statement.span.stop := by
  obtain ⟨items, hparse, item, hitem, hspan, -⟩ := exists_item h hmem
  obtain ⟨hbase, hlt⟩ := hnests.item_start items hparse item hitem
  rw [hspan]
  simp only [Parser.place, Span.shiftedBack]
  omega

end Statements

section Known

/-- The parser that has the trees of some scripts and takes no other text for a
script. -/
def ofTable (base : Nat) (trees : List (Text × List Tree.Item)) : Parser where
  base := base
  parse content := match trees.lookup content with
    | some items => .ok items
    | none => .error ⟨"Unexpected token".toList, base⟩

theorem placesItems_of_parse {items : List Tree.Item} (hparse : parser.parse content = .ok items)
    (hlies : ∀ item ∈ items, (parser.place item.span).LiesIn content)
    (hordered : items.Pairwise fun first second => first.span.stop ≤ second.span.start) :
    parser.PlacesItems content where
  liesIn := fun others hothers => by
    cases hparse.symm.trans hothers
    exact hlies
  ordered := fun others hothers => by
    cases hparse.symm.trans hothers
    exact hordered

theorem leadsExports_of_parse {items : List Tree.Item} (hparse : parser.parse content = .ok items)
    (hdeclares : ∀ item ∈ items, ∀ declaration, item.kind = .exportedDeclaration declaration →
      ExportsDeclaration (Text.slice content (parser.place item.span))) :
    parser.LeadsExports content := fun others hothers => by
  cases hparse.symm.trans hothers
  exact hdeclares

theorem nestsParts_of_parse {items : List Tree.Item} (hparse : parser.parse content = .ok items)
    (hstart : ∀ item ∈ items,
      parser.base ≤ item.span.start ∧ item.span.start < item.span.stop)
    (hwithin : ∀ item ∈ items, ∀ part ∈ item.kind.parts, item.span.start ≤ part.start ∧
      part.start < part.stop ∧ part.stop ≤ item.span.stop)
    (hlies : ∀ item ∈ items, ∀ part ∈ item.kind.parts, (parser.place part).LiesIn content) :
    parser.NestsParts content where
  item_start := fun others hothers => by
    cases hparse.symm.trans hothers
    exact hstart
  part_within := fun others hothers => by
    cases hparse.symm.trans hothers
    exact hwithin
  part_liesIn := fun others hothers => by
    cases hparse.symm.trans hothers
    exact hlies

end Known

end Parser

end TypedComponent.Script
