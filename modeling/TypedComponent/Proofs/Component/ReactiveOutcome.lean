import TypedComponent.Proofs.Component.CutScript
import TypedComponent.Proofs.Component.Outcome
import TypedComponent.Proofs.Component.Registry

/-!
What declaring reactive names leaves of a script whose exports have been cut out.
The script may begin anywhere in a source, and its statements need not come from a
parser: it is enough that they lie in the source one after another. Each name that
a reactive statement assigns is then declared once, by the script itself or in
front of the first statement that assigns it.
-/

namespace TypedComponent

namespace Script

def Binding.shifted (start : Nat) : Binding → Binding
  | .name own => .name own
  | .pattern span names => .pattern (span.shifted start) names

def ExportSpecifier.shifted (start : Nat) (specifier : ExportSpecifier) : ExportSpecifier :=
  { specifier with span := specifier.span.shifted start }

def StatementKind.shifted (start : Nat) : StatementKind → StatementKind
  | .variableDeclaration keyword bindings =>
    .variableDeclaration (keyword.map (·.shifted start)) (bindings.map (Binding.shifted start))
  | .functionDeclaration keyword name => .functionDeclaration (keyword.map (·.shifted start)) name
  | .classDeclaration keyword name => .classDeclaration (keyword.map (·.shifted start)) name
  | .exportClause fromSource typeOnly specifiers =>
    .exportClause fromSource typeOnly (specifiers.map (ExportSpecifier.shifted start))
  | .exportDefault => .exportDefault
  | .typeDeclaration keyword => .typeDeclaration (keyword.map (·.shifted start))
  | .labeled label assigns => .labeled label assigns
  | .other => .other

/-- A statement by its places in a source in which its script begins at an offset. -/
def Statement.shifted (start : Nat) (statement : Statement) : Statement :=
  ⟨statement.span.shifted start, statement.kind.shifted start⟩

end Script

namespace Component

open Script (Statement)

section Shifted

variable (start : Nat)

theorem exportPart?_shifted (statement : Statement) :
    exportPart? (statement.shifted start) =
      (exportPart? statement).map (·.shifted start) := by
  obtain ⟨span, kind⟩ := statement
  cases kind <;> rfl

theorem reactiveTarget?_shifted (statement : Statement) :
    reactiveTarget? (statement.shifted start) = reactiveTarget? statement := by
  obtain ⟨span, kind⟩ := statement
  cases kind <;> rfl

theorem filterMap_reactiveTarget?_shifted (statements : List Statement) :
    (statements.map (Statement.shifted start)).filterMap reactiveTarget? =
      statements.filterMap reactiveTarget? := by
  rw [List.filterMap_map]
  exact List.filterMap_congr fun statement _ => reactiveTarget?_shifted start statement

theorem exportCuts_shifted (statements : List Statement) :
    exportCuts start statements =
      ((statements.map (Statement.shifted start)).filterMap exportPart?).map Edit.remove := by
  have hparts : (statements.map (Statement.shifted start)).filterMap exportPart? =
      (statements.filterMap exportPart?).map (·.shifted start) := by
    rw [List.filterMap_map, List.map_filterMap]
    exact List.filterMap_congr fun statement _ => exportPart?_shifted start statement
  rw [hparts, List.map_map]
  rfl

theorem implicitDeclarations_shifted (declared : List Text) (statements : List Statement) :
    implicitDeclarations declared (statements.map (Statement.shifted start)) =
      (implicitDeclarations declared statements).map fun found => (found.1 + start, found.2) := by
  induction statements generalizing declared with
  | nil => rfl
  | cons statement rest ih =>
    rw [List.map_cons, implicitDeclarations, implicitDeclarations, reactiveTarget?_shifted]
    cases reactiveTarget? statement with
    | none => exact ih declared
    | some name =>
      dsimp only
      split
      · exact ih declared
      · rw [ih, List.map_cons]
        rfl

end Shifted

section Interspersed

/-- A script from an offset on, as `unexported` has it, with a text in front of
each statement, which may depend on the statements before. -/
def interspersed (content : Text) (ahead : List Statement → Statement → Text) :
    List Statement → Nat → List Statement → Text
  | _, offset, [] => Text.slice content ⟨offset, Text.bytes content⟩
  | earlier, offset, statement :: rest =>
    Text.slice content ⟨offset, statement.span.start⟩ ++ ahead earlier statement ++
      Text.slice content ⟨bodyStart statement, statement.span.stop⟩ ++
        interspersed content ahead (earlier ++ [statement]) statement.span.stop rest

theorem interspersed_nothing (content : Text) (earlier : List Statement) (offset : Nat)
    (statements : List Statement) :
    interspersed content (fun _ _ => []) earlier offset statements =
      unexported content offset statements := by
  induction statements generalizing earlier offset with
  | nil => rfl
  | cons statement rest ih => rw [interspersed, ih, unexported, List.append_nil]

/-- A character with the texts that go in front of it, unless it is cut out. -/
def splicedCell (spans : List Span) (placed : List (Nat × Text)) (cell : Cell) : Text :=
  textsAt placed cell.offset ++ if spans.any (·.contains cell.offset) then [] else [cell.char]

/-- Where nothing is put, what is not cut out is left. -/
theorem flatMap_splicedCell {spans : List Span} {placed : List (Nat × Text)} {cells : List Cell}
    (h : ∀ cell ∈ cells, textsAt placed cell.offset = []) :
    cells.flatMap (splicedCell spans placed) =
      (cells.filter fun cell => !spans.any (·.contains cell.offset)).map Cell.char := by
  rw [← flatMap_ite_eq_filter]
  apply List.flatMap_congr
  intro cell hcell
  rw [splicedCell, h cell hcell, List.nil_append]

/-- A text that goes to the beginning of a stretch comes before what is left of it. -/
theorem flatMap_splicedCell_first {text : Text} {stretch : Span} {spans : List Span}
    {placed : List (Nat × Text)} (hstart : Text.isBoundary text stretch.start = true)
    (hstop : Text.isBoundary text stretch.stop = true) (hlt : stretch.start < stretch.stop)
    (hnone : ∀ offset, stretch.start < offset → offset < stretch.stop →
      textsAt placed offset = []) :
    (Text.cellsIn text stretch).flatMap (splicedCell spans placed) =
      textsAt placed stretch.start ++ ((Text.cellsIn text stretch).filter
        fun cell => !spans.any (·.contains cell.offset)).map Cell.char := by
  obtain ⟨c, rest, hslice, -⟩ := Text.exists_first hstart hstop hlt
  have hcells : Text.cellsIn text stretch =
      ⟨stretch.start, c⟩ :: Text.cellsFrom (stretch.start + c.utf8Size) rest := by
    rw [Text.cellsIn, hslice, Text.cellsFrom]
  have hlater : ∀ cell ∈ Text.cellsFrom (stretch.start + c.utf8Size) rest,
      textsAt placed cell.offset = [] := by
    intro cell hcell
    apply hnone cell.offset (Text.offset_gt_of_mem_cellsFrom hcell)
    have hmem : cell ∈ Text.cellsIn text stretch := by
      rw [hcells]
      exact List.mem_cons_of_mem _ hcell
    exact (Text.offset_of_mem_cellsIn hstart hstop (Nat.le_of_lt hlt) hmem).2
  rw [hcells, List.flatMap_cons, flatMap_splicedCell hlater, List.filter_cons, splicedCell]
  cases spans.any (·.contains stretch.start) <;> simp

section First

variable {content : Text} {statement : Statement} {rest : List Statement} {offset : Nat}
  {placed : List (Nat × Text)}

/-- In front of the first statement, where no text goes, everything is left. -/
theorem flatMap_splicedCell_before (h : LaidOut content (statement :: rest))
    (hplace : Text.isBoundary content offset = true) (hle : offset ≤ statement.span.start)
    (hnone : ∀ place, offset ≤ place → place < statement.span.start →
      textsAt placed place = []) :
    (Text.cellsIn content ⟨offset, statement.span.start⟩).flatMap
        (splicedCell ((statement :: rest).filterMap exportPart?) placed) =
      Text.slice content ⟨offset, statement.span.start⟩ := by
  have hspan := h.liesIn statement List.mem_cons_self
  have hcells {cell : Cell} (hcell : cell ∈ Text.cellsIn content ⟨offset, statement.span.start⟩) :
      offset ≤ cell.offset ∧ cell.offset < statement.span.start :=
    Text.offset_of_mem_cellsIn hplace hspan.start_place hle hcell
  rw [flatMap_splicedCell, Text.filter_kept fun cell hcell => any_before h (hcells hcell).2]
  intro cell hcell
  exact hnone cell.offset (hcells hcell).1 (hcells hcell).2

/-- Of the first statement its body is left, behind the text that goes to its
beginning. -/
theorem flatMap_splicedCell_own (h : LaidOut content (statement :: rest))
    (hlt : statement.span.start < statement.span.stop)
    (hnone : ∀ place, statement.span.start < place → place < statement.span.stop →
      textsAt placed place = []) :
    (Text.cellsIn content statement.span).flatMap
        (splicedCell ((statement :: rest).filterMap exportPart?) placed) =
      textsAt placed statement.span.start ++
        Text.slice content ⟨bodyStart statement, statement.span.stop⟩ := by
  have hspan := h.liesIn statement List.mem_cons_self
  rw [flatMap_splicedCell_first hspan.start_place hspan.stop_place hlt hnone]
  exact congrArg (textsAt placed statement.span.start ++ ·) (filter_statement h)

/-- Behind the first statement nothing of it is left to be cut out. -/
theorem flatMap_splicedCell_behind (h : LaidOut content (statement :: rest)) :
    (Text.cellsIn content ⟨statement.span.stop, Text.bytes content⟩).flatMap
        (splicedCell ((statement :: rest).filterMap exportPart?) placed) =
      (Text.cellsIn content ⟨statement.span.stop, Text.bytes content⟩).flatMap
        (splicedCell (rest.filterMap exportPart?) placed) := by
  have hspan := h.liesIn statement List.mem_cons_self
  have hlast := Text.le_bytes_of_isBoundary hspan.stop_place
  apply List.flatMap_congr
  intro cell hcell
  rw [splicedCell, splicedCell, any_behind h (Text.offset_of_mem_cellsIn hspan.stop_place
    (Text.isBoundary_bytes content) hlast hcell).1]

end First

/-- Cutting out the parts of all statements and putting texts in front of them
leaves each of them its body behind the text, if there is something of each. -/
theorem flatMap_splicedCell_interspersed {content : Text} {statements : List Statement}
    (h : LaidOut content statements) (hlt : ∀ s ∈ statements, s.span.start < s.span.stop)
    {placed : List (Nat × Text)} {ahead : List Statement → Statement → Text}
    {earlier : List Statement} {offset : Nat} (hplace : Text.isBoundary content offset = true)
    (hoffset : ∀ s ∈ statements, offset ≤ s.span.start)
    (hplaced : ∀ found ∈ placed, offset ≤ found.1 → ∃ s ∈ statements, found.1 = s.span.start)
    (hahead : ∀ front s rest, statements = front ++ s :: rest →
      textsAt placed s.span.start = ahead (earlier ++ front) s) :
    (Text.cellsIn content ⟨offset, Text.bytes content⟩).flatMap
        (splicedCell (statements.filterMap exportPart?) placed) =
      interspersed content ahead earlier offset statements := by
  induction statements generalizing earlier offset with
  | nil =>
    rw [flatMap_splicedCell, Text.filter_kept fun _ _ => rfl]
    · rfl
    · intro cell hcell
      have hfrom := (Text.offset_of_mem_cellsIn hplace (Text.isBoundary_bytes content)
        (Text.le_bytes_of_isBoundary hplace) hcell).1
      apply textsAt_eq_nil
      intro found hfound heq
      obtain ⟨s, hs, -⟩ := hplaced found hfound (by omega)
      cases hs
  | cons statement rest ih =>
    have hspan := h.liesIn statement List.mem_cons_self
    have hbefore := hoffset statement List.mem_cons_self
    have hsome := hlt statement List.mem_cons_self
    have hlast := Text.le_bytes_of_isBoundary hspan.stop_place
    have hend := Text.isBoundary_bytes content
    -- no text goes to a place between the beginnings of statements
    have hnone (place : Nat) (hfrom : offset ≤ place) (hstart : place ≠ statement.span.start)
        (hstop : place < statement.span.stop) : textsAt placed place = [] := by
      apply textsAt_eq_nil
      rintro found hfound rfl
      obtain ⟨s, hs, heq⟩ := hplaced found hfound hfrom
      rcases List.mem_cons.mp hs with rfl | hlater
      · exact hstart heq
      · have hbehind := List.rel_of_pairwise_cons h.ordered hlater
        omega
    have hrest : (Text.cellsIn content ⟨statement.span.stop, Text.bytes content⟩).flatMap
        (splicedCell (rest.filterMap exportPart?) placed) =
          interspersed content ahead (earlier ++ [statement]) statement.span.stop rest := by
      apply ih (h.sublist (List.sublist_cons_self _ _))
        (fun s hs => hlt s (List.mem_cons_of_mem _ hs)) hspan.stop_place
        fun s hs => List.rel_of_pairwise_cons h.ordered hs
      · intro found hfound hfrom
        obtain ⟨s, hs, heq⟩ := hplaced found hfound (by omega)
        rcases List.mem_cons.mp hs with rfl | hlater
        · omega
        · exact ⟨s, hlater, heq⟩
      · intro front s behind hsplit
        rw [hahead (statement :: front) s behind (by rw [hsplit, List.cons_append]),
          List.append_assoc, List.singleton_append]
    have hfront := flatMap_splicedCell_before h hplace hbefore fun place hfrom hupto =>
      hnone place hfrom (by omega) (by omega)
    have hown := flatMap_splicedCell_own h hsome fun place hfrom hupto =>
      hnone place (by omega) (by omega) hupto
    rw [hahead [] statement rest rfl, List.append_nil] at hown
    rw [← Text.cellsIn_append hplace hspan.start_place hend hbefore (by omega),
      ← Text.cellsIn_append hspan.start_place hspan.stop_place hend hspan.start_le hlast,
      List.flatMap_append, List.flatMap_append, hfront, hown, flatMap_splicedCell_behind h, hrest,
      interspersed]
    simp only [List.append_assoc]

end Interspersed

section Declarations

/-- What goes in front of a statement: a declaration of the name that it assigns,
if it is a reactive statement and that name is not declared, neither by the script
nor in front of an earlier statement. -/
def declarationAhead (declared : List Text) (earlier : List Statement) (statement : Statement) :
    Text :=
  match reactiveTarget? statement with
  | none => []
  | some name =>
    if name ∈ declared ∨ name ∈ earlier.filterMap reactiveTarget? then [] else declarationOf name

/-- The declarations of reactive names, by their places. -/
def placedDeclarations (declared : List Text) (statements : List Statement) : List (Nat × Text) :=
  (implicitDeclarations declared statements).map fun found => (found.1, declarationOf found.2)

theorem placedDeclarations_mem {declared : List Text} {statements : List Statement}
    {found : Nat × Text} (h : found ∈ placedDeclarations declared statements) :
    ∃ s ∈ statements, found.1 = s.span.start := by
  obtain ⟨first, hfirst, rfl⟩ := List.mem_map.mp h
  rw [implicitDeclarations_eq] at hfirst
  obtain ⟨s, hs, hplace⟩ := firstAssignments_mem hfirst
  exact ⟨s, hs, hplace⟩

/-- A name that the script declares need not be declared again for an earlier
statement that assigns it. -/
theorem declarationAhead_declared {declared : List Text} {first : Statement} {own : Text}
    (hfirst : reactiveTarget? first = some own) (hdeclared : own ∈ declared)
    (front : List Statement) (statement : Statement) :
    declarationAhead declared (first :: front) statement =
      declarationAhead declared front statement := by
  have hsame (name : Text) : (name ∈ declared ∨ name ∈ own :: front.filterMap reactiveTarget?) ↔
      (name ∈ declared ∨ name ∈ front.filterMap reactiveTarget?) := by
    rw [List.mem_cons]
    constructor
    · rintro (h | rfl | h)
      exacts [.inl h, .inl hdeclared, .inr h]
    · rintro (h | h)
      exacts [.inl h, .inr (.inr h)]
  unfold declarationAhead
  rw [List.filterMap_cons_some hfirst]
  simp only [hsame]

/-- The first statement that assigns a name is as good as a declaration of it. -/
theorem declarationAhead_assigned {declared : List Text} {first : Statement} {own : Text}
    (hfirst : reactiveTarget? first = some own) (front : List Statement) (statement : Statement) :
    declarationAhead declared (first :: front) statement =
      declarationAhead (own :: declared) front statement := by
  have hsame (name : Text) : (name ∈ declared ∨ name ∈ own :: front.filterMap reactiveTarget?) ↔
      (name ∈ own :: declared ∨ name ∈ front.filterMap reactiveTarget?) := by
    rw [List.mem_cons, List.mem_cons]
    tauto
  unfold declarationAhead
  rw [List.filterMap_cons_some hfirst]
  simp only [hsame]

/-- A declaration goes in front of the first statement that assigns its name. -/
theorem textsAt_placedDeclarations {declared : List Text} {front rest : List Statement}
    {statement : Statement}
    (hplaces : (front ++ statement :: rest).Pairwise fun first second =>
      first.span.start < second.span.start) :
    textsAt (placedDeclarations declared (front ++ statement :: rest)) statement.span.start =
      declarationAhead declared front statement := by
  induction front generalizing declared with
  | nil =>
    have hlater (known : List Text) :
        textsAt (placedDeclarations known rest) statement.span.start = [] := by
      apply textsAt_eq_nil
      intro found hfound heq
      obtain ⟨s, hs, hplace⟩ := placedDeclarations_mem hfound
      have hbehind := List.rel_of_pairwise_cons hplaces hs
      omega
    rw [List.nil_append, placedDeclarations, implicitDeclarations, declarationAhead]
    cases reactiveTarget? statement with
    | none => exact hlater declared
    | some name =>
      dsimp only
      by_cases hdeclared : name ∈ declared
      · rw [if_pos hdeclared, if_pos (.inl hdeclared)]
        exact hlater declared
      · rw [if_neg hdeclared, if_neg (by simpa using hdeclared), List.map_cons]
        have hnone := hlater (name :: declared)
        rw [placedDeclarations] at hnone
        rw [← List.singleton_append, textsAt_append, hnone, List.append_nil]
        simp [textsAt]
  | cons first front ih =>
    have hbefore : first.span.start < statement.span.start :=
      List.rel_of_pairwise_cons hplaces (by simp)
    have hrest (known : List Text) :
        textsAt (placedDeclarations known (front ++ statement :: rest)) statement.span.start =
          declarationAhead known front statement := ih hplaces.of_cons
    rw [List.cons_append, placedDeclarations, implicitDeclarations]
    cases hfirst : reactiveTarget? first with
    | none =>
      have hsame : declarationAhead declared (first :: front) statement =
          declarationAhead declared front statement := by
        unfold declarationAhead
        rw [List.filterMap_cons_none hfirst]
      rw [hsame]
      exact hrest declared
    | some own =>
      dsimp only
      by_cases hdeclared : own ∈ declared
      · rw [if_pos hdeclared, declarationAhead_declared hfirst hdeclared]
        exact hrest declared
      · have hother : textsAt [(first.span.start, declarationOf own)] statement.span.start = [] :=
          textsAt_eq_nil fun found hfound => by
            rw [List.mem_singleton.mp hfound]
            exact Nat.ne_of_lt hbefore
        rw [if_neg hdeclared, List.map_cons, ← List.singleton_append, textsAt_append, hother,
          List.nil_append, declarationAhead_assigned hfirst]
        exact hrest (own :: declared)

end Declarations

section Edits

variable {source : Text} {statements : List Statement}

/-- The edits that cut out the exports of placed statements and declare names in
front of them. -/
def scriptSplices (declared : List Text) (statements : List Statement) : List Edit :=
  (statements.filterMap exportPart?).map Edit.remove ++
    (placedDeclarations declared statements).map fun found => .insertBefore found.1 found.2

theorem removed_scriptSplices (declared : List Text) (statements : List Statement) :
    (scriptSplices declared statements).filterMap Edit.removed? =
      statements.filterMap exportPart? := by
  simp [scriptSplices, List.filterMap_map, Function.comp_def, Edit.removed?]

theorem placed_scriptSplices (declared : List Text) (statements : List Statement) :
    (scriptSplices declared statements).filterMap Edit.placed? =
      placedDeclarations declared statements := by
  simp [scriptSplices, List.filterMap_map, Function.comp_def, Edit.placed?]

theorem mem_scriptSplices {declared : List Text} {edit : Edit}
    (h : edit ∈ scriptSplices declared statements) :
    (∃ part ∈ statements.filterMap exportPart?, edit = .remove part) ∨
      ∃ found ∈ placedDeclarations declared statements,
        edit = .insertBefore found.1 found.2 := by
  rcases List.mem_append.mp h with hcut | hdeclared
  · obtain ⟨part, hpart, rfl⟩ := List.mem_map.mp hcut
    exact .inl ⟨part, hpart, rfl⟩
  · obtain ⟨found, hfound, rfl⟩ := List.mem_map.mp hdeclared
    exact .inr ⟨found, hfound, rfl⟩

theorem scriptSplices_splice (declared : List Text) :
    ∀ edit ∈ scriptSplices declared statements, edit.Splices := by
  intro edit hedit
  rcases mem_scriptSplices hedit with ⟨part, -, rfl⟩ | ⟨found, -, rfl⟩ <;> exact True.intro

variable (h : LaidOut source statements)

include h

theorem scriptSplices_fit (declared : List Text) :
    ∀ edit ∈ scriptSplices declared statements, edit.Fits source := by
  intro edit hedit
  rcases mem_scriptSplices hedit with ⟨part, hpart, rfl⟩ | ⟨found, hfound, rfl⟩
  · obtain ⟨statement, hmem, hcut⟩ := List.mem_filterMap.mp hpart
    obtain ⟨hstart, hstop, hle⟩ := h.part_liesIn statement hmem part hcut
    exact ⟨hstart, hstop, hle⟩
  · obtain ⟨statement, hmem, hplace⟩ := placedDeclarations_mem hfound
    rw [Edit.Fits, hplace]
    exact (h.liesIn statement hmem).start_place

theorem scriptSplices_getAlong (declared : List Text) :
    (scriptSplices declared statements).Pairwise Edit.GetsAlong := by
  have hstretches : ((scriptSplices declared statements).filterMap Edit.stretch?).Pairwise
      Span.Apart := by
    have hlist : (scriptSplices declared statements).filterMap Edit.stretch? =
        statements.filterMap exportPart? ++
          (placedDeclarations declared statements).map fun found => ⟨found.1, found.1⟩ := by
      simp [scriptSplices, List.filterMap_map, Function.comp_def, Edit.stretch?]
    rw [hlist, List.pairwise_append, List.pairwise_map]
    refine ⟨h.parts_apart, ?_, ?_⟩
    · refine List.pairwise_of_forall fun first second => ?_
      unfold Span.Apart
      dsimp only
      omega
    · intro part hpart place hplace
      obtain ⟨found, hfound, rfl⟩ := List.mem_map.mp hplace
      obtain ⟨statement, hmem, heq⟩ := placedDeclarations_mem hfound
      rw [heq]
      exact h.part_apart_start hpart hmem
  rw [List.pairwise_filterMap] at hstretches
  refine hstretches.imp_of_mem fun hfirst hsecond hclear => ?_
  have hstays {edit : Edit} (hedit : edit ∈ scriptSplices declared statements) :
      edit.relocation? = none := by
    rcases mem_scriptSplices hedit with ⟨part, -, rfl⟩ | ⟨found, -, rfl⟩ <;> rfl
  exact Edit.getsAlong_of_apart (hstays hfirst) (hstays hsecond) hclear

theorem takes_scriptSplices (declared : List Text) :
    (EditBuffer.ofText source).Takes (scriptSplices declared statements) :=
  EditBuffer.takes_of_getsAlong (scriptSplices_fit h declared) (scriptSplices_getAlong h declared)

/-- The text of a script that all these edits have been made to. -/
theorem code_of_scriptSplices (hlt : ∀ s ∈ statements, s.span.start < s.span.stop)
    {declared : List Text} {buffer : EditBuffer}
    (hrecords : buffer.Records source (scriptSplices declared statements)) :
    buffer.finish.code = interspersed source (declarationAhead declared) [] 0 statements := by
  have hcode : buffer.finish.code = _ := hrecords.pieces_agree.text
  have hplaces : statements.Pairwise fun first second =>
      first.span.start < second.span.start := by
    refine h.ordered.imp_of_mem fun hfirst hsecond hbefore => ?_
    have hpos := hlt _ hfirst
    omega
  have hend : textsAt (placedDeclarations declared statements) (Text.bytes source) = [] := by
    apply textsAt_eq_nil
    intro found hfound heq
    obtain ⟨s, hs, hplace⟩ := placedDeclarations_mem hfound
    have hpos := hlt s hs
    have hlast := Text.le_bytes_of_isBoundary (h.liesIn s hs).stop_place
    omega
  have hcells : (Text.cellsIn source ⟨0, Text.bytes source⟩).flatMap
      (splicedCell (statements.filterMap exportPart?) (placedDeclarations declared statements)) =
        interspersed source (declarationAhead declared) [] 0 statements := by
    apply flatMap_splicedCell_interspersed h hlt (Text.isBoundary_zero source)
    · exact fun _ _ => Nat.zero_le _
    · exact fun found hfound _ => placedDeclarations_mem hfound
    · rintro front s rest rfl
      exact textsAt_placedDeclarations hplaces
  rw [Text.cellsIn_whole] at hcells
  rw [hcode, Cellwise.spliced_text source (scriptSplices_splice declared),
    removed_scriptSplices, placed_scriptSplices, Text.spliced, hend, List.append_nil, ← hcells]
  rfl

/-- The text of a script of which only the exports have been cut out. -/
theorem code_of_cuts {buffer : EditBuffer}
    (hrecords : buffer.Records source ((statements.filterMap exportPart?).map Edit.remove)) :
    buffer.finish.code = interspersed source (fun _ _ => []) [] 0 statements := by
  have hcode : buffer.finish.code = _ := hrecords.pieces_agree.text
  rw [hcode, Cellwise.removed_text, Text.without, ← Text.cellsIn_whole, interspersed_nothing]
  exact filter_exportPart? h (Text.isBoundary_zero source) fun _ _ => Nat.zero_le _

end Edits

/-- The edits of both passes over a script are those of its placed statements. -/
theorem scriptSplices_shifted (start : Nat) (declared : List Text) (statements : List Statement) :
    scriptSplices declared (statements.map (Statement.shifted start)) =
      exportCuts start statements ++ reactiveDeclarations start declared statements := by
  have hdeclarations : (placedDeclarations declared (statements.map (Statement.shifted start))).map
      (fun found => Edit.insertBefore found.1 found.2) =
        reactiveDeclarations start declared statements := by
    rw [placedDeclarations, implicitDeclarations_shifted, reactiveDeclarations,
      ← implicitDeclarations_eq, List.map_map, List.map_map]
    rfl
  rw [scriptSplices, hdeclarations, exportCuts_shifted]

theorem names_firstAssignments (declared : List Text) (statements : List Statement) :
    (firstAssignments declared statements).map Prod.snd =
      ((statements.filterMap reactiveTarget?).filter (· ∉ declared)).eraseDups := by
  rw [firstAssignments, List.map_filterMap]
  have hfirst : ∀ name ∈ ((statements.filterMap reactiveTarget?).filter (· ∉ declared)).eraseDups,
      (firstAssignment statements name).map Prod.snd = some name := by
    intro name hname
    obtain ⟨htarget, -⟩ := List.mem_filter.mp (List.mem_eraseDups.mp hname)
    obtain ⟨statement, hmem, hassigns⟩ := List.mem_filterMap.mp htarget
    have hsome : (statements.find? fun s => reactiveTarget? s = some name).isSome = true := by
      rw [List.find?_isSome]
      exact ⟨statement, hmem, by simpa using hassigns⟩
    obtain ⟨first, hfound⟩ := Option.isSome_iff_exists.mp hsome
    rw [firstAssignment, hfound]
    rfl
  rw [List.filterMap_congr hfirst, List.filterMap_some]

/-- What declaring reactive names comes to, behind a pass that has cut out the
exports: which names are injected, and the text before and after. -/
structure Declares (source : Text) (statements : List Statement) (declared injected : List Text)
    (before after : EditBuffer) : Prop where
  nodup : injected.Nodup
  mem_iff : ∀ name, name ∈ injected ↔
    name ∉ declared ∧ ∃ s ∈ statements, reactiveTarget? s = some name
  /-- In the order of the first statements that assign them. -/
  injected_eq : injected =
    ((statements.filterMap reactiveTarget?).filter (· ∉ declared)).eraseDups
  declared_once : ∀ s ∈ statements, ∀ name ∈ reactiveTarget? s,
    (name ∈ declared ∧ name ∉ injected) ∨ (name ∉ declared ∧ injected.count name = 1)
  code_before : before.finish.code = interspersed source (fun _ _ => []) [] 0 statements
  code_after : after.finish.code =
    interspersed source (declarationAhead declared) [] 0 statements

/-- Behind a pass that has cut the exports out of a script, the reactive names that
nothing declares are declared, and each of them once: in front of the first
statement that assigns it, and nothing else is changed. -/
theorem declareReactive_outcome {source : Text} {start : Nat} {statements : List Statement}
    {cut : EditBuffer} {surface : Surface}
    (h : LaidOut source (statements.map (Statement.shifted start)))
    (hlt : ∀ s ∈ statements, s.span.start < s.span.stop)
    (hcut : cutExports (.ofText source) statements start = (cut, .ok surface)) :
    ∃ last injected,
      declareReactive cut surface.declared statements start = (last, .ok injected) ∧
        Declares source (statements.map (Statement.shifted start)) surface.declared injected
          cut last := by
  have hltShifted : ∀ s ∈ statements.map (Statement.shifted start), s.span.start < s.span.stop := by
    intro s hs
    obtain ⟨own, hown, rfl⟩ := List.mem_map.mp hs
    exact Nat.add_lt_add_right (hlt own hown) start
  obtain ⟨hcutRecords, hsurface⟩ := cutExports_records (EditBuffer.ofText_records source) hcut
  rw [List.nil_append] at hcutRecords
  -- both passes together are accepted, so the second is accepted behind the first
  have htakes := takes_scriptSplices h surface.declared
  rw [scriptSplices_shifted] at htakes
  obtain ⟨between, hbetween⟩ := htakes.front
  have hsame : cut = between :=
    congrArg Prod.fst (hcut.symm.trans (cutExports_ok hsurface hbetween))
  subst hsame
  obtain ⟨last, hlast⟩ := htakes.rest hbetween
  have hrecords := EditBuffer.applyUntil_records hcutRecords hlast
  rw [← scriptSplices_shifted] at hrecords
  rw [exportCuts_shifted] at hcutRecords
  refine ⟨last, _, declareReactive_ok hlast, ?_⟩
  rw [names_firstAssignments, ← filterMap_reactiveTarget?_shifted start]
  have hmem (name : Text) :
      name ∈ (((statements.map (Statement.shifted start)).filterMap reactiveTarget?).filter
          (· ∉ surface.declared)).eraseDups ↔
        name ∉ surface.declared ∧
          ∃ s ∈ statements.map (Statement.shifted start), reactiveTarget? s = some name := by
    rw [List.mem_eraseDups, List.mem_filter, decide_eq_true_iff, List.mem_filterMap, and_comm]
  have hnodup := Registry.nodup_eraseDups
    (((statements.map (Statement.shifted start)).filterMap reactiveTarget?).filter
      (· ∉ surface.declared))
  exact {
    nodup := hnodup
    mem_iff := hmem
    injected_eq := rfl
    declared_once := by
      intro s hs name hname
      by_cases hdeclared : name ∈ surface.declared
      · exact .inl ⟨hdeclared, fun hin => ((hmem name).mp hin).1 hdeclared⟩
      · exact .inr ⟨hdeclared,
          List.count_eq_one_of_mem hnodup ((hmem name).mpr ⟨hdeclared, s, hs, hname⟩)⟩
    code_before := code_of_cuts h hcutRecords
    code_after := code_of_scriptSplices h hltShifted hrecords }

/-- A script behind two characters. Two names are assigned by reactive statements
only, one of them twice and for the first time right behind an export. -/
def reactiveScript : Text := "# $: c = b;let b;export \x7bb\x7d;$: a = c;$: a = b;".toList

def reactiveStatements : List Statement :=
  [⟨⟨0, 9⟩, .labeled reactiveLabel (some "c".toList)⟩,
    ⟨⟨9, 15⟩, .variableDeclaration none [.name "b".toList]⟩,
    ⟨⟨15, 26⟩, .exportClause false false [⟨⟨23, 24⟩, .identifier "b".toList, none, false⟩]⟩,
    ⟨⟨26, 35⟩, .labeled reactiveLabel (some "a".toList)⟩,
    ⟨⟨35, 44⟩, .labeled reactiveLabel (some "a".toList)⟩]

theorem reactiveStatements_laidOut :
    LaidOut reactiveScript (reactiveStatements.map (Statement.shifted 2)) where
  liesIn := by
    simp only [reactiveStatements, List.map_cons, List.map_nil, List.mem_cons, List.not_mem_nil,
      or_false]
    rintro s (rfl | rfl | rfl | rfl | rfl) <;>
      exact ⟨by decide +kernel, by decide +kernel, by decide⟩
  ordered := by simp [reactiveStatements, Statement.shifted, Span.shifted]
  part_liesIn := by
    simp only [reactiveStatements, List.map_cons, List.map_nil, List.mem_cons, List.not_mem_nil,
      or_false]
    rintro s (rfl | rfl | rfl | rfl | rfl) part hpart <;> cases hpart
    exact ⟨by decide +kernel, by decide +kernel, by decide⟩
  part_start := by
    simp only [reactiveStatements, List.map_cons, List.map_nil, List.mem_cons, List.not_mem_nil,
      or_false]
    rintro s (rfl | rfl | rfl | rfl | rfl) part hpart <;> cases hpart
    rfl
  part_stop := by
    simp only [reactiveStatements, List.map_cons, List.map_nil, List.mem_cons, List.not_mem_nil,
      or_false]
    rintro s (rfl | rfl | rfl | rfl | rfl) part hpart <;> cases hpart
    exact Nat.le_refl _

theorem declareReactive_outcome_script :
    LaidOut reactiveScript (reactiveStatements.map (Statement.shifted 2)) ∧
      (∀ s ∈ reactiveStatements, s.span.start < s.span.stop) ∧
      ∃ cut surface,
        cutExports (.ofText reactiveScript) reactiveStatements 2 = (cut, .ok surface) ∧
        cut.finish.code = "# $: c = b;let b;$: a = c;$: a = b;".toList ∧
        ∃ last,
          declareReactive cut surface.declared reactiveStatements 2 =
            (last, .ok ["c".toList, "a".toList]) ∧
          last.finish.code = "# ;let c; $: c = b;let b;;let a; $: a = c;$: a = b;".toList := by
  have hlt : ∀ s ∈ reactiveStatements, s.span.start < s.span.stop := by decide
  have hdeclared : (cutExports (.ofText reactiveScript) reactiveStatements 2).2.map
      Surface.declared = .ok ["b".toList] := by
    decide +kernel
  cases hcut : cutExports (.ofText reactiveScript) reactiveStatements 2 with
  | mk cut outcome =>
    rw [hcut] at hdeclared
    cases outcome with
    | error error => cases hdeclared
    | ok surface =>
      obtain ⟨last, injected, hlast, hdeclares⟩ :=
        declareReactive_outcome reactiveStatements_laidOut hlt hcut
      have hsurface : surface.declared = ["b".toList] := Except.ok.inj hdeclared
      have hinjected := hdeclares.injected_eq
      have hafter := hdeclares.code_after
      rw [hsurface] at hinjected hafter
      have hnames : injected = ["c".toList, "a".toList] := hinjected.trans (by decide +kernel)
      refine ⟨reactiveStatements_laidOut, hlt, cut, surface, rfl, ?_, last, ?_, ?_⟩
      · exact hdeclares.code_before.trans (by decide +kernel)
      · rw [hlast, hnames]
      · exact hafter.trans (by decide +kernel)

end Component

end TypedComponent
