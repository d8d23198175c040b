import Mathlib.Data.List.Basic
import TypedComponent.Component.Props
import TypedComponent.Component.Reactive
import TypedComponent.Proofs.Edit.Acceptance
import TypedComponent.Proofs.Script.Places

/-!
What is cut out of a script and what is declared in it. A survey that comes to
its end has taken in every statement, and the names that reactive statements
declare are found where each of them is first assigned.
-/

namespace TypedComponent.Component

open Script (Binding ExportSpecifier Statement)

theorem survey_ok {place : ScriptPlace} {surface last : Surface} {statements : List Statement}
    {parts : List Span} (h : survey place surface statements = (parts, .ok last)) :
    parts = statements.filterMap exportPart? ∧
      statements.foldlM (Surface.add place) surface = .ok last := by
  induction statements generalizing surface parts with
  | nil =>
    simp only [survey, Prod.mk.injEq, Except.ok.injEq] at h
    obtain ⟨rfl, rfl⟩ := h
    exact ⟨rfl, rfl⟩
  | cons statement rest ih =>
    rw [survey] at h
    cases hadd : surface.add place statement with
    | error error =>
      rw [hadd] at h
      cases h
    | ok next =>
      rw [hadd] at h
      dsimp only at h
      cases hrest : survey place next rest with
      | mk more outcome =>
        rw [hrest] at h
        simp only [Prod.mk.injEq] at h
        obtain ⟨rfl, rfl⟩ := h
        obtain ⟨hmore, hlast⟩ := ih hrest
        constructor
        · rw [hmore, List.filterMap_cons]
          cases exportPart? statement <;> rfl
        · rw [List.foldlM_cons, hadd]
          exact hlast

/-- The names that a statement declares at the top level of its script. -/
def declaredNames (statement : Statement) : List Text :=
  match statement.kind with
  | .variableDeclaration _ bindings => bindings.flatMap Binding.names
  | .functionDeclaration _ name | .classDeclaration _ name => [name]
  | .exportClause .. | .exportDefault | .typeDeclaration _ | .labeled .. | .other => []

namespace Surface

/-- A fold declares what its steps declare, one after another. -/
theorem foldlM_declared {α : Type} {step : Surface → α → Except Error Surface}
    {names : α → List Text}
    (hstep : ∀ surface a next, step surface a = .ok next →
      next.declared = surface.declared ++ names a)
    {values : List α} {surface last : Surface} (h : values.foldlM step surface = .ok last) :
    last.declared = surface.declared ++ values.flatMap names := by
  induction values generalizing surface with
  | nil =>
    cases h
    rw [List.flatMap_nil, List.append_nil]
  | cons a rest ih =>
    rw [List.foldlM_cons] at h
    obtain ⟨next, hfirst, hrest⟩ := Except.bind_eq_ok.mp h
    rw [ih hrest, hstep surface a next hfirst, List.append_assoc, List.flatMap_cons]

theorem addBinding_declared {place : ScriptPlace} {span : Span} {isExported : Bool}
    (surface : Surface) (binding : Binding) (next : Surface)
    (h : addBinding place span isExported surface binding = .ok next) :
    next.declared = surface.declared ++ binding.names := by
  cases binding with
  | name name =>
    cases h
    rfl
  | pattern patternSpan names =>
    unfold addBinding at h
    cases isExported with
    | true => cases h
    | false =>
      cases h
      rfl

theorem addSpecifier_declared {place : ScriptPlace} {span : Span} (surface : Surface)
    (specifier : ExportSpecifier) (next : Surface)
    (h : addSpecifier place span surface specifier = .ok next) :
    next.declared = surface.declared ++ [] := by
  unfold addSpecifier at h
  obtain ⟨name, -, h⟩ := Except.bind_eq_ok.mp h
  obtain ⟨outside, -, h⟩ := Except.bind_eq_ok.mp h
  cases h
  rw [List.append_nil]

theorem add_declared {place : ScriptPlace} (surface : Surface) (statement : Statement)
    (next : Surface) (h : surface.add place statement = .ok next) :
    next.declared = surface.declared ++ declaredNames statement := by
  obtain ⟨span, kind⟩ := statement
  cases kind with
  | variableDeclaration keyword bindings => exact foldlM_declared addBinding_declared h
  | functionDeclaration keyword name =>
    cases h
    rfl
  | classDeclaration keyword name =>
    cases h
    rfl
  | exportClause fromSource typeOnly specifiers =>
    simp only [add] at h
    split at h
    · cases h
      exact (List.append_nil _).symm
    · have hsame := foldlM_declared addSpecifier_declared h
      rw [List.flatMap_eq_nil_iff.mpr fun _ _ => rfl] at hsame
      exact hsame
  | exportDefault => cases h
  | typeDeclaration keyword =>
    cases h
    exact (List.append_nil _).symm
  | labeled label assigns =>
    cases h
    exact (List.append_nil _).symm
  | other =>
    cases h
    exact (List.append_nil _).symm

theorem declared_of_foldlM {place : ScriptPlace} {statements : List Statement}
    {surface : Surface} (h : statements.foldlM (Surface.add place) .empty = .ok surface) :
    surface.declared = statements.flatMap declaredNames :=
  foldlM_declared add_declared h

end Surface

/-- A name with the place of the first reactive statement that assigns it. -/
def firstAssignment (statements : List Statement) (name : Text) : Option (Nat × Text) :=
  (statements.find? fun s => reactiveTarget? s = some name).map fun s => (s.span.start, name)

/-- Each name that reactive statements assign and nothing declares, with the
place of its first assignment. -/
def firstAssignments (declared : List Text) (statements : List Statement) : List (Nat × Text) :=
  ((statements.filterMap reactiveTarget?).filter (· ∉ declared)).eraseDups.filterMap
    (firstAssignment statements)

theorem filterMap_firstAssignment_cons {statement : Statement} {rest : List Statement}
    {names : List Text} (h : ∀ name ∈ names, reactiveTarget? statement ≠ some name) :
    names.filterMap (firstAssignment (statement :: rest)) =
      names.filterMap (firstAssignment rest) := by
  apply List.filterMap_congr
  intro name hname
  unfold firstAssignment
  rw [List.find?_cons_of_neg (by simpa using h name hname)]

theorem implicitDeclarations_eq (declared : List Text) (statements : List Statement) :
    implicitDeclarations declared statements = firstAssignments declared statements := by
  induction statements generalizing declared with
  | nil => rfl
  | cons statement rest ih =>
    unfold implicitDeclarations firstAssignments
    cases htarget : reactiveTarget? statement with
    | none =>
      rw [List.filterMap_cons_none htarget]
      rw [filterMap_firstAssignment_cons fun name _ => by simp [htarget]]
      exact ih declared
    | some own =>
      rw [List.filterMap_cons_some htarget]
      dsimp only
      by_cases hdeclared : own ∈ declared
      · rw [if_pos hdeclared, List.filter_cons_of_neg (by simpa using hdeclared),
          filterMap_firstAssignment_cons]
        · exact ih declared
        · intro name hname heq
          obtain ⟨-, hnew⟩ := List.mem_filter.mp (List.mem_eraseDups.mp hname)
          rw [← Option.some.inj (htarget.symm.trans heq)] at hnew
          simp [hdeclared] at hnew
      · have hlater : ((rest.filterMap reactiveTarget?).filter (· ∉ declared)).filter
            (fun name => !name == own) =
              (rest.filterMap reactiveTarget?).filter (· ∉ own :: declared) := by
          rw [List.filter_filter]
          apply List.filter_congr
          intro name _
          by_cases hsame : name = own <;> simp [hsame]
        have hfirst : firstAssignment (statement :: rest) own =
            some (statement.span.start, own) := by
          simp [firstAssignment, htarget]
        rw [if_neg hdeclared, List.filter_cons_of_pos (by simpa using hdeclared),
          List.eraseDups_cons, hlater, List.filterMap_cons_some hfirst,
          filterMap_firstAssignment_cons]
        · rw [ih]
          rfl
        · intro name hname heq
          obtain ⟨-, hnew⟩ := List.mem_filter.mp (List.mem_eraseDups.mp hname)
          rw [← Option.some.inj (htarget.symm.trans heq)] at hnew
          simp at hnew

/-- Statements that lie in their script. -/
def WithinScript (content : Text) (statements : List Statement) : Prop :=
  ∀ s ∈ statements, s.span.start ≤ s.span.stop ∧ s.span.stop ≤ Text.bytes content

section Script

variable {parser : Script.Parser} {content : Text} {statements : List Statement}

/-- What is cut out of a script is the word `export` in front of a declaration,
with the blanks after it, or a statement that is an export clause. -/
theorem exportPart?_iff (hparse : parser.statements content = .ok statements)
    {statement : Statement} (hmem : statement ∈ statements) (part : Span) :
    exportPart? statement = some part ↔
      (statement.kind.keyword? = some part ∧
        Script.KeywordAt content statement.span.start part) ∨
      ((∃ fromSource typeOnly specifiers,
        statement.kind = .exportClause fromSource typeOnly specifiers) ∧
        part = statement.span) := by
  have hkeyword : statement.kind.keyword? = some part ↔
      statement.kind.keyword? = some part ∧
        Script.KeywordAt content statement.span.start part :=
    ⟨fun h => ⟨h, Script.Parser.statements_keyword hparse hmem h⟩, And.left⟩
  rw [← hkeyword]
  obtain ⟨span, kind⟩ := statement
  cases kind <;> simp [exportPart?, Script.StatementKind.keyword?, eq_comm]

theorem exportPart?_within (hparse : parser.statements content = .ok statements)
    (hwithin : WithinScript content statements) {part : Span}
    (hpart : part ∈ statements.filterMap exportPart?) : part.stop ≤ Text.bytes content := by
  obtain ⟨statement, hmem, hexport⟩ := List.mem_filterMap.mp hpart
  rcases (exportPart?_iff hparse hmem part).mp hexport with ⟨-, hkeyword⟩ | ⟨-, rfl⟩
  · exact hkeyword.stop_le
  · exact (hwithin _ hmem).2

/-- The statements of a script lie in it. -/
theorem withinScript_of_placesItems (hparse : parser.statements content = .ok statements)
    (hplaces : parser.PlacesItems content) : WithinScript content statements := fun _ hmem =>
  have hlies := hplaces.statement_liesIn hparse hmem
  ⟨hlies.start_le, Text.le_bytes_of_isBoundary hlies.stop_place⟩

end Script

/-- A first assignment is where a statement begins. -/
theorem firstAssignments_mem {statements : List Statement} {declared : List Text}
    {found : Nat × Text} (h : found ∈ firstAssignments declared statements) :
    ∃ s ∈ statements, found.1 = s.span.start := by
  obtain ⟨name, -, hfirst⟩ := List.mem_filterMap.mp h
  unfold firstAssignment at hfirst
  obtain ⟨statement, hstatement, rfl⟩ := Option.map_eq_some_iff.mp hfirst
  exact ⟨statement, List.mem_of_find?_eq_some hstatement, rfl⟩

theorem firstAssignments_within {content : Text} {statements : List Statement}
    (hwithin : WithinScript content statements) (declared : List Text) :
    ∀ found ∈ firstAssignments declared statements, found.1 ≤ Text.bytes content := by
  intro found hfound
  obtain ⟨statement, hstatement, hplace⟩ := firstAssignments_mem hfound
  obtain ⟨hstart, hstop⟩ := hwithin statement hstatement
  rw [hplace]
  exact Nat.le_trans hstart hstop

end TypedComponent.Component
