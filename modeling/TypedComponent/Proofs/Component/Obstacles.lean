import TypedComponent.Component.Props

/-!
What keeps a statement from giving props to a component: an exported pattern, a
name that is a string, or a value without a name. Adding the statement to a
surface fails for the first of these, whatever the surface is.
-/

namespace TypedComponent.Component

open Script (Binding ExportName ExportSpecifier Statement)

/-- A construct that no prop can stand for, by its kind and by where it begins in
the script. -/
structure Obstacle where
  kind : String
  offset : Nat
deriving DecidableEq, Repr

/-- Patterns are in the way only where they are exported. -/
def patternObstacle? (isExported : Bool) (binding : Binding) : Option Obstacle :=
  if isExported then binding.patternSpan?.map fun span => ⟨"destructuring export", span.start⟩
  else none

/-- A specifier is in the way as a whole, whichever of its names is a string. -/
def stringObstacle? (specifier : ExportSpecifier) : Option Obstacle :=
  match specifier.localName, specifier.exported with
  | .quoted _, _ | .identifier _, some (.quoted _) =>
    some ⟨"string export name", specifier.span.start⟩
  | .identifier _, none | .identifier _, some (.identifier _) => none

/-- The constructs of a statement that no prop can stand for, as they are listed in
it. What another module exports, and what only the type checker sees, is no prop. -/
def obstacles (statement : Statement) : List Obstacle :=
  match statement.kind with
  | .variableDeclaration keyword bindings => bindings.filterMap (patternObstacle? keyword.isSome)
  | .exportClause fromSource typeOnly specifiers =>
    if fromSource || typeOnly then []
    else (specifiers.filter fun specifier => !specifier.typeOnly).filterMap stringObstacle?
  | .exportDefault => [⟨"default export", statement.span.start⟩]
  | .functionDeclaration .. | .classDeclaration .. | .typeDeclaration _ | .labeled .. | .other => []

/-- The error for an obstacle in a statement. -/
def Obstacle.error (place : ScriptPlace) (statement : Span) (obstacle : Obstacle) : Error :=
  unsupported place obstacle.kind statement obstacle.offset

/-- With nothing in the way there is a result, and else the error for the first
obstacle. -/
def FailsFor (place : ScriptPlace) (statement : Span) (found : List Obstacle)
    (outcome : Except Error Surface) : Prop :=
  match found with
  | [] => ∃ surface, outcome = .ok surface
  | first :: _ => outcome = .error (first.error place statement)

section Steps

variable {place : ScriptPlace} {span : Span}

/-- A fold fails for the first obstacle of all that its steps fail for. -/
theorem foldlM_failsFor {α : Type} {step : Surface → α → Except Error Surface}
    {obstacle? : α → Option Obstacle}
    (hstep : ∀ surface a, FailsFor place span (obstacle? a).toList (step surface a))
    (values : List α) (surface : Surface) :
    FailsFor place span (values.filterMap obstacle?) (values.foldlM step surface) := by
  induction values generalizing surface with
  | nil => exact ⟨surface, rfl⟩
  | cons a rest ih =>
    have hfirst := hstep surface a
    rw [List.foldlM_cons]
    cases hobstacle : obstacle? a with
    | none =>
      rw [hobstacle] at hfirst
      obtain ⟨next, hnext⟩ := hfirst
      rw [List.filterMap_cons_none hobstacle, hnext]
      exact ih next
    | some obstacle =>
      rw [hobstacle] at hfirst
      have herror : step surface a = .error (obstacle.error place span) := hfirst
      rw [List.filterMap_cons_some hobstacle, herror]
      rfl

theorem addBinding_failsFor (isExported : Bool) (surface : Surface) (binding : Binding) :
    FailsFor place span (patternObstacle? isExported binding).toList
      (surface.addBinding place span isExported binding) := by
  cases binding with
  | name name => cases isExported <;> exact ⟨_, rfl⟩
  | pattern patternSpan names =>
    cases isExported with
    | true => rfl
    | false => exact ⟨_, rfl⟩

theorem addSpecifier_failsFor (surface : Surface) (specifier : ExportSpecifier) :
    FailsFor place span (stringObstacle? specifier).toList
      (surface.addSpecifier place span specifier) := by
  obtain ⟨specifierSpan, localName, exported, typeOnly⟩ := specifier
  cases localName with
  | quoted literal => rfl
  | identifier name =>
    cases exported with
    | none => exact ⟨_, rfl⟩
    | some outside =>
      cases outside with
      | quoted literal => rfl
      | identifier other => exact ⟨_, rfl⟩

theorem add_failsFor (surface : Surface) (statement : Statement) :
    FailsFor place statement.span (obstacles statement) (surface.add place statement) := by
  obtain ⟨span, kind⟩ := statement
  cases kind with
  | variableDeclaration keyword bindings =>
    exact foldlM_failsFor (addBinding_failsFor keyword.isSome) bindings surface
  | exportClause fromSource typeOnly specifiers =>
    simp only [obstacles, Surface.add]
    split
    · exact ⟨surface, rfl⟩
    · exact foldlM_failsFor addSpecifier_failsFor _ surface
  | exportDefault => rfl
  | functionDeclaration keyword name => exact ⟨_, rfl⟩
  | classDeclaration keyword name => exact ⟨_, rfl⟩
  | typeDeclaration keyword => exact ⟨_, rfl⟩
  | labeled label assigns => exact ⟨_, rfl⟩
  | other => exact ⟨_, rfl⟩

end Steps

end TypedComponent.Component
