import TypedComponent.Component.Error
import TypedComponent.Edit.Buffer
import TypedComponent.Script.Statement

/-!
A statement under the label `$` runs again when what it reads changes. If it
assigns to a name that nothing declares, it declares that name, and the typed
form says so in front of the statement.
-/

namespace TypedComponent.Component

open Script (Statement)

/-- The label of statements that run again. -/
def reactiveLabel : Text := "$".toList

/-- The name that a reactive statement assigns. -/
def reactiveTarget? (statement : Statement) : Option Text :=
  match statement.kind with
  | .labeled label target => if label = reactiveLabel then target else none
  | _ => none

/-- The names that reactive statements declare, each with the offset of the
first statement that does. -/
def implicitDeclarations (declared : List Text) : List Statement → List (Nat × Text)
  | [] => []
  | statement :: rest =>
    match reactiveTarget? statement with
    | none => implicitDeclarations declared rest
    | some name =>
      if name ∈ declared then implicitDeclarations declared rest
      else (statement.span.start, name) :: implicitDeclarations (name :: declared) rest

/-- A declaration in front of a statement, closed off from what comes before. -/
def declarationOf (name : Text) : Text :=
  ";let ".toList ++ name ++ "; ".toList

/-- Declares the names that only reactive statements assign, and returns them
in order. -/
def declareReactive (buffer : EditBuffer) (declared : List Text) (statements : List Statement)
    (start : Nat) : EditBuffer × Except Error (List Text) :=
  let found := implicitDeclarations declared statements
  let edits := found.map fun (offset, name) =>
    Edit.insertBefore (offset + start) (declarationOf name)
  match buffer.applyUntil edits with
  | (last, none) => (last, .ok (found.map Prod.snd))
  | (last, some refusal) => (last, .error (.edit refusal))

end TypedComponent.Component
