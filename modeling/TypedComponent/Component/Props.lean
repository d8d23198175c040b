import TypedComponent.Component.Error
import TypedComponent.Component.Registry
import TypedComponent.Edit.Buffer
import TypedComponent.Script.Statement
import TypedComponent.Text.Quoted

/-!
In a component, what the instance script exports are its props. The exports
are collected, and the words that made them exports are cut out of the script.

`survey` reads the statements, and `cutExports` carries the cuts out on a
buffer. Neither goes on after an export that no prop can stand for.
-/

namespace TypedComponent.Component

open Script (ExportName ExportSpecifier Binding Statement)

/-- The names that a script gives to its surroundings. -/
structure Surface where
  /-- The exported names, each with the name it has outside if that differs. -/
  exports : Registry (Option Text)
  /-- The names declared at the top level, in order and with repetitions. -/
  declared : List Text
deriving DecidableEq, Repr

/-- A script as a part of a component, by the component's source and the
offset of the script in it. -/
structure ScriptPlace where
  source : Text
  start : Nat
deriving DecidableEq, Repr

def firstLine (text : Text) : Text :=
  Text.trim (text.takeWhile (· ≠ '\n'))

/-- The error for an export that cannot be a prop. It shows how the statement
begins and points at an offset in the script. -/
def unsupported (place : ScriptPlace) (kind : String) (statement : Span) (offset : Nat) : Error :=
  let shown := firstLine (Text.slice place.source (statement.shifted place.start))
  .unsupportedExport (kind.toList ++ " `".toList ++ shown ++ "`".toList) (offset + place.start)

namespace Surface

def empty : Surface := ⟨.empty, []⟩

/-- Adds a declared name, which may be exported as it is. -/
def declare (surface : Surface) (isExported : Bool) (name : Text) : Surface where
  exports := if isExported then surface.exports.insert name none else surface.exports
  declared := surface.declared ++ [name]

/-- Adds what a declarator declares. -/
def addBinding (place : ScriptPlace) (statement : Span) (isExported : Bool) (surface : Surface) :
    Binding → Except Error Surface
  | .name name => .ok (surface.declare isExported name)
  | .pattern span names =>
    if isExported then .error (unsupported place "destructuring export" statement span.start)
    else .ok { surface with declared := surface.declared ++ names }

/-- Adds an export of an export clause. A name outside that is a string fits
no prop. -/
def addSpecifier (place : ScriptPlace) (statement : Span) (surface : Surface)
    (specifier : ExportSpecifier) : Except Error Surface := do
  let plain : ExportName → Except Error Text
    | .identifier name => .ok name
    | .quoted _ => .error (unsupported place "string export name" statement specifier.span.start)
  let name ← plain specifier.localName
  let outside ← specifier.exported.mapM plain
  return { surface with
    exports := surface.exports.insert name (outside.filter fun other => other != name) }

/-- Adds what a statement gives to the surroundings. -/
def add (place : ScriptPlace) (surface : Surface) (statement : Statement) :
    Except Error Surface :=
  match statement.kind with
  | .variableDeclaration keyword bindings =>
    bindings.foldlM (addBinding place statement.span keyword.isSome) surface
  | .functionDeclaration keyword name | .classDeclaration keyword name =>
    .ok (surface.declare keyword.isSome name)
  | .exportClause fromSource typeOnly specifiers =>
    if fromSource || typeOnly then .ok surface
    else
      (specifiers.filter fun specifier => !specifier.typeOnly).foldlM
        (addSpecifier place statement.span) surface
  | .exportDefault =>
    .error (unsupported place "default export" statement.span statement.span.start)
  | .typeDeclaration _ | .labeled .. | .other => .ok surface

end Surface

/-- The part of a statement that makes it an export: its keyword, or all of an
export clause. -/
def exportPart? (statement : Statement) : Option Span :=
  match statement.kind with
  | .variableDeclaration keyword _ | .functionDeclaration keyword _
  | .classDeclaration keyword _ | .typeDeclaration keyword => keyword
  | .exportClause .. => some statement.span
  | .exportDefault | .labeled .. | .other => none

/-- What the statements add to a surface, with the parts to cut out of them.
At the first export without a prop this ends, with the parts of the statements
before it. -/
def survey (place : ScriptPlace) (surface : Surface) :
    List Statement → List Span × Except Error Surface
  | [] => ([], .ok surface)
  | statement :: rest =>
    match surface.add place statement with
    | .error error => ([], .error error)
    | .ok next =>
      let (parts, outcome) := survey place next rest
      ((exportPart? statement).toList ++ parts, outcome)

/-- Cuts the exports out of a script and collects them. The buffer keeps the
cuts made before an error. -/
def cutExports (buffer : EditBuffer) (statements : List Statement) (start : Nat) :
    EditBuffer × Except Error Surface :=
  let (parts, outcome) := survey ⟨buffer.source, start⟩ .empty statements
  match buffer.applyUntil (parts.map fun part => .remove (part.shifted start)) with
  | (last, none) => (last, outcome)
  | (last, some refusal) => (last, .error (.edit refusal))

/-- A prop as it is written in an object: its name outside, and the local name
if that is another. -/
def propEntry : Text × Option Text → Text
  | (name, none) => name
  | (name, some outside) => outside ++ ": ".toList ++ name

/-- The props as one object. -/
def writtenProps (exports : Registry (Option Text)) : Text :=
  Text.inBraces (Text.join " , ".toList (exports.entries.map propEntry))

end TypedComponent.Component
