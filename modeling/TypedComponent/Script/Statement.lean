import TypedComponent.Text.Span

/-!
A script seen as a list of top-level statements, reduced to what the treatment
of exports and of reactive statements asks about. Spans are relative to the
start of the script.
-/

namespace TypedComponent.Script

inductive ExportName where
  | identifier (name : Text)
  /-- A string literal, with its quotes. -/
  | quoted (literal : Text)
deriving DecidableEq, Repr

structure ExportSpecifier where
  span : Span
  localName : ExportName
  exported : Option ExportName
  typeOnly : Bool
deriving DecidableEq, Repr

/-- What one declarator of a variable statement declares. -/
inductive Binding where
  | name (name : Text)
  /-- A destructuring pattern, with the names it binds in source order. -/
  | pattern (span : Span) (names : List Text)
deriving DecidableEq, Repr

inductive StatementKind where
  /-- A variable statement. The span of an export keyword takes in the
  whitespace after it. -/
  | variableDeclaration (exportKeyword : Option Span) (bindings : List Binding)
  | functionDeclaration (exportKeyword : Option Span) (name : Text)
  | classDeclaration (exportKeyword : Option Span) (name : Text)
  /-- A list of exported names, or all exports of another module. -/
  | exportClause (fromSource typeOnly : Bool) (specifiers : List ExportSpecifier)
  | exportDefault
  /-- A declaration that only the type checker sees, enumerations included. -/
  | typeDeclaration (exportKeyword : Option Span)
  /-- A labeled statement, and the name that it assigns if its body is just an
  assignment to a name. -/
  | labeled (label : Text) (assigns : Option Text)
  | other
deriving DecidableEq, Repr

structure Statement where
  span : Span
  kind : StatementKind
deriving DecidableEq, Repr

namespace Binding

def names : Binding → List Text
  | .name n => [n]
  | .pattern _ names => names

def patternSpan? : Binding → Option Span
  | .name _ => none
  | .pattern span _ => some span

end Binding

end TypedComponent.Script
