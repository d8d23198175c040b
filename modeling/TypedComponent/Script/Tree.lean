import TypedComponent.Text.Span

/-!
The syntax tree of a script, as far as it is looked at. The items of a script
have spans, and so have the targets of declarators, the names of an export
clause and the strings among these; positions are counted from a base that the
parser has for the start of a script.
-/

namespace TypedComponent.Script.Tree

inductive AssignmentSign where
  /-- The equals sign alone. -/
  | plain
  /-- An assignment that computes. -/
  | computing
deriving DecidableEq, Repr

inductive AssignmentTarget where
  | name (name : Text)
  /-- A member, a pattern or anything else that can be assigned to. -/
  | other
deriving DecidableEq, Repr

inductive Expression where
  | name (name : Text)
  | number
  | string (value : Text)
  | assignment (sign : AssignmentSign) (target : AssignmentTarget) (value : Expression)
  | other
deriving DecidableEq, Repr

inductive PropertyKey where
  | word (name : Text)
  | string (value : Text)
  | number
  /-- An expression in brackets. -/
  | computed
deriving DecidableEq, Repr

mutual

/-- What a declaration binds, a parameter among others. -/
inductive Pattern where
  | name (name : Text)
  /-- The elements of an array, with holes. -/
  | array (elements : List (Option Pattern))
  | object (properties : List PatternProperty)
  | rest (target : Pattern)
  | withDefault (target : Pattern) (value : Expression)
  /-- An expression that is assigned to. -/
  | expression
  | invalid

inductive PatternProperty where
  | keyed (key : PropertyKey) (target : Pattern)
  /-- A name that is key and target at once, perhaps with a default value. -/
  | shorthand (name : Text) (value : Option Expression)
  | rest (target : Pattern)

end

/-- One declarator of a variable statement, by the span of its target. -/
structure Declarator where
  span : Span
  target : Pattern

inductive Declaration where
  | variableDeclaration (isAmbient : Bool) (declarators : List Declarator)
  | functionDeclaration (isAmbient : Bool) (name : Text)
  | classDeclaration (isAmbient : Bool) (name : Text)
  | interfaceDeclaration
  | aliasDeclaration
  | enumDeclaration
  /-- A namespace, or a module that is declared elsewhere. -/
  | moduleDeclaration
  /-- Variables that are disposed of at the end. -/
  | usingDeclaration

inductive Statement where
  | declaration (declaration : Declaration)
  | labeled (label : Text) (body : Statement)
  | expression (expression : Expression)
  | other

inductive ExportName where
  | identifier (name : Text)
  | string (span : Span)
deriving DecidableEq, Repr

inductive ExportSpecifier where
  | named (span : Span) (original : ExportName) (exported : Option ExportName) (isTypeOnly : Bool)
  /-- Everything that another module exports, under one name. -/
  | everything
  /-- What another module exports by default. -/
  | byDefault
deriving DecidableEq, Repr

inductive ItemKind where
  | exportedDeclaration (declaration : Declaration)
  | exportedNames (specifiers : List ExportSpecifier) (source : Option Text) (isTypeOnly : Bool)
  | exportedEverything
  | defaultDeclaration
  | defaultExpression
  | exportAssignment
  | importDeclaration
  | importAlias
  | namespaceExport
  | statement (statement : Statement)

/-- An item at the top level of a script. -/
structure Item where
  span : Span
  kind : ItemKind

end TypedComponent.Script.Tree
