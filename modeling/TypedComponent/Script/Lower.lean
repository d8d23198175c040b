import TypedComponent.Script.Parser
import TypedComponent.Script.Statement
import TypedComponent.Text.Category

/-!
The statements of a script from its syntax tree. Each item is reduced to what
the treatment of exports and of reactive statements asks about, and positions
become offsets in the script.
-/

namespace TypedComponent.Script

namespace Tree

mutual

/-- The names that a pattern binds, in source order. Keys and default values
bind nothing. -/
def Pattern.names : Pattern → List Text
  | .name name => [name]
  | .array elements => namesOfElements elements
  | .object properties => namesOfProperties properties
  | .rest target => target.names
  | .withDefault target _ => target.names
  | .expression | .invalid => []

def namesOfElements : List (Option Pattern) → List Text
  | [] => []
  | none :: others => namesOfElements others
  | some first :: others => first.names ++ namesOfElements others

def PatternProperty.names : PatternProperty → List Text
  | .keyed _ target => target.names
  | .shorthand name _ => [name]
  | .rest target => target.names

def namesOfProperties : List PatternProperty → List Text
  | [] => []
  | first :: others => first.names ++ namesOfProperties others

end

/-- The name that a statement assigns, if it is just an assignment to a name. -/
def Statement.assigns? : Statement → Option Text
  | .expression (.assignment .plain (.name name) _) => some name
  | _ => none

end Tree

/-- The span of the word `export` with the blanks after it, if the script has
that word at an offset. -/
def exportKeyword? (content : Text) (start : Nat) : Option Span := do
  let after ← Text.after? "export".toList (Text.dropBytes content start)
  if !Text.isBoundary content start then none
  return ⟨start, start + 6 + Text.bytes (after.takeWhile Text.isBlank)⟩

/-- A script and the position of its first byte in its tree. -/
structure Lowering where
  content : Text
  base : Nat

namespace Lowering

variable (lower : Lowering)

/-- The offsets of positions. -/
def span (positions : Span) : Span := positions.shiftedBack lower.base

def binding (declarator : Tree.Declarator) : Binding :=
  match declarator.target with
  | .name name => .name name
  | pattern => .pattern (lower.span declarator.span) pattern.names

def exportName : Tree.ExportName → ExportName
  | .identifier name => .identifier name
  | .string positions => .quoted (Text.slice lower.content (lower.span positions))

/-- A name of an export clause. What has no name of its own is left out. -/
def exportSpecifier? : Tree.ExportSpecifier → Option ExportSpecifier
  | .named positions original exported isTypeOnly =>
    some ⟨lower.span positions, lower.exportName original, exported.map lower.exportName,
      isTypeOnly⟩
  | .everything | .byDefault => none

/-- What a declaration is, with its keyword if it is exported. An ambient one is
for the type checker only. -/
def declaration (keyword : Option Span) : Tree.Declaration → StatementKind
  | .variableDeclaration false declarators =>
    .variableDeclaration keyword (declarators.map lower.binding)
  | .functionDeclaration false name => .functionDeclaration keyword name
  | .classDeclaration false name => .classDeclaration keyword name
  | .variableDeclaration true _ | .functionDeclaration true _ | .classDeclaration true _
  | .interfaceDeclaration | .aliasDeclaration | .enumDeclaration | .moduleDeclaration =>
    .typeDeclaration keyword
  | .usingDeclaration => .other

def statement : Tree.Statement → StatementKind
  | .declaration declaration => lower.declaration none declaration
  | .labeled label body => .labeled label body.assigns?
  | .expression _ | .other => .other

/-- What an item is that begins at an offset. -/
def kind (start : Nat) : Tree.ItemKind → StatementKind
  | .exportedDeclaration declaration =>
    lower.declaration (exportKeyword? lower.content start) declaration
  | .exportedNames specifiers source isTypeOnly =>
    .exportClause source.isSome isTypeOnly (specifiers.filterMap lower.exportSpecifier?)
  | .exportedEverything => .exportClause true false []
  | .defaultDeclaration | .defaultExpression | .exportAssignment => .exportDefault
  | .importDeclaration | .importAlias | .namespaceExport => .other
  | .statement statement => lower.statement statement

def item (item : Tree.Item) : Statement :=
  ⟨lower.span item.span, lower.kind (lower.span item.span).start item.kind⟩

end Lowering

/-- The statements of a script, or what its parser says against it. -/
def Parser.statements (parser : Parser) (content : Text) :
    Except SyntaxError (List Statement) :=
  (parser.parse content).map (List.map (Lowering.item ⟨content, parser.base⟩))

end TypedComponent.Script
