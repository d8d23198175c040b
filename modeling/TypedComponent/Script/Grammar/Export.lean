import TypedComponent.Script.Grammar.Declaration

/-!
Imports and exports, which stand at the top level of a module.
-/

namespace TypedComponent.Script

open Reader

def importAttributes (r : Rules) (c : Context) : Reader Unit := do
  let state ← get
  if !state.afterLineEnd && (state.isWord "assert" || state.isWord "with") then
    advance
    discard (objectLiteral r c)

/-- The name at the current token, a word or a string. -/
def exportName : Reader Tree.ExportName := do
  let state ← get
  if state.isString then
    advance
    return .string state.span
  return .identifier (← anyWord)

/-- A word or string as the name of something exported, which is not kept.
Returns whether it is a string. -/
def passName : Reader Bool := do
  if ← passIf (·.isString) then return true
  discard anyWord
  return false

/-- The parts of a specifier that begins with the word `type`, which is passed:
the name in the other module, the name it is given and whether `type` was a
modifier. `target` reads a name that is given. -/
def typeSpecifier (target : Reader Text) :
    Reader (Tree.ExportName × Option Tree.ExportName × Bool) := do
  let word : Tree.ExportName := .identifier "type".toList
  let first ← anyWord
  if first != "as".toList then return (.identifier first, none, true)
  if !(← get).isAnyWord then return (.identifier first, none, true)
  let second ← target
  if second = "as".toList && (← get).isAnyWord then
    return (.identifier first, some (.identifier (← target)), true)
  return (word, some (.identifier second), false)

/-- One name of an export clause. Where the word `type` comes before `as` and
the name that follows, the span is that word's. -/
def exportSpecifier : Reader Tree.ExportSpecifier := do
  let state ← get
  let start := state.span.start
  let finish (original : Tree.ExportName) (exported : Option Tree.ExportName) (typeOnly : Bool) :
      Reader Tree.ExportSpecifier := do
    return .named ⟨start, (← get).previousStop⟩ original exported typeOnly
  let renamed (original : Tree.ExportName) (typeOnly : Bool) : Reader Tree.ExportSpecifier := do
    if ← passWord "as" then finish original (some (← exportName)) typeOnly
    else finish original none typeOnly
  if state.isWord "type" && state.next.isAnyWord then
    advance
    match ← typeSpecifier anyWord with
    | (original, none, true) =>
      if original = .identifier "as".toList then finish original none true
      else renamed original true
    | (original, exported, typeOnly) => return .named state.span original exported typeOnly
  else renamed (← exportName) false

/-- The module that something is exported from. -/
def fromClause (r : Rules) (c : Context) : Reader Text := do
  expectWord "from"
  let .string source := (← get).token | fail
  advance
  importAttributes r c
  discard passEnd
  return source

/-- An export of names, of everything, or of everything under a name. -/
def exportClause (r : Rules) (c : Context) (typeOnly : Bool) : Reader Tree.ItemKind := do
  if (← get).isMark .star then
    advance
    if ← passWord "as" then
      discard passName
      return .exportedNames [.everything] (some (← fromClause r c)) typeOnly
    discard (fromClause r c)
    return .exportedEverything
  expect .openBrace
  let specifiers ← commaList .closeBrace exportSpecifier
  expect .closeBrace
  if (← get).isWord "from" then
    return .exportedNames specifiers (some (← fromClause r c)) typeOnly
  discard passEnd
  return .exportedNames specifiers none typeOnly

/-- A default export, after its word. -/
def exportDefault (r : Rules) (c : Context) : Reader Tree.ItemKind := do
  let state ← get
  let next := state.next
  if state.isWord "abstract" && next.isWord "class" && !next.afterLineEnd then
    advance
    discard (classRest r c false)
  else if state.isWord "abstract" && next.isWord "interface" then
    advance
    advance
    interfaceRest r c
  else if state.isWord "interface" && next.isAnyWord then
    advance
    interfaceRest r c
  else if state.isWord "class" then discard (classRest r c false)
  else if state.isWord "async" && next.isWord "function" && !next.afterLineEnd then
    advance
    discard (functionExpression r c true)
  else if state.isWord "function" then discard (functionExpression r c false)
  else
    discard (r.assignment c.bracketed)
    expectEnd
    return .defaultExpression
  return .defaultDeclaration

/-- A local name for something exported elsewhere, after the equals sign. -/
def importAlias : Reader Unit := do
  if (← get).isWord "require" && (← get).next.isMark .openParen then
    advance
    advance
    expectThat (·.isString)
    expect .closeParen
  else entityName false
  expectEnd

def exportedDeclaration (r : Rules) (c : Context) : Reader (Option Tree.Declaration) := do
  let state ← get
  if state.isWord "class" then
    match ← classRest r c true with
    | some name => return some (.classDeclaration false name)
    | none => fail
  if state.isWord "async" && state.next.isWord "function" && !state.next.afterLineEnd then
    advance
    return some (.functionDeclaration false (← functionDeclaration r c true))
  if state.isWord "function" then
    return some (.functionDeclaration false (← functionDeclaration r c false))
  if state.isWord "const" && state.next.isWord "enum" then
    advance
    advance
    enumRest r c
    return some .enumDeclaration
  if startsVariables state then
    return some (.variableDeclaration false (← variableRest r c))
  return none

/-- An export, after its word. -/
def exportRest (r : Rules) (c : Context) : Reader Tree.ItemKind := do
  if ← passWord "declare" then
    if let some declared := ← ambientDeclaration r c then return .exportedDeclaration declared
  if let .word word := (← get).token then
    if let some declared := ← attempt (wordDeclaration r c word true) then
      return .exportedDeclaration declared
  if ← passWord "import" then
    if (← get).isWord "type" && (← get).next.isName then advance
    discard anyWord
    expect .assign
    importAlias
    return .importAlias
  if ← pass .assign then
    discard (expression r c)
    expectEnd
    return .exportAssignment
  if ← passWord "as" then
    expectWord "namespace"
    discard (boundName false)
    expectEnd
    return .namespaceExport
  if ← passWord "type" then return ← exportClause r c true
  if ← passWord "default" then return ← exportDefault r c
  match ← exportedDeclaration r c with
  | some declared => return .exportedDeclaration declared
  | none => exportClause r c false

/-- The name that an import gives to what has a name already. It may be missing
after a word, even a reserved one, but not after a string. -/
def importedAs (isString : Bool) : Reader Unit := do
  if ← passWord "as" then discard (boundName false)
  else if isString then fail

def importSpecifier : Reader Unit := do
  let state ← get
  if state.isWord "type" && state.next.isString then
    advance
    importedAs (← passName)
  else if state.isWord "type" && state.next.isAnyWord then
    advance
    match ← typeSpecifier (boundName false) with
    | (.identifier word, none, true) => if word != "as".toList then importedAs false
    | _ => return
  else importedAs (← passName)

/-- What an import binds: a default name, a namespace, or names in braces. -/
def importBindings : Reader Unit := do
  if ← pass .star then
    expectWord "as"
    discard (boundName false)
  else if ← pass .openBrace then
    discard (commaList .closeBrace importSpecifier)
    expect .closeBrace

def importSource (r : Rules) (c : Context) : Reader Unit := do
  expectWord "from"
  expectThat (·.isString)
  importAttributes r c
  expectEnd

/-- An import that begins with a name, after its word: the name may be a
modifier, or what a default export is called here. -/
def namedImportRest (r : Rules) (c : Context) : Reader Tree.ItemKind := do
  let name ← get
  advance
  let next ← get
  let isClause :=
    (name.isWord "type" && next.isAnyMark [.star, .openBrace]) ||
      (name.isWord "defer" && next.isMark .star)
  if isClause then
    importBindings
    importSource r c
    return .importDeclaration
  let namesBefore := next.isName && (!next.isWord "from" || next.next.isWord "from")
  if name.isWord "source" && namesBefore then
    advance
    discard (pass .comma)
    importSource r c
    return .importDeclaration
  if name.isWord "type" && (namesBefore || (next.isWord "from" && next.next.isMark .assign)) then
    advance
  if ← pass .assign then
    importAlias
    return .importAlias
  if ← pass .comma then importBindings
  importSource r c
  return .importDeclaration

/-- An import, after its word. -/
def importRest (r : Rules) (c : Context) : Reader Tree.ItemKind := do
  if (← get).isName then return ← namedImportRest r c
  if ← passIf (·.isString) then
    importAttributes r c
    discard passEnd
  else
    importBindings
    importSource r c
  return .importDeclaration

end TypedComponent.Script
