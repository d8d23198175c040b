import TypedComponent.Script.Grammar.Expression

/-!
Declarations: variables, enumerations, interfaces, namespaces and type aliases.
Words such as `type` or `declare` are names like any other; they begin a
declaration only if what follows them fits.
-/

namespace TypedComponent.Script

open Reader

/-- One declarator of a variable statement. A pattern needs a value, unless the
variable is constant or only declared. In the head of a loop the value comes
with the loop. -/
def declarator (r : Rules) (c : Context) (isConstant isLexical inHead : Bool) :
    Reader Tree.Declarator := do
  let start := (← get).span.start
  if isLexical && (← get).isWord "let" then fail
  let target ← r.binding c
  let found : Tree.Declarator := ⟨⟨start, (← get).previousStop⟩, target⟩
  let isName := match target with
    | .name _ => true
    | _ => false
  if isName then discard (pass .bang)
  optionalType r c
  if inHead && ((← get).isWord "in" || (← get).isWord "of") then return found
  if ← pass .assign then discard (r.assignment c)
  else if !isName && (!isConstant || inHead) && !c.ambient then fail
  return found

/-- The declarators of a variable statement, with commas between them. -/
def declarators (r : Rules) (c : Context) (isConstant isLexical inHead : Bool) :
    Reader (List Tree.Declarator) :=
  repeatStep (fun (found : List Tree.Declarator) => do
    if (← get).isMark .semicolon then return .inr found.reverse
    let found := (← declarator r c isConstant isLexical inHead) :: found
    return if ← pass .comma then .inl found else .inr found.reverse) []

def skipToEnd : Reader Unit :=
  repeatStep (fun (_ : Unit) => do
    if ← passEnd then return .inr ()
    advance
    return if (← get).isInvalid then .inr () else .inl ()) ()

/-- A variable statement from its word on. What stands on its line after the
declarators is forgiven and belongs to it. -/
def variableRest (r : Rules) (c : Context) : Reader (List Tree.Declarator) := do
  let isConstant := (← get).isWord "const"
  let isLexical := !(← get).isWord "var"
  advance
  let found ← declarators r { c with allowIn := true } isConstant isLexical false
  if !(← passEnd) then
    discard (recovering Expression.other (expression r c))
    skipToEnd
  return found

/-- Whether a variable statement begins at the word `let` or another one. -/
def startsVariables (state : State) : Bool :=
  state.isWord "var" || state.isWord "const" ||
    (state.isWord "let" &&
      (let next := state.next
       next.isAnyMark [.openBrace, .openBracket] || next.isBindable))

def enumMemberName (r : Rules) (c : Context) : Reader Unit := do
  if ← pass .openBracket then
    discard (expression r c)
    expect .closeBracket
  else if ← passIf fun s => s.isString || s.token = .number then pure ()
  else discard anyWord

/-- One member of an enumeration, with the comma after it if there is one. What
follows a name in place of a value or a comma is passed, and so is the token
after that, as if it were the comma. -/
def enumMember (r : Rules) (c : Context) : Reader Unit := do
  enumMemberName r c
  if ← pass .assign then discard (r.assignment c)
  else if !(← get).isAnyMark [.comma, .closeBrace] then
    advance
    advance
    return
  discard (pass .comma)

/-- An enumeration from its name on. -/
def enumRest (r : Rules) (c : Context) : Reader Unit := do
  discard anyWord
  expect .openBrace
  repeatStep (fun (_ : Unit) => do
    if ← pass .closeBrace then return .inr ()
    enumMember r c
    return .inl ()) ()

def skipToBrace : Reader Unit :=
  repeatStep (fun (_ : Unit) => do
    if (← get).isMark .openBrace || (← get).isFinished then return .inr ()
    advance
    return .inl ()) ()

/-- An interface from its name on. What follows when it extends something a
second time is forgiven. -/
def interfaceRest (r : Rules) (c : Context) : Reader Unit := do
  discard anyWord
  optionalTypeParameters r c
  if ← passWord "extends" then heritageList r c
  if (← get).isWord "extends" then skipToBrace
  typeMembers r c

/-- A type alias from its name on. -/
def aliasRest (r : Rules) (c : Context) : Reader Unit := do
  discard anyWord
  optionalTypeParameters r c
  expect .assign
  r.type c.type
  expectEnd

/-- The body of a namespace, which is the top level of a module of its own. -/
def namespaceBody (r : Rules) (c : Context) : Reader Unit :=
  block r { c with topLevel := true }

/-- A namespace from its name on, which may have several parts. -/
def namespaceRest (r : Rules) (c : Context) : Reader Unit := do
  repeatStep (fun (_ : Unit) => do
    discard anyWord
    return if ← pass .dot then .inl () else .inr ()) ()
  namespaceBody r c

/-- The body of a module that is declared elsewhere, which may be missing. -/
def ambientModuleRest (r : Rules) (c : Context) : Reader Unit := do
  advance
  if (← get).isMark .openBrace then namespaceBody r c else expectEnd

/-- A declaration after one of the words that may begin it. If `isSure`, the
word is the current token and begins a declaration in any case; otherwise it is
passed already, and what follows decides. -/
def wordDeclaration (r : Rules) (c : Context) (word : Text) (isSure : Bool) :
    Reader (Option Tree.Declaration) := do
  let state ← get
  let enter : Reader Unit := if isSure then advance else pure ()
  let goesOn := isSure || state.isName
  if word = "abstract".toList then
    if isSure || (state.isWord "class" && !state.afterLineEnd) then
      enter
      match ← classRest r c true with
      | some name => return some (.classDeclaration false name)
      | none => fail
    if state.isWord "interface" then
      advance
      interfaceRest r c
      return some .interfaceDeclaration
  else if word = "enum".toList && isSure then
    enter
    enumRest r c
    return some .enumDeclaration
  else if word = "interface".toList && isSure then
    enter
    interfaceRest r c
    return some .interfaceDeclaration
  else if word = "module".toList then
    if !state.afterLineEnd then
      enter
      if (← get).isString then
        ambientModuleRest r c
        return some .moduleDeclaration
      if goesOn then
        namespaceRest r c
        return some .moduleDeclaration
  else if word = "namespace".toList then
    if goesOn then
      enter
      namespaceRest r c
      return some .moduleDeclaration
  else if word = "type".toList && isSure then
    enter
    aliasRest r c
    return some .aliasDeclaration
  return none

/-- The declaration without a definition. -/
def Tree.Declaration.asAmbient : Tree.Declaration → Tree.Declaration
  | .variableDeclaration _ declarators => .variableDeclaration true declarators
  | .functionDeclaration _ name => .functionDeclaration true name
  | .classDeclaration _ name => .classDeclaration true name
  | other => other

/-- What follows the word `declare`, if it begins a declaration. -/
def ambientDeclaration (r : Rules) (c : Context) : Reader (Option Tree.Declaration) := do
  let c := { c with ambient := true }
  let state ← get
  if state.isWord "function" then
    return some (.functionDeclaration true (← functionDeclaration r c false))
  if state.isWord "class" then
    match ← classRest r c true with
    | some name => return some (.classDeclaration true name)
    | none => fail
  if state.isWord "const" && state.next.isWord "enum" then
    advance
    advance
    enumRest r c
    return some .enumDeclaration
  if state.isWord "const" || state.isWord "var" || state.isWord "let" then
    return some (.variableDeclaration true (← variableRest r c))
  if state.isWord "global" then
    ambientModuleRest r c
    return some .moduleDeclaration
  match state.token with
  | .word word => return (← wordDeclaration r c word true).map (·.asAmbient)
  | _ => return none

end TypedComponent.Script
