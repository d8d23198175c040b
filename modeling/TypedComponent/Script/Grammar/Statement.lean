import TypedComponent.Script.Grammar.Export

/-!
Statements, and the items that a script consists of.
-/

namespace TypedComponent.Script

open Reader

/-- A statement that nothing more is asked about. -/
def plain (reader : Reader Unit) : Reader Tree.Statement := do
  reader
  return .other

/-- An expression in parentheses, as in the head of a statement. -/
def inParentheses (r : Rules) (c : Context) : Reader Unit := do
  expect .openParen
  discard (expression r c.bracketed)
  expect .closeParen

def Context.nested (c : Context) : Context :=
  { c with topLevel := false, colonFollows := false, inLoopHead := false }

/-- An expression that a statement consists of or ends with. -/
def ownExpression (r : Rules) (c : Context) : Reader Expression := expression r c.nested.bracketed

/-- A statement inside of another one, which is no declaration. -/
def body (r : Rules) (c : Context) : Reader Unit := discard (r.item c.nested false)

/-- A jump with an optional label, from its word on. -/
def jump : Reader Unit := do
  advance
  if !(← passEnd) then
    discard (boundName false)
    expectEnd

/-- A conditional statement from its word on, with all its branches. -/
def conditionalStatement (r : Rules) (c : Context) : Reader Unit :=
  repeatStep (fun (_ : Unit) => do
    expectWord "if"
    inParentheses r c
    body r c
    if !(← passWord "else") then return .inr ()
    if (← get).isWord "if" then return .inl ()
    body r c
    return .inr ()) ()

/-- The head of a loop after its first part and a semicolon. -/
def loopHeadRest (r : Rules) (c : Context) : Reader Unit := do
  if !(← pass .semicolon) then
    discard (expression r c)
    expect .semicolon
  if !(← get).isMark .closeParen then discard (expression r c)

/-- What a loop runs over, from the word before it on. Returns whether it may
wait for its values. -/
def loopSubject (r : Rules) (c : Context) : Reader Bool := do
  if ← passWord "of" then
    discard (r.assignment c)
    return true
  expectWord "in"
  discard (expression r c)
  return false

/-- Whether the current token is the word before what a loop runs over. -/
def atLoopSubject (state : State) : Bool := state.isWord "of" || state.isWord "in"

/-- Whether what a loop runs over is here with nothing after it, so that the
word before it is no name. -/
def isWholeLoopSubject (r : Rules) (c : Context) : Reader Bool :=
  holdsAhead do
    expectThat atLoopSubject
    discard (r.assignment c)
    return (← get).isMark .closeParen

/-- The variables of a loop from their word on, and the rest of its head.
Returns whether it may wait. -/
def variablesLoopHead (r : Rules) (c : Context) : Reader Bool := do
  let inside := c.bracketed
  let state ← get
  let isVar := state.isWord "var"
  advance
  if ← isWholeLoopSubject r c then return ← loopSubject r inside
  discard (declarators r (if isVar then c else inside) (state.isWord "const") (!isVar) true)
  if atLoopSubject (← get) then return ← loopSubject r inside
  expect .semicolon
  loopHeadRest r inside
  return false

/-- Whether a loop's variable is declared here by the word `using`. -/
def startsUsing (state : State) : Bool :=
  state.isWord "using" && state.next.isAnyWord && !state.next.isWord "of" &&
    atLoopSubject state.next.next

/-- The head of a loop in parentheses. Returns whether it may wait. -/
def loopHead (r : Rules) (c : Context) : Reader Bool := do
  let c := { c with inLoopHead := true }
  let inside := c.bracketed
  let state ← get
  if startsVariables state then return ← variablesLoopHead r c
  if ← pass .semicolon then
    loopHeadRest r inside
    return false
  if startsUsing state || (state.isWord "await" && startsUsing state.next) then
    discard (passWord "await")
    advance
    discard (boundName false)
    return ← loopSubject r inside
  let first ← expression r { c with allowIn := false }
  if atLoopSubject (← get) then
    if !first.isPattern false then fail
    return ← loopSubject r inside
  expect .semicolon
  loopHeadRest r inside
  return false

/-- A counting or iterating loop from its word on. -/
def loop (r : Rules) (c : Context) : Reader Unit := do
  expectWord "for"
  let waits ← passWord "await"
  expect .openParen
  let mayWait ← loopHead r c
  if waits && !mayWait then fail
  expect .closeParen
  body r c

/-- The cases of a selection, in braces. There is one default case at most. -/
def cases (r : Rules) (c : Context) : Reader Unit := do
  expect .openBrace
  repeatStep (fun (hasDefault : Bool) => do
    if ← pass .closeBrace then return .inr ()
    let isDefault := (← get).isWord "default"
    if isDefault && hasDefault then fail
    if ← passWord "default" then pure ()
    else
      expectWord "case"
      discard (expression r c.bracketed)
    expect .colon
    repeatStep (fun (_ : Unit) => do
      let state ← get
      if state.isFinished || state.isMark .closeBrace || state.isWord "case" ||
          state.isWord "default" then return .inr ()
      discard (r.item c.nested true)
      return .inl ()) ()
    return .inl (hasDefault || isDefault)) false

/-- What handles an error, if it is here. -/
def catchClause (r : Rules) (c : Context) : Reader Unit := do
  if ← passWord "catch" then
    if ← pass .openParen then
      discard (r.binding c)
      optionalType r c
      expect .closeParen
    block r c.nested

/-- What runs at the end in any case, if it is here. -/
def finallyClause (r : Rules) (c : Context) : Reader Unit := do
  if ← passWord "finally" then block r c.nested

/-- The declaration that a word begins whatever word follows it on its line. -/
def committedDeclaration? (r : Rules) (c : Context) (state : State) :
    Option (Reader Tree.Declaration) :=
  if state.isWord "enum" then some ((fun _ => .enumDeclaration) <$> enumRest r c)
  else if state.isWord "interface" then
    some ((fun _ => .interfaceDeclaration) <$> interfaceRest r c)
  else if state.isWord "type" then some ((fun _ => .aliasDeclaration) <$> aliasRest r c)
  else none

/-- A statement that begins with a word of the grammar, or none. -/
def keywordStatement (r : Rules) (c : Context) (allowDeclaration : Bool) :
    Reader (Option Tree.Statement) := do
  let state ← get
  let next := state.next
  if state.isWord "const" && next.isWord "enum" then
    advance
    advance
    enumRest r c
    return some (.declaration .enumDeclaration)
  let declares (word : State) : Bool :=
    allowDeclaration && word.isWord "using" && word.next.isName && !word.next.afterLineEnd
  if declares state || (state.isWord "await" && declares next) then
    discard (passWord "await")
    advance
    discard (declarators r c.nested.bracketed false false false)
    expectEnd
    return some (.declaration .usingDeclaration)
  if state.isWord "break" || state.isWord "continue" then return some (← plain jump)
  if state.isWord "debugger" then
    advance
    return some (← plain expectEnd)
  if state.isWord "do" then
    advance
    body r c
    expectWord "while"
    inParentheses r c
    return some (← plain (discard passEnd))
  if state.isWord "for" then return some (← plain (loop r c))
  if state.isWord "function" then
    return some (.declaration (.functionDeclaration false (← functionDeclaration r c false)))
  if state.isWord "class" then
    match ← classRest r c true with
    | some name => return some (.declaration (.classDeclaration false name))
    | none => fail
  if state.isWord "if" then return some (← plain (conditionalStatement r c))
  if state.isWord "return" then
    advance
    if ← passEnd then return some .other
    discard (ownExpression r c)
    return some (← plain expectEnd)
  if state.isWord "switch" then
    advance
    inParentheses r c
    return some (← plain (cases r c))
  if state.isWord "throw" then
    advance
    if (← get).afterLineEnd then fail
    discard (ownExpression r c)
    return some (← plain expectEnd)
  if state.isWord "catch" || state.isWord "finally" then
    recovering () (catchClause r c)
    return some (← plain (recovering () (finallyClause r c)))
  if state.isWord "try" then
    advance
    block r c.nested
    catchClause r c
    return some (← plain (finallyClause r c))
  if state.isWord "with" || state.isWord "while" then
    advance
    inParentheses r c
    return some (← plain (body r c))
  if state.isWord "var" || (allowDeclaration && startsVariables state) then
    return some (.declaration (.variableDeclaration false (← variableRest r c.nested)))
  if state.wordFollows then
    if let some reader := committedDeclaration? r c state then
      advance
      return some (.declaration (← reader))
  if state.isWord "async" && next.isWord "function" && !next.afterLineEnd then
    advance
    return some (.declaration (.functionDeclaration false (← functionDeclaration r c true)))
  return none

/-- A label's statement, after the colon. -/
def labeledRest (r : Rules) (c : Context) (label : Text) : Reader Tree.Statement := do
  if (← get).isWord "function" then
    let name ← functionDeclaration r c false
    return .labeled label (.declaration (.functionDeclaration false name))
  match (← r.item c.nested false).kind with
  | .statement body => return .labeled label body
  | _ => fail

/-- A declaration that begins with a name, which is passed already. -/
def namedDeclaration (r : Rules) (c : Context) (name : Text) :
    Reader (Option Tree.Declaration) := do
  if name = "declare".toList then ambientDeclaration r c
  else if name = "global".toList then
    if (← get).isMark .openBrace then
      namespaceBody r c
      return some .moduleDeclaration
    return none
  else wordDeclaration r c name false

/-- A statement that begins with an expression: that expression, a label or a
declaration whose word is a name. -/
def expressionStatement (r : Rules) (c : Context) : Reader Tree.Statement := do
  let isEscaped := match (← get).token with
    | .name _ => true
    | _ => false
  let value ← ownExpression r c
  if let .name name := value then
    if ← pass .colon then return ← labeledRest r c name
    if !isEscaped then
      if let some declared := ← namedDeclaration r c name then return .declaration declared
  if ← passEnd then return .expression value.tree
  if (← get).isOperatorMark then
    discard (operatorsRest r c.nested value 0)
    return .expression .other
  fail

/-- Any statement but an import or export. -/
def innerStatement (r : Rules) (c : Context) (allowDeclaration : Bool) :
    Reader Tree.Statement := do
  if let some found := ← keywordStatement r c allowDeclaration then return found
  if (← get).isMark .openBrace then return ← plain (block r c.nested)
  if ← pass .semicolon then return .other
  expressionStatement r c

/-- An import, which may be the beginning of an expression. -/
def importStatement (r : Rules) (c : Context) : Reader Tree.ItemKind := do
  if (← get).next.isAnyMark [.dot, .openParen] then
    let value ← expression r c.nested
    discard passEnd
    return .statement (.expression value.tree)
  if !c.topLevel then fail
  advance
  importRest r c.nested

/-- Any item; imports and exports are for the top level. -/
def anyItem (r : Rules) (c : Context) (allowDeclaration : Bool) : Reader Tree.ItemKind := do
  let state ← get
  if state.isWord "import" then return ← importStatement r c
  if state.isWord "export" then
    if !c.topLevel then fail
    advance
    return ← exportRest r c
  return .statement (← innerStatement r c allowDeclaration)

/-- An item with its span. What handles an error or ends a trial without one
before it counts by its word alone. -/
def item (r : Rules) (c : Context) (allowDeclaration : Bool) : Reader Tree.Item := do
  let state ← get
  let kind ← anyItem r c allowDeclaration
  let isStray := state.isWord "catch" || state.isWord "finally"
  let lastStop := (← get).previousStop
  let stop := if isStray then state.span.stop else lastStop
  return ⟨⟨state.span.start, stop⟩, kind⟩

end TypedComponent.Script
