import TypedComponent.Script.Grammar.Parameter

/-!
Types. Nothing of a type is kept; what matters is where it ends.
-/

namespace TypedComponent.Script

open Reader

/-- Items of a type's list up to a closing mark, which is not passed. -/
def typeList (close : State → Bool) (item : Reader Unit) : Reader Unit :=
  repeatStep (fun (_ : Unit) => do
    if close (← get) then return .inr ()
    item
    if ← pass .comma then return .inl ()
    if close (← get) then return .inr ()
    fail) ()

def typeArguments (r : Rules) (c : Context) : Reader Unit := do
  expect .less
  typeList (·.isMark .greater) (r.type c.type)
  expect .greater

/-- One type parameter, with its modifiers, bound and default. -/
def typeParameter (r : Rules) (c : Context) : Reader Unit := do
  repeatStep (fun (_ : Unit) => do
    let modifier ← passModifier ["public", "private", "protected", "readonly", "abstract",
      "const", "override", "in", "out"]
    return if modifier.isSome then .inl () else .inr ()) ()
  discard anyWord
  if ← passWord "extends" then r.type c.type
  if ← pass .assign then r.type c.type

def typeParameters (r : Rules) (c : Context) : Reader Unit := do
  expect .less
  typeList (·.isMark .greater) (typeParameter r c)
  expect .greater

def optionalTypeParameters (r : Rules) (c : Context) : Reader Unit := do
  if (← get).isMark .less then typeParameters r c

/-- The parameters of a signature, after its opening parenthesis. They have no
default values. -/
def signatureParameters (r : Rules) (c : Context) : Reader (List Tree.Pattern) := do
  let found ← parameters r c
  let plain := found.all fun
    | .withDefault .. => false
    | _ => true
  if !plain then fail
  expect .closeParen
  return found

/-- A type, or a statement about a parameter's type, after a mark. -/
def typeOrPredicate (r : Rules) (c : Context) (mark : Mark) : Reader Unit := do
  expect mark
  let asserts := (← get).isWord "asserts" && (← get).next.isName
  if asserts then advance
  let state ← get
  let next := state.next
  let tests := state.isName && next.isWord "is" && !next.afterLineEnd
  if asserts || tests then
    discard anyWord
    if tests then
      expectWord "is"
      r.type c.type
  else r.type c.type

/-- A name with its qualifiers, of which only some may be keywords. -/
def entityName (allowKeywords : Bool) : Reader Unit := do
  discard anyWord
  repeatStep (fun (_ : Unit) => do
    if !(← pass .dot) then return .inr ()
    if (← get).isMark .hash then fail
    if !(← get).isAnyWord then return .inr ()
    discard (if allowKeywords then anyWord else boundName false)
    return .inl ()) ()

/-- Type arguments on the same line, if there are any. -/
def typeArgumentsHere (r : Rules) (c : Context) : Reader Unit := do
  let state ← get
  if !state.afterLineEnd && state.isMark .less then typeArguments r c

def memberEnd : Reader Unit := do
  if !(← pass .comma) then expectEnd

def signature (r : Rules) (c : Context) : Reader Unit := do
  optionalTypeParameters r c
  expect .openParen
  discard (signatureParameters r c)
  if (← get).isMark .colon then typeOrPredicate r c .colon
  memberEnd

def indexSignature (r : Rules) (c : Context) : Reader Bool := do
  let isHere ← holdsAhead do
    expect .openBracket
    expectThat (·.isName)
    return (← get).isMark .colon || (← get).isMark .comma
  if !isHere then return false
  expect .openBracket
  discard anyWord
  if !(← pass .comma) then expect .colon
  r.type c.type
  expect .closeBracket
  optionalType r c
  memberEnd
  return true

/-- The name of a property in a type. What follows a literal like a member of it
is forgiven. -/
def typePropertyName (r : Rules) (c : Context) : Reader Unit := do
  if ← pass .openBracket then
    discard (r.assignment { c with colonFollows := false })
    expect .closeBracket
  else
    let state ← get
    if state.isString || state.token = .number then discard (r.constructed c)
    else if state.isMark .hash then privateName
    else discard anyWord

def typeAccessor (r : Rules) (c : Context) : Reader (Option Unit) := do
  let isGetter ← passWord "get"
  if !isGetter then expectWord "set"
  typePropertyName r c
  expect .openParen
  if isGetter then
    expect .closeParen
    optionalType r c
  else if (← signatureParameters r c).isEmpty then fail
  memberEnd
  return some ()

def typeMember (r : Rules) (c : Context) : Reader Unit := do
  if (← get).isAnyMark [.openParen, .less] then return ← signature r c
  if (← get).isWord "new" && (← get).next.isAnyMark [.openParen, .less] then
    advance
    return ← signature r c
  let readonly := (← passModifier ["readonly"]).isSome
  if ← indexSignature r c then return
  if !readonly then
    if (← attempt (typeAccessor r c)).isSome then return
  typePropertyName r c
  discard (pass .question)
  if (← get).isAnyMark [.openParen, .less] then
    if readonly then fail
    signature r c
  else
    optionalType r c
    memberEnd

def typeMembers (r : Rules) (c : Context) : Reader Unit := do
  expect .openBrace
  repeatStep (fun (_ : Unit) => do
    if ← pass .closeBrace then return .inr ()
    typeMember r c
    return .inl ()) ()

def startsMappedType : Reader Bool := do
  expect .openBrace
  if ← passSign then return (← get).isWord "readonly"
  discard (passWord "readonly")
  expect .openBracket
  expectThat (·.isName)
  return (← get).isWord "in"

def mappedType (r : Rules) (c : Context) : Reader Unit := do
  expect .openBrace
  if ← passSign then expectWord "readonly"
  else discard (passWord "readonly")
  expect .openBracket
  discard anyWord
  expectWord "in"
  r.type c.type
  if ← passWord "as" then r.type c.type
  expect .closeBracket
  if ← passSign then expect .question
  else discard (pass .question)
  optionalType r c
  expectEnd
  expect .closeBrace

/-- One element of a tuple type, which may have a label. -/
def tupleElement (r : Rules) (c : Context) : Reader Unit := do
  discard (attempt do
    discard (pass .ellipsis)
    discard anyWord
    discard (pass .question)
    expect .colon
    return some ())
  if ← pass .ellipsis then r.type c.type
  else
    r.type c.type
    discard (pass .question)

def importTypeAttributes (r : Rules) (c : Context) : Reader Unit := do
  expect .openBrace
  expectWord "with"
  expect .colon
  require (·.isMark .openBrace)
  discard (r.assignment c.bracketed)
  discard (pass .comma)
  expect .closeBrace

/-- The type of a module or of something in it. That the module is named by a
string is not asked for. -/
def importType (r : Rules) (c : Context) : Reader Unit := do
  expectWord "import"
  expect .openParen
  expectThat fun s => !s.isFinished && !s.isInvalid
  if ← pass .comma then
    if (← get).isMark .openBrace then importTypeAttributes r c
  expect .closeParen
  if ← pass .dot then entityName false
  typeArgumentsHere r c

/-- The words that are types of their own. -/
def typeWords : List Text :=
  ["void", "null", "any", "boolean", "bigint", "never", "number", "object", "string", "symbol",
    "unknown", "undefined", "intrinsic"].map String.toList

def isTypeName (word : Text) : Bool :=
  !(isKeyword word || word = "let".toList) ||
    ["void", "null", "break"].any (word = ·.toList)

/-- A type that is referred to by its name, before which a modifier is
forgiven. -/
def namedType (r : Rules) (c : Context) : Reader Unit := do
  discard passParameterModifier
  entityName true
  typeArgumentsHere r c

def wordType (r : Rules) (c : Context) (word : Text) : Reader Unit := do
  let state ← get
  if state.isWord "true" || state.isWord "false" then advance
  else if state.isWord "import" then importType r c
  else if state.isWord "this" then
    advance
    if !(← get).afterLineEnd && (← get).isWord "is" then
      advance
      r.type c.type
  else if state.isWord "typeof" then
    advance
    if (← get).isWord "import" then importType r c
    else
      entityName true
      typeArgumentsHere r c
  else if state.isWord "asserts" && state.next.isWord "this" then
    advance
    advance
    if ← passWord "is" then r.type c.type
  else if typeWords.contains word && !state.next.isMark .dot then advance
  else if isTypeName word then namedType r c
  else fail

/-- A type without operators and suffixes. -/
def primaryType (r : Rules) (c : Context) : Reader Unit := do
  let state ← get
  match state.token with
  | .word word => wordType r c word
  | .name _ => namedType r c
  | .string _ | .number | .bigInteger => advance
  | .mark .minus =>
    advance
    expectThat (·.isNumeric)
  | .mark .openBrace => if ← holdsAhead startsMappedType then mappedType r c else typeMembers r c
  | .mark .openBracket =>
    advance
    typeList (·.isMark .closeBracket) (tupleElement r c)
    expect .closeBracket
  | .mark .openParen =>
    advance
    r.type c.type
    expect .closeParen
  | .template .. => template false (r.type c.type)
  | _ => fail

def suffixedType (r : Rules) (c : Context) : Reader Unit := do
  primaryType r c
  repeatStep (fun (_ : Unit) => do
    if ← passWhen (!(← get).afterLineEnd) (pass .openBracket) then
      if ← pass .closeBracket then return .inl ()
      r.type c.type
      expect .closeBracket
      return .inl ()
    return .inr ()) ()

def operandType (r : Rules) (c : Context) : Reader Unit := do
  let state ← get
  if state.isWord "keyof" || state.isWord "unique" || state.isWord "readonly" then
    advance
    r.typeOperand c
  else if state.isWord "infer" then
    advance
    discard anyWord
    discard (attempt do
      expectWord "extends"
      r.type { c with conditionalTypes := false }
      return if !c.conditionalTypes || !(← get).isMark .question then some () else none)
  else suffixedType r c

/-- Types joined by a mark, which may also stand before the first. -/
def joinedTypes (mark : Mark) (operand : Reader Unit) : Reader Unit := do
  discard (pass mark)
  repeatStep (fun (_ : Unit) => do
    operand
    return if ← pass mark then .inl () else .inr ()) ()

/-- Whether the parenthesis here opens the parameters of a function type. -/
def startsFunctionType (r : Rules) (c : Context) : Reader Bool := do
  expect .openParen
  if (← get).isAnyMark [.closeParen, .ellipsis] then return true
  discard passParameterModifier
  if !(← passIf (·.isAnyWord)) then
    require (·.isAnyMark [.openBrace, .openBracket])
    discard (r.binding c)
  if (← get).isAnyMark [.colon, .comma, .question, .assign] then return true
  if ← pass .closeParen then return (← get).isMark .arrow
  return false

/-- A function type, or a constructor type after its word. -/
def functionType (r : Rules) (c : Context) : Reader Unit := do
  optionalTypeParameters r c
  expect .openParen
  discard (signatureParameters r c)
  typeOrPredicate r c .arrow

def plainType (r : Rules) (c : Context) : Reader Unit := do
  let state ← get
  if state.isMark .less then functionType r c
  else if ← holdsAhead (startsFunctionType r c) then functionType r c
  else if state.isWord "new" then
    advance
    functionType r c
  else if state.isWord "abstract" && state.next.isWord "new" then
    advance
    advance
    functionType r c
  else joinedTypes .bar (joinedTypes .ampersand (operandType r c))

def anyType (r : Rules) (c : Context) : Reader Unit := do
  plainType r c
  if ← passWhen (c.conditionalTypes && !(← get).afterLineEnd) (passWord "extends") then
    r.type { c with conditionalTypes := false }
    expect .question
    r.type c.type
    expect .colon
    r.type c.type

end TypedComponent.Script
