import TypedComponent.Script.Grammar.Function

/-!
Classes: their heads, and their members by the words before a member's name.
Such a word is the name itself if what follows says so.
-/

namespace TypedComponent.Script

open Reader

/-- Whether a method goes on here after its name. -/
def atMethod (state : State) : Bool := state.isAnyMark [.openParen, .less]

/-- Whether a property goes on or ends here after its name. -/
def atProperty (state : State) (onLineEnd : Bool) : Bool :=
  state.isAnyMark [.bang, .colon, .assign, .closeBrace, .semicolon] ||
    (onLineEnd && state.endsStatement)

/-- A method from after its name on. -/
def methodRest (r : Rules) (c : Context) (isAsync isGenerator : Bool) : Reader Unit :=
  discard (functionRest r c isAsync isGenerator)

/-- A property from after its name on, or from after the mark that makes it
optional. A missing semicolon is forgiven. -/
def propertyRest (r : Rules) (c : Context) (isOptional : Bool) : Reader Unit := do
  discard (passWhen (!isOptional) (pass .bang))
  optionalType r c
  if ← pass .assign then discard (r.assignment (c.function false false).bracketed)
  discard passEnd

/-- The words that say from where a member can be reached, and two that are
forgiven in their place. -/
def accessWords : List String := ["public", "protected", "private", "in", "out"]

/-- Passes a word for access, if it is one that a member may have. -/
def passAccess : Reader Bool := do
  match ← passModifier accessWords with
  | some word => return word != "in".toList && word != "out".toList
  | none => return false

/-- One parameter of a constructor, which may declare a property. -/
def constructorParameter (r : Rules) (c : Context) : Reader Tree.Pattern := do
  if ← pass .ellipsis then
    let target ← r.binding c
    optionalType r c
    return .rest target
  let access ← passAccess
  let overrides := (← passModifier ["override"]).isSome
  let readonly := (← passModifier ["readonly"]).isSome
  let found ← plainParameter r c
  if access || overrides || readonly then
    match found with
    | .name _ | .withDefault .. => return found
    | _ => fail
  return found

/-- A constructor from after its name on. -/
def constructorRest (r : Rules) (c : Context) : Reader Unit := do
  let inside := c.function false false
  if (← get).isMark .less then
    if (← get).next.isMark .greater then
      advance
      advance
    else typeParameters r c
  expect .openParen
  discard (commaList .closeParen (constructorParameter r inside))
  expect .closeParen
  optionalType r c
  discard (functionBody r inside)

/-- The name of a member, which may be private. -/
inductive MemberName where
  | key (key : Tree.PropertyKey)
  | privateName

namespace MemberName

/-- Whether the member is named by this word, and no literal. -/
def isWord (name : MemberName) (word : String) : Bool :=
  match name with
  | key own => own.isWord word
  | privateName => false

end MemberName

def memberName (r : Rules) (c : Context) : Reader MemberName := do
  if !(← get).isMark .hash then return .key (← propertyName r c)
  privateName
  return .privateName

/-- Whether the member is the constructor, by its name. -/
def isConstructorName (name : MemberName) : Bool :=
  match name with
  | .key own => own.isNamed "constructor"
  | .privateName => false

/-- A method from after its name on, or the constructor. -/
def namedMethodRest (r : Rules) (c : Context) (name : MemberName) : Reader Unit :=
  if isConstructorName name then constructorRest r c else methodRest r c false false

/-- A property from after its name on, which cannot be the constructor's. -/
def namedPropertyRest (r : Rules) (c : Context) (name : MemberName) (isOptional : Bool) :
    Reader Unit := do
  if isConstructorName name then fail
  propertyRest r c isOptional

/-- A member from its name on. Of the methods only generators and accessors may
be marked as `readonly`. -/
def memberFromName (r : Rules) (c : Context) (readonly : Bool) : Reader Unit := do
  if ← pass .star then
    discard (memberName r c)
    return ← methodRest r c false true
  let name : MemberName ←
    if readonly && (← get).isAnyMark [.bang, .colon] then pure (.key (.word "readonly".toList))
    else memberName r c
  let isOptional ← pass .question
  let state ← get
  if atMethod state then
    if readonly then fail
    return ← namedMethodRest r c name
  let isAccessor :=
    (name.isWord "get" || name.isWord "set") && !atProperty state false &&
      !(state.afterLineEnd && state.isMark .star)
  if !isAccessor && atProperty state true then return ← namedPropertyRest r c name isOptional
  if name.isWord "async" && !state.afterLineEnd then
    discard (passModifier ["override"])
    let isGenerator ← pass .star
    let own ← memberName r c
    if readonly || isConstructorName own then fail
    discard (passWhen (!isOptional) (pass .question))
    return ← methodRest r c true isGenerator
  if isAccessor then
    discard (memberName r c)
    return ← methodRest r c false false
  fail

/-- A member after the words `declare`, access and `static`. -/
def memberFromModifiers (r : Rules) (c : Context) (hasAccess isStatic : Bool) :
    Reader Unit := do
  let modifiers ← repeatStep (fun (words : List Text) => do
    let state ← get
    if state.isWord "static" && state.next.isMark .openBrace then return .inr words
    match ← passModifier ["abstract", "readonly", "override", "static"] with
    | some word => return .inl (word :: words)
    | none => return .inr words) []
  if (isStatic || modifiers.contains "static".toList) && (← get).isMark .openBrace then
    return ← block r (c.function false false)
  discard (passModifier ["accessor"])
  let marked := hasAccess ||
    modifiers.contains "abstract".toList || modifiers.contains "override".toList
  if !marked then
    if ← indexSignature r c then return
  memberFromName r c (modifiers.contains "readonly".toList)

/-- Handles a word before a member that may be the member's name: reads the
member if it is, and otherwise returns that it is a word before it. -/
def wordOrMember (r : Rules) (c : Context) (word : String) (onLineEnd : Bool) :
    Reader (Option Bool) := do
  if !(← passWord word) then return some false
  let state ← get
  if atMethod state then
    methodRest r c false false
    return none
  if atProperty state onLineEnd || state.isMark .question then
    propertyRest r c (← pass .question)
    return none
  return some true

def classMember (r : Rules) (c : Context) : Reader Unit := do
  let isDeclared := (← get).isWord "declare"
  if (← wordOrMember r c "declare" true).isNone then return
  let hasAccess ← passAccess
  if !isDeclared then
    if (← wordOrMember r c "declare" true).isNone then return
  let some isStatic := ← wordOrMember r c "static" false | return
  if (← wordOrMember r c "accessor" true).isNone then return
  memberFromModifiers r c hasAccess isStatic

/-- A list of types that a class or interface refers to. -/
def heritageList (r : Rules) (c : Context) : Reader Unit :=
  typeList (fun s => s.isMark .openBrace || s.isWord "implements" || s.isWord "extends")
    (r.heritage c)

def superclass (r : Rules) (c : Context) : Reader Unit := do
  discard (r.leftHandSide c)
  if (← get).isMark .less then typeArguments r c

/-- A class from its word on. Returns its name. -/
def classRest (r : Rules) (c : Context) (needsName : Bool) : Reader (Option Text) := do
  expectWord "class"
  let name : Option Text ←
    if needsName || (← get).isName then
      require (!·.isWord "let")
      some <$> boundName c.ambient
    else pure none
  optionalTypeParameters r c
  if ← passWord "extends" then
    superclass r c
    if ← pass .comma then heritageList r c
  if ← passWord "extends" then superclass r c
  if ← passWord "implements" then heritageList r c
  if ← passWord "implements" then heritageList r c
  if ← passWord "extends" then superclass r c
  expect .openBrace
  repeatStep (fun (_ : Unit) => do
    if ← pass .closeBrace then return .inr ()
    if !(← pass .semicolon) then classMember r c
    return .inl ()) ()
  return name

end TypedComponent.Script
