import TypedComponent.Script.Grammar.Class

/-!
Expressions. What stands in parentheses is read once, as arguments or as the
parameters of an arrow function, and the token after it decides. A left angle
bracket after an expression begins type arguments if they can be read to the
end and what follows fits.
-/

namespace TypedComponent.Script

open Reader

def expression (r : Rules) (c : Context) : Reader Expression := do
  let first ← r.assignment c
  if !(← get).isMark .comma then return first
  repeatStep (fun (_ : Unit) => do
    if ← pass .comma then
      discard (r.assignment c)
      return .inl ()
    return .inr ()) ()
  return .other

/-- An expression that three dots may stand before. -/
def argument (r : Rules) (c : Context) : Reader Expression := do
  discard (pass .ellipsis)
  r.assignment c.bracketed

def arguments (r : Rules) (c : Context) : Reader Unit := do
  expect .openParen
  discard (commaList .closeParen (argument r c))
  expect .closeParen

inductive ArrayItem where
  | hole
  | value (value : Expression)
  /-- What is spread into the array. -/
  | spread (value : Expression)

namespace ArrayItem

/-- The expressions among the items that have to be patterns if the literal is
one: all but those that are spread in front of other items. -/
def patterns : List ArrayItem → List Expression
  | [] => []
  | [spread e] => [e]
  | value e :: others => e :: patterns others
  | _ :: others => patterns others

end ArrayItem

def arrayLiteral (r : Rules) (c : Context) : Reader Expression := do
  expect .openBracket
  let items ← repeatStep (fun (items : List ArrayItem) => do
    if ← pass .closeBracket then return .inr items.reverse
    if ← pass .comma then return .inl (.hole :: items)
    let hasDots := (← get).isMark .ellipsis
    let found ← argument r c
    if !(← get).isMark .closeBracket then expect .comma
    return .inl ((if hasDots then .spread found else .value found) :: items)) []
  return .array (ArrayItem.patterns items)

inductive Property where
  | value (value : Expression)
  /-- What is spread into the object. -/
  | spread (value : Expression)
  /-- A name that stands for its value as well. -/
  | shorthand
  /-- A method or accessor. -/
  | method

namespace Property

def value? : Property → Option Expression
  | value e => some e
  | _ => none

def spread? : Property → Option Expression
  | spread e => some e
  | _ => none

def isMethod : Property → Bool
  | method => true
  | _ => false

end Property

def objectProperty (r : Rules) (c : Context) : Reader Property := do
  if ← pass .ellipsis then return .spread (← r.assignment c.bracketed)
  if ← pass .star then
    discard (propertyName r c)
    discard (functionRest r c false true)
    return .method
  discard passParameterModifier
  let key ← propertyName r c
  let state ← get
  let isWord := match key with
    | .word _ => true
    | _ => false
  let fits :=
    state.isAnyMark [.openParen, .openBracket, .colon, .comma, .question, .assign, .star, .less] ||
      state.isAnyWord || state.isString || state.isNumeric || (state.isMark .closeBrace && isWord)
  if !fits then return .shorthand
  if ← pass .colon then return .value (← r.assignment c.bracketed)
  if state.isAnyMark [.openParen, .less] then
    discard (functionRest r c false false)
    return .method
  if !isWord then fail
  discard (pass .question)
  if (← get).isAnyMark [.assign, .comma, .closeBrace] then
    if ← pass .assign then discard (r.assignment c.bracketed)
    return .shorthand
  let isAsync := key.isWord "async"
  if !isAsync && !key.isWord "get" && !key.isWord "set" then fail
  let isGenerator ← passWhen isAsync (pass .star)
  discard (propertyName r c)
  discard (functionRest r c isAsync isGenerator)
  return .method

def objectLiteral (r : Rules) (c : Context) : Reader Expression := do
  expect .openBrace
  let properties ← commaList .closeBrace (objectProperty r c)
  expect .closeBrace
  return .object (properties.filterMap (·.value?)) (properties.filterMap (·.spread?))
    (properties.all (!·.isMethod))

def templateLiteral (r : Rules) (c : Context) (hasTag : Bool) : Reader Unit :=
  template hasTag (discard (expression r c.bracketed))

/-- A regular expression, whose opening slash is the current token or begins
it. -/
def regularExpression : Reader Unit := do
  let state ← get
  let body :=
    if state.isMark .dividingAssign then '=' :: state.after.rest else state.after.rest
  match skipRegularExpression false body with
  | none =>
    set { state with token := .unreadable }
    fail
  | some rest => set (state.resume rest)

inductive ParenthesizedItem where
  | value (hasDots : Bool) (value : Expression)
  /-- What can only be a parameter, for it has a type or may be missing. -/
  | parameter (isName : Bool)

namespace ParenthesizedItem

def isParameter : ParenthesizedItem → Bool
  | value .. => false
  | parameter _ => true

def hasDots : ParenthesizedItem → Bool
  | value hasDots _ => hasDots
  | parameter _ => false

/-- Whether the item can be a parameter. -/
def isPattern : ParenthesizedItem → Bool
  | value _ e => e.isPattern true
  | parameter _ => true

/-- Whether the items can be the parameters of an arrow function. One with dots
in front of other items is forgiven, whatever it is. -/
def areParameters : List ParenthesizedItem → Bool
  | [] => true
  | [last] => last.isPattern
  | item :: others => (item.hasDots || item.isPattern) && areParameters others

/-- Whether the item is a name. A typed one with dots before it is none. -/
def isName : ParenthesizedItem → Bool
  | value _ (.name _) => true
  | value .. => false
  | parameter isName => isName

end ParenthesizedItem

/-- Goes on after the first part of a conditional expression's test. -/
def conditionalRest (r : Rules) (c : Context) : Reader Unit := do
  discard (r.assignment { c with allowIn := true, inConditional := true, colonFollows := true })
  expect .colon
  discard (r.assignment { c with inConditional := true, colonFollows := false })

/-- Goes on after an expression that an assignment sign may follow. -/
def assignmentRest (r : Rules) (c : Context) (left : Expression) : Reader Expression := do
  match (← get).assignment? with
  | none => return left
  | some (true, extra) =>
    if !left.isAssignable then fail
    modify (·.nextAfter extra)
    return .assignment .plain left.target (← r.assignment c).tree
  | some (false, extra) =>
    if !left.isPlace then fail
    modify (·.nextAfter extra)
    return .assignment .computing left.target (← r.assignment c).tree

def operatorsRest (r : Rules) (c : Context) (left : Expression) (strength : Nat) :
    Reader Expression :=
  repeatStep (fun (left : Expression) => do
    let state ← get
    if !state.afterLineEnd &&
        ((strength < 7 && state.isWord "as") || state.isWord "satisfies") then
      advance
      if ← passWhen (state.isWord "as") (passWord "const") then return .inl .other
      r.type c.type
      return .inl .place
    match state.operator? c.allowIn with
    | none => return .inr left
    | some (own, extra) =>
      if own ≤ strength then return .inr left
      modify (·.nextAfter extra)
      if state.isMark .power then
        match left with
        | .unary | .await => fail
        | _ => pure ()
      let right ← r.unary c
      discard (r.operators c right (if state.isMark .power then own - 1 else own))
      return .inl .operation) left

/-- An operand with the binary operators after it. An operand missing before an
operator is forgiven. -/
def binary (r : Rules) (c : Context) : Reader Expression := do
  let operand : Reader Expression := fun state =>
    match r.unary c state with
    | .ok result => .ok result
    | .error stopped =>
      if (stopped.operator? c.allowIn).isSome then .ok (.other, stopped) else .error stopped
  let left ← operand
  if left.isArrow then return left
  operatorsRest r c left 0

/-- One item in parentheses, which begins where an arrow function may. -/
def parenthesizedItem (r : Rules) (c : Context) : Reader ParenthesizedItem := do
  modify fun s => { s with arrowStart := some s.span.start }
  discard passParameterModifier
  let state ← get
  let hasDots := state.isMark .ellipsis
  let inside := c.bracketed
  let value : Expression ←
    if state.isName || (hasDots && state.next.isName) then
      if hasDots then
        advance
        binary r inside
      else
        assignmentRest r inside (← binary r inside)
    else argument r c
  let next := (← get).next
  let isOptional :=
    (← get).isMark .question && next.isAnyMark [.comma, .colon, .closeParen, .assign]
  if isOptional then
    advance
    match value with
    | .name _ => pure ()
    | _ => fail
  let value : Expression ←
    if !isOptional && (← get).isMark .question && !hasDots then
      advance
      conditionalRest r inside
      pure Expression.operation
    else pure value
  if isOptional || (← get).isMark .colon then
    let canBeTyped := hasDots || match value with
      | .name _ | .array _ | .object .. => true
      | _ => false
    if !canBeTyped || !value.isPattern true then fail
    optionalType r inside
    if ← pass .assign then discard (r.assignment inside)
    return .parameter (value.isName && !hasDots)
  return .value hasDots value

/-- The items in parentheses. An arrow within them makes an arrow function, if
the first of them is a name. -/
def parenthesizedItems (r : Rules) (c : Context) : Reader (List ParenthesizedItem) := do
  expect .openParen
  let items ← repeatStep (fun (items : List ParenthesizedItem) => do
    if (← get).isMark .closeParen then return .inr items.reverse
    let item ← parenthesizedItem r c
    let items := item :: items
    let isArrow ← pass .arrow
    let arrow? : List ParenthesizedItem ←
      if isArrow && (items.getLast?.any (·.isName)) then
        if !ParenthesizedItem.areParameters items.reverse then fail
        pure [ParenthesizedItem.value false (.arrow (← arrowBody r c false))]
      else pure []
    if !(← get).isMark .closeParen then expect .comma
    return .inl (arrow? ++ items)) []
  expect .closeParen
  return items

/-- What begins with a parenthesis: an expression in parentheses, an arrow
function, or after the word `async` a call. -/
def parenthesized (r : Rules) (c : Context) (canBeArrow isAsync : Bool) : Reader Expression := do
  let items ← parenthesizedItems r c
  let areParameters := ParenthesizedItem.areParameters items
  if c.inConditional && (← get).isMark .colon then
    let typed ← attempt do
      typeOrPredicate r c .colon
      expect .arrow
      if !areParameters then fail
      let hasBlock ← arrowBody r c isAsync
      if c.colonFollows then require (·.isMark .colon)
      return some (Expression.arrow hasBlock)
    if let some arrow := typed then return arrow
  let result? : Option Unit ←
    if !c.colonFollows && (← get).isMark .colon then attempt do
      typeOrPredicate r c .colon
      require (·.isMark .arrow)
      return some ()
    else pure none
  if items.any (·.isParameter) || result?.isSome || (← get).isMark .arrow then
    if (← get).afterLineEnd || !canBeArrow then fail
    expect .arrow
    if !areParameters then fail
    let hasBlock ← arrowBody r c isAsync
      if hasBlock && (← get).isOperatorMark then
      return ← operatorsRest r c (.arrow true) 0
    return .arrow hasBlock
  if isAsync then return .other
  if items.isEmpty || items.any (·.hasDots) then fail
  return .place

/-- An expression that begins with a name, which may be the one parameter of an
arrow function. -/
def nameOrArrow (r : Rules) (c : Context) (canBeArrow : Bool) : Reader Expression := do
  let name ← anyWord
  let state ← get
  if canBeArrow && !state.afterLineEnd then
    if name = "async".toList && state.isName then
      if c.inLoopHead && state.isWord "of" && !state.next.isMark .arrow then return .name name
      let parameter ← boundName false
      if parameter = "as".toList && !(← get).isMark .arrow then
        r.type c.type
        return .place
      expect .arrow
      return .arrow (← arrowBody r c true)
    if ← pass .arrow then return .arrow (← arrowBody r c false)
  return .name name

def wordExpression (r : Rules) (c : Context) (word : Text) (canBeArrow : Bool) :
    Reader Expression := do
  let state ← get
  if ["this", "null", "true", "false"].any state.isWord then
    advance
    return .other
  if state.isWord "function" then
    if !(← functionExpression r c false) then fail
    return .other
  if state.isWord "class" then
    discard (classRest r c false)
    return .other
  if state.isWord "async" then
    let next := state.next
    if next.isWord "function" && !next.afterLineEnd then
      advance
      if !(← functionExpression r c true) then fail
      return .other
    if canBeArrow && next.isMark .less then
      let arrow? ← attempt do
        advance
        genericAsyncArrow r c
      if let some arrow := arrow? then return arrow
    if canBeArrow && next.isMark .openParen && !next.afterLineEnd then
      advance
      return ← parenthesized r c canBeArrow true
  if isReserved word && word != "let".toList then fail
  nameOrArrow r c canBeArrow

/-- An expression without operators, members and calls. -/
def primary (r : Rules) (c : Context) : Reader Expression := do
  let state ← get
  let canBeArrow := state.arrowStart = some state.span.start
  match state.token with
  | .word word => wordExpression r c word canBeArrow
  | .name _ => nameOrArrow r c canBeArrow
  | .string value =>
    advance
    return .string value
  | .number =>
    advance
    return .number
  | .bigInteger =>
    advance
    return .other
  | .mark .openBracket => arrayLiteral r c
  | .mark .openBrace => objectLiteral r c
  | .mark .openParen => parenthesized r c canBeArrow false
  | .template .. =>
    templateLiteral r c false
    return .other
  | .mark .slash | .mark .dividingAssign =>
    regularExpression
    return .other
  | .mark .hash =>
    advance
    discard anyWord
    return .other
  | _ => fail

/-- What members and calls go on from. -/
inductive Callee where
  | value (value : Expression)
  | superclass
  | importing

/-- The name after a dot, which may be private. -/
def dottedName : Reader Unit := do
  if (← get).isMark .hash then privateName else discard anyWord

/-- What follows type arguments if they belong to an expression alone. -/
def endsInstantiation (state : State) : Bool :=
  if state.isAnyMark [.less, .greater, .plus, .minus, .openParen] || state.isTemplate then false
  else
    let startsOperand :=
      state.isName || state.isString || state.isNumeric ||
        state.isAnyMark [.openBracket, .slash, .hash, .tilde, .bang, .increment, .decrement] ||
        ["this", "super", "null", "true", "false", "function", "class", "new", "delete",
          "typeof", "void", "await", "yield"].any state.isWord ||
        (state.isWord "import" && state.next.isAnyMark [.openParen, .less, .dot])
    state.afterLineEnd || (state.operator? true).isSome || !startsOperand

/-- Type arguments that belong to an expression alone. -/
def instantiation (r : Rules) (c : Context) : Reader (Option Unit) :=
  attempt do
    typeArguments r c
    return if endsInstantiation (← get) then some () else none

/-- Type arguments after a value with what they are for: a call, a tagged
template, or the value itself. Returns whether members may follow. -/
def typedSubscript (r : Rules) (c : Context) (noCall : Bool) (value : Expression) :
    Reader (Option (Expression × Bool)) := do
  typeArguments r c
  let state ← get
  if !noCall && state.isMark .openParen then
    arguments r c
    return some (value.extended .other, true)
  if state.isTemplate then
    templateLiteral r c.bracketed true
    return some (.other, true)
  if state.isMark .assign || state.isWord "as" || state.isWord "satisfies" then
    return some (.place, false)
  fail

def optionalSubscript (r : Rules) (c : Context) : Reader Expression := do
  if ← pass .openBracket then
    discard (expression r c.bracketed)
    expect .closeBracket
    return .chain false
  if (← get).isAnyMark [.openParen, .less] then
    if (← get).isMark .less then typeArguments r c
    arguments r c
    return .chain false
  dottedName
  return .chain false

/-- How far the members and calls after a value go. -/
structure SubscriptRange where
  calls : Bool
  /-- Whether members may be named by expressions in brackets. -/
  brackets : Bool

/-- One member, call or other suffix after a value, or the value if there is
none. -/
def subscript (r : Rules) (c : Context) (range : SubscriptRange) (callee : Callee) :
    Reader (Callee ⊕ Expression) := do
  let state ← get
  if state.isMark .bang && !state.afterLineEnd then
    let .value value := callee | fail
    advance
    match value with
    | .chain _ => return .inl (.value (.chain true))
    | _ => return .inl (.value .place)
  let callee : Callee ←
    match callee with
    | .value value =>
      if !state.isMark .less then pure callee
      else
        match ← attempt (typedSubscript r c (!range.calls) value) with
        | some (value, true) => return .inl (.value value)
        | some (value, false) => return .inr value
        | none =>
          if (← instantiation r c).isSome then pure (Callee.value .place) else pure callee
    | .importing =>
      if state.isAnyMark [.dot, .openParen] then pure callee else fail
    | .superclass =>
      if state.isMark .less then discard (instantiation r c)
      require (!·.isChainSign)
      pure callee
  let extended (otherwise : Expression) : Callee ⊕ Expression :=
    match callee with
    | .value value => .inl (.value (value.extended otherwise))
    | _ => .inl (.value otherwise)
  if (← get).isChainSign then
    advance
    advance
    return .inl (.value (← optionalSubscript r c))
  if ← passWhen range.brackets (pass .openBracket) then
    discard (expression r c.bracketed)
    expect .closeBracket
    return extended .place
  let allowsCall :=
    match callee with
    | .importing => true
    | _ => range.calls
  if allowsCall && (← get).isMark .openParen then
    arguments r c
    return extended .other
  if ← pass .dot then
    match callee with
    | .superclass => discard anyWord
    | _ => dottedName
    return extended .place
  let .value value := callee | fail
  if (← get).isTemplate then
    templateLiteral r c.bracketed true
    return .inl (.value .other)
  return .inr value

/-- All members, calls and other suffixes after a value. -/
def subscripts (r : Rules) (c : Context) (noCall : Bool) (callee : Callee) : Reader Expression :=
  repeatStep (subscript r c ⟨!noCall, true⟩) callee

/-- A type that a class or an interface refers to: any word with members, and
type arguments. -/
def heritageType (r : Rules) (c : Context) : Reader Unit := do
  let name ← anyWord
  discard (repeatStep (subscript r c ⟨false, false⟩) (.value (.name name)))
  if (← get).isMark .less then typeArguments r c

/-- A call that imports a module, or the data of this one, after its word. -/
def importExpression (r : Rules) (c : Context) (noCall : Bool) : Reader Expression := do
  if ← pass .dot then
    let name ← anyWord
    if name = "meta".toList then subscripts r c noCall (.value .other)
    else if name = "source".toList || name = "defer".toList then
      subscripts r c noCall .importing
    else fail
  else subscripts r c noCall .importing

/-- Type arguments with arguments after them. -/
def typeArgumentsOfCall (r : Rules) (c : Context) : Reader (Option Unit) :=
  attempt do
    typeArguments r c
    require (·.isMark .openParen)
    return some ()

/-- A member expression or construction. After the word that constructs,
arguments belong to that construction. -/
def memberOrConstruction (r : Rules) (c : Context) (isConstructed : Bool) :
    Reader Expression := do
  if ← passWord "new" then
    if ← pass .dot then
      expectWord "target"
      return ← subscripts r c true (.value .other)
    let callee ← r.constructed c
    if callee.isArrow then return callee
    if let .chain false := callee then fail
    if (← get).isMark .less then discard (typeArgumentsOfCall r c)
    let hasArguments := (← get).isMark .openParen
    if hasArguments then
      arguments r c
      return ← subscripts r c true (.value .other)
    if isConstructed then return .construction
    return ← subscripts r c true (.value .construction)
  if ← passWord "super" then return ← subscripts r c true .superclass
  if ← passWord "import" then return ← importExpression r c true
  let value ← primary r c
  if value.isArrow then return value
  let isInstantiated : Bool ←
    if (← get).isMark .less then (·.isSome) <$> instantiation r c else pure false
  subscripts r c true (.value (if isInstantiated then .place else value))

/-- Members, calls and constructions. -/
def leftHandSide (r : Rules) (c : Context) : Reader Expression := do
  if ← passWord "super" then return ← subscripts r c false .superclass
  if ← passWord "import" then return ← importExpression r c false
  let callee ← memberOrConstruction r c false
  if callee.isArrow then return callee
  let typed : Bool ←
    if (← get).isMark .less then (·.isSome) <$> typeArgumentsOfCall r c else pure false
  match callee with
  | .construction => if typed then fail else return callee
  | _ =>
    if (← get).isMark .openParen then
      arguments r c
      return ← subscripts r c false (.value (callee.extended .other))
    return callee

/-- A wait for a value, after its word. Outside of asynchronous functions the
word is a name if no value follows. -/
def awaitExpression (r : Rules) (c : Context) : Reader Expression := do
  let state ← get
  if state.isMark .star then fail
  if !c.inAsync && (state.isAnyMark [.closeParen, .closeBracket] || state.endsStatement) then
    return .name "await".toList
  discard (r.unary c)
  return .await

/-- An operand of a binary operator, with the operators that stand before or
right after it. An operand missing after a sign is forgiven. -/
def unaryExpression (r : Rules) (c : Context) : Reader Expression := do
  let state ← get
  if ← pass .less then
    if ← passWord "const" then
      expect .greater
      discard (r.unary c)
      return .other
    r.type c.type
    expect .greater
    discard (r.unary c)
    return .place
  if state.isAnyMark [.increment, .decrement] then
    advance
    discard (r.unary c)
    return .operation
  if state.isAnyMark [.plus, .minus, .tilde, .bang] ||
      ["delete", "void", "typeof"].any state.isWord then
    advance
    discard (recovering Expression.other (r.unary c))
    return .unary
  if ← passWord "await" then return ← awaitExpression r c
  let value ← leftHandSide r c
  if value.isArrow || (← get).afterLineEnd then return value
  if (← get).isAnyMark [.increment, .decrement] then
    advance
    return .operation
  return value

/-- Whether a token can begin an expression, for what a generator gives out. -/
def startsExpression (state : State) : Bool :=
  match state.token with
  | .string _ | .number | .bigInteger | .template .. | .name _ => true
  | .mark m =>
    [Mark.openParen, .openBracket, .openBrace, .bang, .tilde, .plus, .minus, .increment,
      .decrement, .less, .slash, .dividingAssign].contains m
  | .word name =>
    !isKeyword name ||
      ["class", "delete", "false", "function", "import", "new", "null", "super", "this", "true",
        "typeof", "void"].any state.isWord
  | _ => false

/-- What a generator gives out, after its word. -/
def yieldExpression (r : Rules) (c : Context) : Reader Expression := do
  let state ← get
  if state.endsStatement || !(state.isMark .star || startsExpression state) then return .other
  discard (pass .star)
  discard (r.assignment c)
  return .other

/-- An expression without commas that does not begin with type parameters. -/
def plainAssignment (r : Rules) (c : Context) : Reader Expression := do
  require (!·.isInvalid)
  let state ← get
  if ← passWhen c.inGenerator (passWord "yield") then return ← yieldExpression r c
  let mayBeArrow :=
    match state.token with
    | .mark .openParen => true
    | .word name => !isReserved name || name = "yield".toList
    | .name _ => true
    | _ => false
  modify fun s => { s with arrowStart := if mayBeArrow then some s.span.start else none }
  let test ← binary r c
  if test.isArrow then return test
  let value : Expression ←
    if ← pass .question then
      conditionalRest r c
      pure Expression.operation
    else pure test
  match value with
  | .operation | .unary => return value
  | _ => assignmentRest r c value

/-- An arrow function with type parameters. -/
def genericArrow (r : Rules) (c : Context) : Reader (Option Expression) :=
  attempt do
    let inside := { c with colonFollows := false }
    typeParameters r inside
    let value ← plainAssignment r inside
    return if value.isArrow then some value else none

def assignmentExpression (r : Rules) (c : Context) : Reader Expression := do
  let state ← get
  if state.isMark .less && state.next.isAnyWord then
    if let some arrow := ← genericArrow r c then return arrow
  plainAssignment r c

end TypedComponent.Script
