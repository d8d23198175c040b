import TypedComponent.Script.Grammar.Rules

/-!
Names of properties, binding patterns and the parameters of functions.
-/

namespace TypedComponent.Script

open Reader

/-- Passes one of some words if what follows can be modified. Only a word may
stand on another line. -/
def passModifier (words : List String) : Reader (Option Text) :=
  attempt do
    let state ← get
    if !words.any state.isWord then return none
    let word ← anyWord
    require fun s => s.isAnyWord ||
      (!s.afterLineEnd && (s.isString || s.isNumeric ||
        s.isAnyMark [.openBracket, .openBrace, .star, .ellipsis, .hash]))
    return some word

def passParameterModifier : Reader Bool := do
  let next := (← get).next
  if next.isAnyWord || next.isMark .openBrace || next.isMark .openBracket then
    return (← passModifier ["public", "protected", "private", "readonly"]).isSome
  return false

namespace Tree.PropertyKey

/-- Whether the key is this word, and no literal. -/
def isWord (key : PropertyKey) (name : String) : Bool := key = .word name.toList

/-- Whether the key is this name, as a word or as a string. -/
def isNamed (key : PropertyKey) (name : String) : Bool :=
  key.isWord name || key = .string name.toList

end Tree.PropertyKey

/-- The name of a property: a word, a literal or an expression in brackets. -/
def propertyName (r : Rules) (c : Context) : Reader Tree.PropertyKey := do
  let state ← get
  match state.token with
  | .word name | .name name =>
    advance
    return .word name
  | .string value =>
    advance
    return .string value
  | .number | .bigInteger =>
    advance
    return .number
  | .mark .openBracket =>
    advance
    repeatStep (fun (_ : Unit) => do
      discard (r.assignment c.bracketed)
      return if ← pass .comma then .inl () else .inr ()) ()
    expect .closeBracket
    return .computed
  | _ => fail

/-- A private name from its sign on. -/
def privateName : Reader Unit := do
  expect .hash
  require (·.isAdjacent)
  discard anyWord

def bindingElement (r : Rules) (c : Context) : Reader Tree.Pattern := do
  let target ← r.binding c
  if ← pass .assign then
    let value ← r.assignment { c with allowIn := true }
    return .withDefault target value.tree
  return target

/-- An array pattern, after its opening bracket. -/
def arrayPattern (r : Rules) (c : Context) : Reader Tree.Pattern := do
  let elements ← repeatStep (fun (elements : List (Option Tree.Pattern)) => do
    if ← pass .closeBracket then return .inr elements.reverse
    if ← pass .comma then return .inl (none :: elements)
    let element ←
      if ← pass .ellipsis then (.rest ·) <$> r.binding c else bindingElement r c
    if !(← get).isMark .closeBracket then expect .comma
    return .inl (some element :: elements)) []
  if c.ambient then discard (pass .question)
  return .array elements

def patternProperty (r : Rules) (c : Context) : Reader Tree.PatternProperty := do
  if ← pass .ellipsis then return .rest (← r.binding c)
  let key ← propertyName r c
  if ← pass .colon then return .keyed key (← bindingElement r c)
  let .word name := key | fail
  if ← pass .assign then
    let value ← r.assignment { c with allowIn := true }
    return .shorthand name (some value.tree)
  return .shorthand name none

/-- An object pattern, after its opening brace. -/
def objectPattern (r : Rules) (c : Context) : Reader Tree.Pattern := do
  let properties ← commaList .closeBrace (patternProperty r c)
  expect .closeBrace
  if c.ambient then discard (pass .question)
  return .object properties

def bindingTarget (r : Rules) (c : Context) : Reader Tree.Pattern := do
  if ← pass .openBracket then return ← arrayPattern r c
  if ← pass .openBrace then return ← objectPattern r c
  return .name (← boundName c.ambient)

def optionalType (r : Rules) (c : Context) : Reader Unit := do
  if ← pass .colon then r.type c.type

/-- One parameter that gathers no rest. -/
def plainParameter (r : Rules) (c : Context) : Reader Tree.Pattern := do
  discard passParameterModifier
  let target ← bindingElement r c
  if ← pass .question then
    match target with
    | .withDefault .. => if !c.ambient then fail
    | _ => pure ()
  optionalType r c
  if ← pass .assign then
    let value ← r.assignment { c with allowIn := true }
    return .withDefault target value.tree
  return target

/-- One parameter. A default value of the rest and its being optional are
forgiven. -/
def parameter (r : Rules) (c : Context) : Reader Tree.Pattern := do
  if ← pass .ellipsis then
    let target ← r.binding c
    if ← pass .assign then discard (r.assignment c)
    optionalType r c
    discard (pass .question)
    return .rest target
  plainParameter r c

/-- The parameters of a function, up to the closing parenthesis. -/
def parameters (r : Rules) (c : Context) : Reader (List Tree.Pattern) :=
  commaList .closeParen (parameter r c)

end TypedComponent.Script
