import TypedComponent.Script.Grammar.Type

/-!
Functions from their parameters on, and blocks of statements. A block that the
end of the script cuts off counts as closed there.
-/

namespace TypedComponent.Script

open Reader

/-- Statements up to a closing brace, after the opening one. -/
def blockRest (r : Rules) (c : Context) : Reader Unit :=
  repeatStep (fun (_ : Unit) => do
    if (← pass .closeBrace) || (← get).isFinished then return .inr ()
    discard (r.item c true)
    return .inl ()) ()

def block (r : Rules) (c : Context) : Reader Unit := do
  expect .openBrace
  blockRest r c

/-- A function's body, or the end of a declaration without one. Returns whether
there is a body. -/
def functionBody (r : Rules) (c : Context) : Reader Bool := do
  if ← passWhen (!(← get).isMark .openBrace) passEnd then return false
  block r { c with allowIn := true }
  return true

/-- A function from its type parameters on. A generator gives out nothing in its
parameters. -/
def functionRest (r : Rules) (c : Context) (isAsync isGenerator : Bool) : Reader Bool := do
  let inside := c.function isAsync isGenerator
  optionalTypeParameters r c
  expect .openParen
  discard (parameters r { inside with inGenerator := false })
  expect .closeParen
  if (← get).isMark .colon then typeOrPredicate r inside .colon
  functionBody r inside

/-- A function that is declared by name, from its word on. -/
def functionDeclaration (r : Rules) (c : Context) (isAsync : Bool) : Reader Text := do
  expectWord "function"
  let isGenerator ← pass .star
  let name ← boundName c.ambient
  discard (functionRest r c isAsync isGenerator)
  return name

/-- A function from its word on, whose name may be missing. -/
def functionExpression (r : Rules) (c : Context) (isAsync : Bool) : Reader Bool := do
  expectWord "function"
  let isGenerator ← pass .star
  if (← get).isName then discard (boundName c.ambient)
  functionRest r c isAsync isGenerator

/-- What follows the arrow of an arrow function: a block or an expression.
Returns whether it is a block. -/
def arrowBody (r : Rules) (c : Context) (isAsync : Bool) : Reader Bool := do
  if (← get).isMark .openBrace then
    block r (c.function isAsync false)
    return true
  discard (r.assignment { c with inAsync := isAsync, inGenerator := false })
  return false

/-- An asynchronous arrow function from its type parameters on. -/
def genericAsyncArrow (r : Rules) (c : Context) : Reader (Option Expression) := do
  let inside := c.function true false
  let head ← attempt do
    typeParameters r c
    expect .openParen
    discard (parameters r inside)
    expect .closeParen
    if (← get).isMark .colon then typeOrPredicate r inside .colon
    expect .arrow
    return some ()
  match head with
  | none => return none
  | some () => return some (.arrow (← arrowBody r c true))

end TypedComponent.Script
