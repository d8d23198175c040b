import TypedComponent.Script.Grammar.Statement
import TypedComponent.Script.Parser

/-!
A parser to run the library with. `readerOf n` reads every goal with references
nested up to `n` deep, and a script is read with a depth that its length cannot
exhaust. No other module refers to it: what is said of components holds with any
parser.
-/

namespace TypedComponent.Script

def rule (r : Rules) : {α : Type} → Goal α → Reader α
  | _, .assignment c => assignmentExpression r c
  | _, .unary c => unaryExpression r c
  | _, .operators c left strength => operatorsRest r c left strength
  | _, .leftHandSide c => leftHandSide r c
  | _, .constructed c => memberOrConstruction r c true
  | _, .type c => anyType r c
  | _, .typeOperand c => operandType r c
  | _, .binding c => bindingTarget r c
  | _, .heritage c => heritageType r c
  | _, .item c allowDeclaration => item r c allowDeclaration

/-- Readers for all goals that nest references up to a depth. -/
def readerOf : Nat → {α : Type} → Goal α → Reader α
  | 0, _, _ => Reader.fail
  | depth + 1, _, goal => rule ⟨fun goal => readerOf depth goal⟩ goal

def items (depth : Nat) : Reader (List Tree.Item) :=
  Reader.repeatStep (fun (found : List Tree.Item) => do
    if (← get).isFinished then return .inr found.reverse
    return .inl ((← readerOf depth (.item .module true)) :: found)) []

/-- The items of a script, counted from its first byte. The error is always
about the token that does not fit. -/
def bundledParser : Parser where
  base := 0
  parse content :=
    match items (4 * content.length + 16) (State.ofContent content) with
    | .ok (found, _) => .ok found
    | .error stopped => .error ⟨"Unexpected token".toList, stopped.span.start⟩

end TypedComponent.Script
