import TypedComponent.Script.Reader
import TypedComponent.Script.Tree

/-!
The rules of the grammar refer to each other through the few goals below. Each
rule is a plain function of the readers for all goals, and the readers come
about by iterating the rules: a reader of depth `n + 1` uses readers of depth
`n` wherever a rule refers to a goal. Between two references the reader passes
a token, so a depth of a few times the length of the script is always enough.
-/

namespace TypedComponent.Script

/-- What surrounds a place in a script, as far as reading depends on it. -/
structure Context where
  /-- Whether the operator `in` may appear; not so in the head of a loop, and
  only where an expression is expected. -/
  allowIn : Bool
  inGenerator : Bool
  inAsync : Bool
  /-- Whether this is a declaration without a definition. -/
  ambient : Bool
  inConditional : Bool
  /-- Whether a colon must follow, as after the second part of a conditional. -/
  colonFollows : Bool
  inLoopHead : Bool
  /-- Whether imports and exports may appear. -/
  topLevel : Bool
  /-- Whether a type may be conditional. -/
  conditionalTypes : Bool
deriving DecidableEq, Repr

namespace Context

/-- The top level of a module. -/
def module : Context :=
  { allowIn := false, inGenerator := false, inAsync := false, ambient := false
    inConditional := false, colonFollows := false, inLoopHead := false, topLevel := true
    conditionalTypes := true }

def bracketed (c : Context) : Context := { c with allowIn := true, colonFollows := false }

def function (c : Context) (inAsync inGenerator : Bool) : Context :=
  { c with inAsync, inGenerator, inConditional := false, inLoopHead := false, topLevel := false
           colonFollows := false }

def type (c : Context) : Context := { c with conditionalTypes := true }

end Context

/-- Expressions, as far as their form decides how to read on. -/
inductive Expression where
  | name (name : Text)
  /-- Something else that may be assigned to: a member of an object, anything in
  parentheses, or such a thing seen as another type. -/
  | place
  /-- What an optional chain ends with. If `asserted`, a mark after it says that
  it has a value. -/
  | chain (asserted : Bool)
  /-- An array literal, with the items that have to be patterns if it is one. -/
  | array (items : List Expression)
  /-- An object literal with the values of its properties and what is spread into
  it. It is plain if no property is a method or accessor. -/
  | object (values spreads : List Expression) (plain : Bool)
  | assignment (sign : Tree.AssignmentSign) (target : Tree.AssignmentTarget)
      (value : Tree.Expression)
  /-- An arrow function, with a block for a body or an expression. -/
  | arrow (hasBlock : Bool)
  /-- A construction without arguments. -/
  | construction
  /-- What begins with an operator. -/
  | unary
  | await
  /-- What joins operands: binary and conditional operators, increments. -/
  | operation
  | number
  | string (value : Text)
  | other
deriving Repr

namespace Expression

def isArrow : Expression → Bool
  | arrow _ => true
  | _ => false

def isName : Expression → Bool
  | name _ => true
  | _ => false

mutual

/-- Whether an expression can be read again as a pattern that binds names, or
else as one that assigns. Only methods and accessors cannot. What is spread into
an object is not looked at where names are bound. -/
def isPattern (binds : Bool) : Expression → Bool
  | array items => areAllPatterns binds items
  | object values spreads plain =>
    plain && areAllPatterns binds values && (binds || areAllPatterns binds spreads)
  | _ => true

def areAllPatterns (binds : Bool) : List Expression → Bool
  | [] => true
  | first :: others => first.isPattern binds && areAllPatterns binds others

end

/-- Whether an assignment sign that computes may follow. -/
def isPlace : Expression → Bool
  | name _ | place | chain _ => true
  | _ => false

/-- Whether the plain assignment sign may follow. -/
def isAssignable (e : Expression) : Bool :=
  match e with
  | array _ | object .. => e.isPattern false
  | _ => e.isPlace

/-- A member or a call of an expression, which goes on with a chain and is
`otherwise` where there is none. -/
def extended (e otherwise : Expression) : Expression :=
  match e with
  | chain _ => chain false
  | _ => otherwise

/-- What an assignment to the expression assigns to. -/
def target : Expression → Tree.AssignmentTarget
  | name n => .name n
  | _ => .other

/-- The expression in the syntax tree. -/
def tree : Expression → Tree.Expression
  | name n => .name n
  | number => .number
  | string value => .string value
  | assignment sign target value => .assignment sign target value
  | _ => .other

end Expression

/-- What the rules refer to, by the value it is read as. -/
inductive Goal : Type → Type where
  /-- An expression without commas outside of brackets. -/
  | assignment (c : Context) : Goal Expression
  /-- An operand of a binary operator. -/
  | unary (c : Context) : Goal Expression
  /-- Binary operators stronger than a bound, after their left operand. -/
  | operators (c : Context) (left : Expression) (strength : Nat) : Goal Expression
  /-- Members, calls and constructions, without operators. -/
  | leftHandSide (c : Context) : Goal Expression
  /-- A member expression after the word that constructs. -/
  | constructed (c : Context) : Goal Expression
  | type (c : Context) : Goal Unit
  /-- A type that a type operator may stand before. -/
  | typeOperand (c : Context) : Goal Unit
  | binding (c : Context) : Goal Tree.Pattern
  /-- A type that a class or an interface refers to. -/
  | heritage (c : Context) : Goal Unit
  /-- A statement, or an import or export at the top level. -/
  | item (c : Context) (allowDeclaration : Bool) : Goal Tree.Item

structure Rules where
  read : {α : Type} → Goal α → Reader α

namespace Rules

def assignment (r : Rules) (c : Context) : Reader Expression := r.read (.assignment c)

def unary (r : Rules) (c : Context) : Reader Expression := r.read (.unary c)

def operators (r : Rules) (c : Context) (left : Expression) (strength : Nat) :
    Reader Expression :=
  r.read (.operators c left strength)

def leftHandSide (r : Rules) (c : Context) : Reader Expression := r.read (.leftHandSide c)

def constructed (r : Rules) (c : Context) : Reader Expression := r.read (.constructed c)

def type (r : Rules) (c : Context) : Reader Unit := r.read (.type c)

def typeOperand (r : Rules) (c : Context) : Reader Unit := r.read (.typeOperand c)

def binding (r : Rules) (c : Context) : Reader Tree.Pattern := r.read (.binding c)

def heritage (r : Rules) (c : Context) : Reader Unit := r.read (.heritage c)

def item (r : Rules) (c : Context) (allowDeclaration : Bool) : Reader Tree.Item :=
  r.read (.item c allowDeclaration)

end Rules

end TypedComponent.Script
