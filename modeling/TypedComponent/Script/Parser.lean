import TypedComponent.Script.Tree

/-!
Reading scripts is left to a parser from elsewhere. All that is used of it is
the tree or the error that it has for a text.
-/

namespace TypedComponent.Script

/-- Why a text is no script, and where that shows. -/
structure SyntaxError where
  message : Text
  start : Nat
deriving DecidableEq, Repr

structure Parser where
  /-- The position of the first byte of a script. -/
  base : Nat
  parse : Text → Except SyntaxError (List Tree.Item)

end TypedComponent.Script
