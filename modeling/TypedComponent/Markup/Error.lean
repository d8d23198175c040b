import TypedComponent.Text.Span

/-!
What can be wrong with markup. Reading goes on after each of these, so a
document comes with a list of them.
-/

namespace TypedComponent.Markup

/-- What is wrong with an attribute. -/
inductive AttributeFault where
  /-- A token that begins no attribute, as messages call it. -/
  | unexpectedToken (shown : String)
  | missingValue
  | emptyShorthand
deriving DecidableEq, Repr

namespace AttributeFault

def message : AttributeFault → String
  | unexpectedToken shown => s!"unexpected {shown}"
  | missingValue => "missing attribute value"
  | emptyShorthand => "empty shorthand attribute"

end AttributeFault

inductive Fault where
  | unexpectedEnd (expected : String)
  | unclosedTag (name : Text)
  | mismatchedClosingTag (expected found : Text)
  | unexpectedClosingTag (name : Text)
  | unclosedExpression
  | invalidAttribute (message : String)
deriving DecidableEq, Repr

namespace Fault

def message : Fault → String
  | unexpectedEnd expected => s!"unexpected end of file: expected {expected}"
  | unclosedTag name => "unclosed tag: <" ++ String.ofList name ++ ">"
  | mismatchedClosingTag expected found =>
    "mismatched closing tag: expected </" ++ String.ofList expected ++ ">, found </" ++
      String.ofList found ++ ">"
  | unexpectedClosingTag name => "unexpected closing tag </" ++ String.ofList name ++ ">"
  | unclosedExpression => "unclosed expression"
  | invalidAttribute message => s!"invalid attribute: {message}"

end Fault

/-- A fault and where it is. -/
structure Error where
  fault : Fault
  span : Span
deriving DecidableEq, Repr

end TypedComponent.Markup
