import TypedComponent.Text.Span

/-!
The tree of a component's markup. It keeps elements with their attributes and
leaves expressions and text as spans of the source.
-/

namespace TypedComponent.Markup

/-- One part of an attribute's value. -/
inductive Fragment where
  | text (span : Span) (raw : Text)
  /-- An expression in braces; `inner` is the span between the braces. -/
  | expression (span inner : Span)
deriving DecidableEq, Repr

inductive Attribute where
  /-- An attribute with a name. Without a value it has no fragments; an empty
  value in quotes is one empty text. -/
  | named (span : Span) (name : Text) (values : List Fragment)
  /-- All properties of an expression, whose span is `inner`. -/
  | spread (span inner : Span)
deriving DecidableEq, Repr

/-- What an expression in braces is for, by the sign after the brace. -/
inductive MustacheKind where
  | expression
  | blockOpen
  | blockContinue
  | blockClose
  | special
deriving DecidableEq, Repr

inductive Node where
  | element (span : Span) (name : Text) (attributes : List Attribute) (selfClosing : Bool)
      (children : List Node)
  | text (span : Span) (blank : Bool)
  | comment (span : Span)
  /-- An expression in braces; `inner` is its span without braces and sign. -/
  | mustache (span inner : Span) (kind : MustacheKind)
deriving Repr

namespace Fragment

def span : Fragment → Span
  | text span _ | expression span _ => span

end Fragment

namespace Attribute

def span : Attribute → Span
  | named span .. | spread span _ => span

/-- The value's first fragment if that is text. -/
def leadingText? : List Fragment → Option Text
  | .text _ raw :: _ => some raw
  | _ => none

/-- The leading text of the first attribute of a name that has one. -/
def textOf? (name : Text) (attributes : List Attribute) : Option Text :=
  attributes.findSome? fun
    | named _ own values => if own = name then leadingText? values else none
    | spread .. => none

/-- The first attribute of a name, by its span and its value. -/
def find? (name : Text) (attributes : List Attribute) : Option (Span × List Fragment) :=
  attributes.findSome? fun
    | named span own values => if own = name then some (span, values) else none
    | spread .. => none

/-- The leading text of the first attribute of a name. -/
def firstText? (name : Text) (attributes : List Attribute) : Option Text :=
  (find? name attributes).bind (leadingText? ·.2)

/-- Whether an attribute of that name stands without a value. -/
def isBare (name : Text) (attributes : List Attribute) : Bool :=
  attributes.any fun
    | named _ own values => own = name && values.isEmpty
    | spread .. => false

end Attribute

namespace Node

def span : Node → Span
  | element span .. | text span _ | comment span | mustache span .. => span

/-- The attributes of an element; other nodes have none. -/
def attributes : Node → List Attribute
  | element _ _ attributes _ _ => attributes
  | _ => []

mutual

/-- A node and all that is inside it, parents before children. -/
def family : Node → List Node
  | element span name attributes selfClosing children =>
    element span name attributes selfClosing children :: familyOfAll children
  | text span blank => [text span blank]
  | comment span => [comment span]
  | mustache span inner kind => [mustache span inner kind]

/-- The families of several nodes, one after another. -/
def familyOfAll : List Node → List Node
  | [] => []
  | first :: others => first.family ++ familyOfAll others

end

end Node

/-- The name of the elements that take content from outside the component. -/
def slotName : Text := "slot".toList

inductive ScriptLanguage where
  | javaScript
  | typeScript
deriving DecidableEq, Repr

/-- Whether a script runs once per module or once per component instance. -/
inductive ScriptContext where
  | perInstance
  | perModule
deriving DecidableEq, Repr

/-- A top-level script block. -/
structure ScriptBlock where
  span : Span
  content : Span
  language : ScriptLanguage
  context : ScriptContext
  attributes : List Attribute
deriving Repr

/-- A top-level style block. -/
structure StyleBlock where
  span : Span
  content : Span
  attributes : List Attribute
deriving Repr

/-- A component's source taken apart: its blocks, and the markup that is left. -/
structure Document where
  span : Span
  nodes : List Node
  scripts : List ScriptBlock
  styles : List StyleBlock
deriving Repr

namespace Node

/-- Whether a node is an element that takes content from outside. -/
def isSlot : Node → Bool
  | element _ name _ _ _ => name = slotName
  | _ => false

def isComment : Node → Bool
  | comment _ => true
  | _ => false

end Node

namespace Document

/-- The nodes at any depth, parents before children. -/
def allNodes (document : Document) : List Node := Node.familyOfAll document.nodes

/-- The first script that runs for every instance. -/
def instanceScript? (document : Document) : Option ScriptBlock :=
  document.scripts.find? (·.context = .perInstance)

/-- The first script that runs once for the module. -/
def moduleScript? (document : Document) : Option ScriptBlock :=
  document.scripts.find? (·.context = .perModule)

end Document

end TypedComponent.Markup
