import TypedComponent.Component.Error
import TypedComponent.Component.Registry
import TypedComponent.Markup.Tree
import TypedComponent.Text.Quoted

/-!
The slots of a component and the props that each of them hands over. An
attribute's value becomes one expression, and the slots become the object
whose type tells a consumer what to expect.
-/

namespace TypedComponent.Component

open Markup (Fragment Attribute Node)

/-- The props of each slot: the text of an expression under each name. -/
abbrev Slots := Registry (Registry Text)

/-- A fragment as an operand of an addition. -/
def operand (source : Text) : Fragment → Text
  | .text _ raw => Text.quoted raw
  | .expression _ inner => '(' :: (Text.slice source inner ++ [')'])

/-- The operands that add up to a value of several fragments. An empty literal
in front of an expression makes the sum a text. -/
def operands (source : Text) (values : List Fragment) : List Text :=
  match values with
  | .expression .. :: _ => Text.quoted [] :: values.map (operand source)
  | _ => values.map (operand source)

/-- An attribute's value as one expression. An expression that stands alone
keeps its own type. -/
def valueExpression (source : Text) (values : List Fragment) : Text :=
  match values with
  | [] => []
  | [.text _ raw] => Text.quoted raw
  | [.expression _ inner] => Text.slice source inner
  | _ => Text.join ['+'] (operands source values)

/-- The attribute that gives a slot its name. -/
def nameAttribute : Text := "name".toList

/-- The name of a slot without a name. -/
def defaultSlot : Text := "default".toList

/-- The name in a slot's attributes, which must be one plain text. -/
def slotName (attributes : List Attribute) : Except Error Text :=
  match Attribute.find? nameAttribute attributes with
  | none => .ok defaultSlot
  | some (_, [.text _ raw]) => .ok raw
  | some (span, _) => .error (.malformedSlotAttribute defaultSlot nameAttribute span.start)

/-- The prop that an attribute of a slot hands over. The name is none, nor is
an attribute without a value. -/
def slotProp? (source : Text) : Attribute → Option (Text × Text)
  | .named _ name values =>
    if name = nameAttribute ∨ values = [] then none
    else some (name, valueExpression source values)
  | .spread .. => none

/-- The props that a slot with these attributes hands over. -/
def slotProps (source : Text) (attributes : List Attribute) : Registry Text :=
  .ofList (attributes.filterMap (slotProp? source))

namespace Slots

/-- Adds a slot. A slot of a known name takes the place of the earlier one. -/
def add (source : Text) (slots : Slots) (slot : Node) : Except Error Slots :=
  (slotName slot.attributes).map fun name =>
    slots.insert name (slotProps source slot.attributes)

/-- The slots at any depth of some markup. -/
def ofNodes (source : Text) (nodes : List Node) : Except Error Slots :=
  ((Node.familyOfAll nodes).filter Node.isSlot).foldlM (add source) .empty

/-- The props of one slot as they are written in an object. -/
def propsEntry (prop : Text × Text) : Text :=
  Text.objectKey prop.1 ++ ':' :: prop.2

def slotEntry (slot : Text × Registry Text) : Text :=
  Text.objectKey slot.1 ++ ": ".toList ++
    Text.inBraces (Text.join ", ".toList (slot.2.entries.map propsEntry))

/-- The slots as one object of objects. -/
def written (slots : Slots) : Text :=
  Text.inBraces (Text.join ", ".toList (slots.entries.map slotEntry))

end Slots

end TypedComponent.Component
