import TypedComponent.Component.Slots
import TypedComponent.Proofs.Component.Registry

/-!
What the slots of some markup come to, said without the way in which they are
gathered: which of them is refused, and else under which names and in which
order they stand, and which props each of these names hands over.
-/

namespace TypedComponent

namespace Registry

variable {α : Type}

/-- Each name of a list once, in the order in which the names first occur, with
the value that the list has last for it. -/
def lastEntries (entries : List (Text × α)) : List (Text × α) :=
  (entries.map Prod.fst).eraseDups.filterMap fun name => entries.reverse.find? (·.1 = name)

theorem entries_ofList (entries : List (Text × α)) :
    (ofList entries).entries = lastEntries entries := by
  rw [entries_eq (nodup_names_ofList entries), names_ofList, lastEntries]
  congr 1
  funext name
  rw [find?_ofList_last]
  cases hfound : entries.reverse.find? (·.1 = name) with
  | none => rfl
  | some entry =>
    have hname : entry.1 = name := by simpa using List.find?_some hfound
    rw [← hname]
    rfl

end Registry

namespace Component

open Markup (Attribute Fragment Node)

mutual

/-- The slots inside a node, the node itself in front. -/
def slotsWithin : Node → List Node
  | .element span name attributes selfClosing children =>
    if name = Markup.slotName then
      .element span name attributes selfClosing children :: slotsAmong children
    else slotsAmong children
  | .text .. | .comment _ | .mustache .. => []

/-- The slots inside some nodes, one node after another. -/
def slotsAmong : List Node → List Node
  | [] => []
  | node :: others => slotsWithin node ++ slotsAmong others

end

mutual

theorem slotsWithin_eq (node : Node) : slotsWithin node = node.family.filter Node.isSlot := by
  cases node with
  | element span name attributes selfClosing children =>
    rw [slotsWithin, Node.family, slotsAmong_eq children]
    by_cases hname : name = Markup.slotName <;> simp [Node.isSlot, hname]
  | text span blank => simp [slotsWithin, Node.family, Node.isSlot]
  | comment span => simp [slotsWithin, Node.family, Node.isSlot]
  | mustache span inner kind => simp [slotsWithin, Node.family, Node.isSlot]

theorem slotsAmong_eq (nodes : List Node) :
    slotsAmong nodes = (Node.familyOfAll nodes).filter Node.isSlot := by
  cases nodes with
  | nil => rfl
  | cons node others =>
    rw [slotsAmong, Node.familyOfAll, List.filter_append, slotsWithin_eq node, slotsAmong_eq others]

end

def isPlainText : List Fragment → Bool
  | [.text ..] => true
  | _ => false

/-- The first attribute called `name`, if its value is not one plain text. -/
def misnaming? (slot : Node) : Option Span :=
  ((Attribute.find? nameAttribute slot.attributes).filter (!isPlainText ·.2)).map Prod.fst

/-- The name of a slot that is well named. -/
def givenName (slot : Node) : Text :=
  match Attribute.find? nameAttribute slot.attributes with
  | some (_, [.text _ raw]) => raw
  | _ => defaultSlot

/-- The attributes of a slot that hand something over: those with a name other
than `name` and at least one fragment. -/
def handedOver (source : Text) (slot : Node) : List (Text × Text) :=
  slot.attributes.filterMap fun
    | .named _ name (first :: rest) =>
      if name = nameAttribute then none else some (name, valueExpression source (first :: rest))
    | .named _ _ [] | .spread .. => none

/-- The props of a slot. -/
def propsOf (source : Text) (slot : Node) : Registry Text :=
  ⟨Registry.lastEntries (handedOver source slot)⟩

theorem slotName_eq (slot : Node) :
    slotName slot.attributes =
      match misnaming? slot with
      | some span => .error (.malformedSlotAttribute defaultSlot nameAttribute span.start)
      | none => .ok (givenName slot) := by
  unfold slotName misnaming? givenName
  cases Attribute.find? nameAttribute slot.attributes with
  | none => rfl
  | some found =>
    obtain ⟨span, values⟩ := found
    match values with
    | [] | .expression .. :: _ | [.text ..] | .text .. :: _ :: _ => rfl

theorem slotProps_eq (source : Text) (slot : Node) :
    slotProps source slot.attributes = propsOf source slot := by
  have hprops : slotProp? source = fun
      | .named _ name (first :: rest) =>
        if name = nameAttribute then none else some (name, valueExpression source (first :: rest))
      | .named _ _ [] | .spread .. => none := by
    funext attr
    match attr with
    | .named _ _ [] | .named _ _ (_ :: _) | .spread .. => simp [slotProp?]
  rw [slotProps, hprops]
  exact congrArg Registry.mk (Registry.entries_ofList (handedOver source slot))

/-- Slots are added one after another up to the first that is not well named. -/
theorem foldlM_add (source : Text) (slots : List Node) (known : Slots) :
    slots.foldlM (Slots.add source) known =
      match slots.findSome? misnaming? with
      | some span => .error (.malformedSlotAttribute defaultSlot nameAttribute span.start)
      | none => .ok ((slots.map fun slot => (givenName slot, propsOf source slot)).foldl
          (fun registry entry => registry.insert entry.1 entry.2) known) := by
  induction slots generalizing known with
  | nil => rfl
  | cons slot rest ih =>
    rw [List.foldlM_cons, Slots.add, slotName_eq, slotProps_eq, List.findSome?_cons]
    cases misnaming? slot with
    | some span => rfl
    | none => exact ih _

/-- Gathering the slots of some markup fails for the first slot whose first
attribute called `name` is not one plain text. Else it has each name once, in
the order in which the slots come, with the props of the last slot of that name;
and these are each attribute with a value once, in the order of the attributes,
with the expression of the last of its name. -/
theorem ofNodes_lastEntries (source : Text) (nodes : List Node) :
    Slots.ofNodes source nodes =
      match (slotsAmong nodes).findSome? misnaming? with
      | some span => .error (.malformedSlotAttribute defaultSlot nameAttribute span.start)
      | none => .ok ⟨Registry.lastEntries
          ((slotsAmong nodes).map fun slot => (givenName slot, propsOf source slot))⟩ := by
  rw [Slots.ofNodes, ← slotsAmong_eq, foldlM_add]
  cases (slotsAmong nodes).findSome? misnaming? with
  | some span => rfl
  | none => exact congrArg (Except.ok ∘ Registry.mk) (Registry.entries_ofList _)

end Component

end TypedComponent
