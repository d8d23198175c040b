import TypedComponent.Markup.Outline

/-!
Documents with other offsets. What reading finds holds its places as offsets,
and where a text is read at another place, or behind text of another length,
the same is found at other offsets. Renumbering gives every offset its new
place and leaves the rest as it is.
-/

namespace TypedComponent

def Span.renumbered (place : Nat → Nat) (span : Span) : Span :=
  ⟨place span.start, place span.stop⟩

theorem Span.renumbered_id (span : Span) : span.renumbered id = span := rfl

namespace Markup

def Fragment.renumbered (place : Nat → Nat) : Fragment → Fragment
  | text span raw => .text (span.renumbered place) raw
  | expression span inner => .expression (span.renumbered place) (inner.renumbered place)

def Attribute.renumbered (place : Nat → Nat) : Attribute → Attribute
  | named span name values =>
    .named (span.renumbered place) name (values.map (·.renumbered place))
  | spread span inner => .spread (span.renumbered place) (inner.renumbered place)

mutual

def Node.renumbered (place : Nat → Nat) : Node → Node
  | .element span name attributes selfClosing children =>
    .element (span.renumbered place) name (attributes.map (·.renumbered place)) selfClosing
      (Node.renumberedAll place children)
  | .text span blank => .text (span.renumbered place) blank
  | .comment span => .comment (span.renumbered place)
  | .mustache span inner kind => .mustache (span.renumbered place) (inner.renumbered place) kind

def Node.renumberedAll (place : Nat → Nat) : List Node → List Node
  | [] => []
  | first :: others => first.renumbered place :: Node.renumberedAll place others

end

def ScriptBlock.renumbered (place : Nat → Nat) (block : ScriptBlock) : ScriptBlock where
  span := block.span.renumbered place
  content := block.content.renumbered place
  language := block.language
  context := block.context
  attributes := block.attributes.map (·.renumbered place)

def StyleBlock.renumbered (place : Nat → Nat) (block : StyleBlock) : StyleBlock where
  span := block.span.renumbered place
  content := block.content.renumbered place
  attributes := block.attributes.map (·.renumbered place)

def Error.renumbered (place : Nat → Nat) (error : Error) : Error :=
  ⟨error.fault, error.span.renumbered place⟩

def Token.renumbered (place : Nat → Nat) (token : Token) : Token :=
  ⟨token.kind, token.span.renumbered place⟩

def OpenElement.renumbered (place : Nat → Nat) (element : OpenElement) : OpenElement where
  start := place element.start
  name := element.name
  attributes := element.attributes.map (·.renumbered place)
  children := element.children.map (·.renumbered place)

section Lemmas

variable (place : Nat → Nat)

theorem Node.renumberedAll_eq (nodes : List Node) :
    Node.renumberedAll place nodes = nodes.map (·.renumbered place) := by
  induction nodes with
  | nil => rfl
  | cons first others ih => rw [Node.renumberedAll, ih, List.map_cons]

@[simp] theorem Node.renumbered_element (span : Span) (name : Text) (attributes : List Attribute)
    (selfClosing : Bool) (children : List Node) :
    (Node.element span name attributes selfClosing children).renumbered place =
      .element (span.renumbered place) name (attributes.map (·.renumbered place)) selfClosing
        (children.map (·.renumbered place)) := by
  rw [Node.renumbered, Node.renumberedAll_eq]

/-- What attributes say does not depend on where they are. -/
theorem Attribute.textOf?_renumbered (name : Text) (attributes : List Attribute) :
    Attribute.textOf? name (attributes.map (·.renumbered place)) =
      Attribute.textOf? name attributes := by
  unfold Attribute.textOf?
  rw [List.findSome?_map]
  congr 1
  funext found
  cases found with
  | spread span inner => rfl
  | named span own values =>
    cases values with
    | nil => rfl
    | cons first others => cases first <;> rfl

theorem Attribute.isBare_renumbered (name : Text) (attributes : List Attribute) :
    Attribute.isBare name (attributes.map (·.renumbered place)) =
      Attribute.isBare name attributes := by
  unfold Attribute.isBare
  rw [List.any_map]
  congr 1
  funext found
  cases found with
  | spread span inner => rfl
  | named span own values => simp [Attribute.renumbered]

theorem Outline.scriptContext_renumbered (attributes : List Attribute) :
    Outline.scriptContext (attributes.map (·.renumbered place)) =
      Outline.scriptContext attributes := by
  rw [Outline.scriptContext, Outline.scriptContext, Attribute.textOf?_renumbered,
    Attribute.isBare_renumbered]

theorem Outline.scriptLanguage_renumbered (attributes : List Attribute) :
    Outline.scriptLanguage (attributes.map (·.renumbered place)) =
      Outline.scriptLanguage attributes := by
  rw [Outline.scriptLanguage, Outline.scriptLanguage, Attribute.textOf?_renumbered]

end Lemmas

section Identity

theorem Fragment.renumbered_id (fragment : Fragment) : fragment.renumbered id = fragment := by
  cases fragment <;> rfl

theorem Attribute.renumbered_id (attr : Attribute) : attr.renumbered id = attr := by
  cases attr with
  | named span name values => simp [renumbered, Span.renumbered_id, Fragment.renumbered_id]
  | spread span inner => rfl

theorem Attribute.map_renumbered_id (attributes : List Attribute) :
    attributes.map (·.renumbered id) = attributes := by
  simp [Attribute.renumbered_id]

mutual

theorem Node.renumbered_id (node : Node) : node.renumbered id = node := by
  cases node with
  | element span name attributes selfClosing children =>
    rw [Node.renumbered, Node.renumberedAll_id, Attribute.map_renumbered_id, Span.renumbered_id]
  | text span blank => rfl
  | comment span => rfl
  | mustache span inner kind => rfl

theorem Node.renumberedAll_id (nodes : List Node) : Node.renumberedAll id nodes = nodes := by
  cases nodes with
  | nil => rfl
  | cons first others => rw [Node.renumberedAll, Node.renumbered_id, Node.renumberedAll_id]

end

theorem Node.map_renumbered_id (nodes : List Node) : nodes.map (·.renumbered id) = nodes := by
  rw [← Node.renumberedAll_eq, Node.renumberedAll_id]

theorem ScriptBlock.renumbered_id (block : ScriptBlock) : block.renumbered id = block := by
  simp [renumbered, Span.renumbered_id, Attribute.renumbered_id]

theorem StyleBlock.renumbered_id (block : StyleBlock) : block.renumbered id = block := by
  simp [renumbered, Span.renumbered_id, Attribute.renumbered_id]

end Identity

end Markup

end TypedComponent
