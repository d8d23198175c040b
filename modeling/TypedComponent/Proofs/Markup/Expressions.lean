import TypedComponent.Proofs.Markup.Blocks
import TypedComponent.Proofs.Markup.ClosingBrace
import TypedComponent.Proofs.Markup.Layout

/-!
What is known of the expressions in a document. An expression of an attribute is
found by the brace that closes it, so its text is balanced, whatever faults the
source has elsewhere.
-/

namespace TypedComponent.Markup

variable {source : Text}

/-- Between its braces an expression is balanced. -/
theorem Braced.balanced {start inside close : Cursor} (h : Braced start inside close) :
    Balanced .code (inside.textTo close) := by
  obtain ⟨⟨text, hbrace⟩, rfl, hcloses⟩ := h
  obtain ⟨offset, rest⟩ := start
  cases hbrace
  obtain ⟨inner, rest, rfl, hinner, rfl⟩ := closingBrace?_eq_some.mp hcloses
  have hspan : (⟨offset + 1 + Text.bytes inner, '\x7d' :: rest⟩ : Cursor).offset - (offset + 1) =
      Text.bytes inner := Nat.add_sub_cancel_left _ _
  have htext : Text.takeBytes (inner ++ '\x7d' :: rest) (Text.bytes inner) = inner :=
    Text.takeBytes_append inner _
  change Balanced .code (Text.takeBytes (inner ++ '\x7d' :: rest) (_ - (offset + 1)))
  rwa [hspan, htext]

/-- The expressions in a value are balanced. -/
def Fragment.AllBalanced (source : Text) (values : List Fragment) : Prop :=
  ∀ outer inner, .expression outer inner ∈ values → Balanced .code (Text.slice source inner)

theorem Fragment.Row.allBalanced {start stop : Cursor} {values : List Fragment}
    (h : Fragment.Row start values stop) (hstart : (Cursor.ofText source).Reaches start) :
    Fragment.AllBalanced source values := by
  induction h with
  | nil place =>
    intro outer inner hmem
    cases hmem
  | text reaches apart rest ih =>
    intro outer inner hmem
    rcases List.mem_cons.mp hmem with hfirst | hlater
    · cases hfirst
    · exact ih (hstart.trans reaches) outer inner hlater
  | @expression a inside close after c others braced closing rest ih =>
    have hinside := hstart.trans braced.opening
    intro outer inner hmem
    rcases List.mem_cons.mp hmem with hfirst | hlater
    · cases hfirst
      rw [Text.slice_upTo hinside braced.inner]
      exact braced.balanced
    · exact ih ((hinside.trans braced.inner).trans closing) outer inner hlater

/-- The expressions in an attribute's value are balanced. -/
def Attribute.IsBalanced (source : Text) : Attribute → Prop
  | .named _ _ values => Fragment.AllBalanced source values
  | .spread .. => True

theorem Attribute.Row.isBalanced {errors : List Error} {start stop : Cursor}
    {attributes : List Attribute} (h : Attribute.Row errors start attributes stop)
    (hstart : (Cursor.ofText source).Reaches start) :
    ∀ attr ∈ attributes, attr.IsBalanced source := by
  induction h with
  | nil gap => exact List.forall_mem_nil _
  | @cons start first after stop attr others gap along rest ih =>
    have hfirst := hstart.trans gap.1
    obtain ⟨-, -, hreach⟩ := along.sound hfirst
    refine List.forall_mem_cons.mpr ⟨?_, ih (hfirst.trans hreach)⟩
    cases attr with
    | named span name values =>
      obtain ⟨-, first, last, hfirst', hrow, -⟩ := along
      exact hrow.allBalanced (hfirst.trans hfirst')
    | spread span inner => exact True.intro

/-- The attributes of a node are balanced, and those of all nodes in it. -/
def Node.AllBalanced (source : Text) (node : Node) : Prop :=
  ∀ found ∈ node.family, ∀ attr ∈ found.attributes, attr.IsBalanced source

theorem Node.Whole.allBalanced {errors : List Error} {start stop : Cursor} {node : Node}
    (h : node.Whole errors start stop) (hstart : (Cursor.ofText source).Reaches start) :
    node.AllBalanced source := by
  intro found hfound attr hattr
  cases h with
  | text | comment | mustache =>
    cases List.mem_singleton.mp hfound
    cases hattr
  | childless name opening row =>
    cases List.mem_singleton.mp hfound
    exact row.isBalanced (hstart.trans opening) attr hattr
  | raw blank enclosed =>
    obtain ⟨afterName, last, inside, ending, hname, hrow, -⟩ := enclosed
    rcases List.mem_cons.mp hfound with rfl | hcontent
    · exact hrow.isBalanced (hstart.trans hname) attr hattr
    · cases List.mem_singleton.mp hcontent
      cases hattr

namespace Outline

/-- All attributes that have been read are balanced, those of open elements too. -/
structure IsBalanced (source : Text) (outline : Outline) : Prop where
  reached : (Cursor.ofText source).Reaches outline.cursor
  nodes : ∀ found, outline.HasNode found → ∀ attr ∈ found.attributes, attr.IsBalanced source
  opened : ∀ element ∈ outline.opened, ∀ attr ∈ element.attributes, attr.IsBalanced source

theorem IsBalanced.advance {outline : Outline} (h : outline.IsBalanced source)
    (errors : List Error) {cursor : Cursor} (hreach : outline.cursor.Reaches cursor) :
    (outline.advance errors cursor).IsBalanced source where
  reached := h.reached.trans hreach
  nodes := h.nodes
  opened := h.opened

/-- Adding a node leaves the attributes of the open elements. -/
theorem opened_of_add {outline : Outline} {node : Node} {element : OpenElement}
    (h : element ∈ (outline.add node).opened) :
    ∃ same ∈ outline.opened, same.attributes = element.attributes := by
  unfold add at h
  split at h
  · exact ⟨element, h, rfl⟩
  · rename_i innermost outer hopened
    rw [hopened]
    rcases List.mem_cons.mp h with rfl | houter
    · exact ⟨innermost, List.mem_cons_self, rfl⟩
    · exact ⟨element, List.mem_cons_of_mem _ houter, rfl⟩

theorem IsBalanced.add {outline : Outline} (h : outline.IsBalanced source) {node : Node}
    (hnode : node.AllBalanced source) : (outline.add node).IsBalanced source where
  reached := by simpa using h.reached
  nodes := by
    intro found hfound
    rcases hasNode_add.mp hfound with hold | hnew
    · exact h.nodes found hold
    · exact hnode found hnew
  opened := by
    intro element helement
    obtain ⟨same, hsame, hattributes⟩ := opened_of_add helement
    rw [← hattributes]
    exact h.opened same hsame

theorem IsBalanced.close {outline : Outline} (h : outline.IsBalanced source) :
    outline.close.IsBalanced source := by
  cases hopened : outline.opened with
  | nil => rwa [Outline.close, hopened]
  | cons innermost outer =>
    exact {
      reached := by simpa using h.reached
      nodes := by
        intro found hfound
        rcases (hasNode_close hopened).mp hfound with hold | rfl
        · exact h.nodes found hold
        · exact h.opened innermost (by simp [hopened])
      opened := by
        intro element helement
        rw [Outline.close, hopened] at helement
        obtain ⟨same, hsame, hattributes⟩ := opened_of_add helement
        rw [← hattributes]
        exact h.opened same (by rw [hopened]; exact List.mem_cons_of_mem _ hsame) }

theorem IsBalanced.step {before after : Outline} (hstep : Step before after)
    (h : before.IsBalanced source) : after.IsBalanced source := by
  cases hstep with
  | node errors cursor found reaches whole =>
    exact (h.advance errors reaches).add (whole.allBalanced h.reached)
  | script errors cursor block reaches | style errors cursor block reaches =>
    exact { h.advance errors reaches with }
  | opening errors cursor element reaches children start opens =>
    have hnext := h.advance errors reaches
    obtain ⟨afterName, sign, hname, -, hrow, -⟩ := opens
    exact {
      reached := hnext.reached
      nodes := by
        intro found hfound
        refine h.nodes found ?_
        simpa [HasNode, children, Outline.advance] using hfound
      opened := List.forall_mem_cons.mpr
        ⟨hrow.isBalanced (h.reached.trans hname), h.opened⟩ }
  | closing errors cursor reaches =>
    exact (h.advance errors reaches).close
  | skipping errors cursor reaches => exact h.advance errors reaches

theorem ofSource_isBalanced (source : Text) : (ofSource source).IsBalanced source where
  reached := Cursor.Reaches.refl _
  nodes := by simp [ofSource, HasNode]
  opened := by simp [ofSource]

end Outline

/-- The expressions in the attributes of a document are balanced, with or without
faults in it. -/
theorem parse_isBalanced {node : Node} (hnode : node ∈ (parse source).document.allNodes)
    {attr : Attribute} (hattr : attr ∈ node.attributes) : attr.IsBalanced source := by
  have h : (Outline.run (source.length + 1) (.ofSource source)).IsBalanced source :=
    Outline.run_induction Outline.IsBalanced.step _ (Outline.ofSource_isBalanced source)
  obtain ⟨outer, houter, hfamily⟩ := Node.mem_familyOfAll.mp hnode
  exact h.nodes node ⟨outer, List.mem_append_left _ (List.mem_reverse.mp houter), hfamily⟩
    attr hattr

end TypedComponent.Markup
