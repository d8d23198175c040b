import TypedComponent.Proofs.Markup.Layout

/-!
The spans of a document. While a source is read, the finished parts and the
children of each open element are in line up to where the next one begins: the
element inside of it, or the cursor. A fault may leave something out; while there
is none, the parts tile what is read.
-/

namespace TypedComponent.Markup

open Cursor (Reaches)

/-- The gap between parts that follow each other, which is empty while the
reading is clean. -/
def PartGap (clean : Prop) (start stop : Nat) : Prop := start ≤ stop ∧ (clean → start = stop)

namespace PartGap

variable {clean : Prop}

theorem refl (clean : Prop) (place : Nat) : PartGap clean place place := ⟨Nat.le_refl _, fun _ => rfl⟩

theorem trans (a b c : Nat) (hab : PartGap clean a b) (hbc : PartGap clean b c) :
    PartGap clean a c :=
  ⟨Nat.le_trans hab.1 hbc.1, fun h => (hab.2 h).trans (hbc.2 h)⟩

theorem mono {cleaner : Prop} (hclean : cleaner → clean) (a b : Nat) (h : PartGap clean a b) :
    PartGap cleaner a b :=
  ⟨h.1, fun hcleaner => h.2 (hclean hcleaner)⟩

theorem ordered {start stop : Nat} {spans : List Span}
    (h : Span.InLine (PartGap clean) start spans stop) : Span.Ordered start spans stop :=
  h.mono fun _ _ hgap => hgap.1

theorem tiles {start stop : Nat} {spans : List Span} (hclean : clean)
    (h : Span.InLine (PartGap clean) start spans stop) : Span.Tiles start spans stop :=
  h.mono fun _ _ hgap => hgap.2 hclean

end PartGap

/-- The layout of a node and of all that is in it. -/
def Node.Settled (source : Text) (clean : Prop) (node : Node) : Prop :=
  ∀ found ∈ node.family, found.Sound source ∧ (clean → found.Closed source)

theorem Node.Settled.mono {source : Text} {clean cleaner : Prop} {node : Node}
    (hclean : cleaner → clean) (h : node.Settled source clean) : node.Settled source cleaner :=
  fun found hfound => ⟨(h found hfound).1, fun hcleaner => (h found hfound).2 (hclean hcleaner)⟩

/-- An open element whose children are read up to `limit`. -/
structure OpenElement.ReadTo (source : Text) (clean : Prop) (element : OpenElement)
    (limit : Nat) : Prop where
  start_place : Text.isBoundary source element.start = true
  attributes_sound : ∀ attr ∈ element.attributes, attr.Sound source
  children_settled : ∀ child ∈ element.children, child.Settled source clean
  in_line : ∃ inside,
    Span.Ordered element.start (element.attributes.map Attribute.span) inside ∧
      Span.InLine (PartGap clean) inside (element.children.reverse.map Node.span) limit ∧
      (clean → IsOpeningTag source element.name element.attributes ⟨element.start, inside⟩)

namespace OpenElement.ReadTo

variable {source : Text} {clean : Prop} {element : OpenElement} {limit stop : Nat}

theorem start_le (h : element.ReadTo source clean limit) : element.start ≤ limit := by
  obtain ⟨inside, hattributes, hchildren, -⟩ := h.in_line
  exact Nat.le_trans hattributes.le (PartGap.ordered hchildren).le

theorem mono {cleaner : Prop} (hclean : cleaner → clean) (h : element.ReadTo source clean limit) :
    element.ReadTo source cleaner limit where
  start_place := h.start_place
  attributes_sound := h.attributes_sound
  children_settled := fun child hchild => (h.children_settled child hchild).mono hclean
  in_line := by
    obtain ⟨inside, hattributes, hchildren, htag⟩ := h.in_line
    exact ⟨inside, hattributes, hchildren.mono (PartGap.mono hclean),
      fun hcleaner => htag (hclean hcleaner)⟩

theorem extend (h : element.ReadTo source clean limit) (hgap : PartGap clean limit stop) :
    element.ReadTo source clean stop where
  start_place := h.start_place
  attributes_sound := h.attributes_sound
  children_settled := h.children_settled
  in_line := by
    obtain ⟨inside, hattributes, hchildren, htag⟩ := h.in_line
    exact ⟨inside, hattributes, hchildren.extend PartGap.trans hgap, htag⟩

theorem add {child : Node} (h : element.ReadTo source clean limit)
    (hspan : child.span = ⟨limit, stop⟩) (hle : limit ≤ stop)
    (hsettled : child.Settled source clean) :
    { element with children := child :: element.children }.ReadTo source clean stop where
  start_place := h.start_place
  attributes_sound := h.attributes_sound
  children_settled := List.forall_mem_cons.mpr ⟨hsettled, h.children_settled⟩
  in_line := by
    obtain ⟨inside, hattributes, hchildren, htag⟩ := h.in_line
    refine ⟨inside, hattributes, ?_, htag⟩
    rw [List.reverse_cons, List.map_append, List.map_singleton, hspan]
    exact Span.InLine.concat hchildren hle (PartGap.refl _ _)

/-- The element that ends at `stop` has the layout that its tags give it. -/
theorem settled (h : element.ReadTo source clean limit) (hle : limit ≤ stop)
    (hstop : Text.isBoundary source stop = true)
    (hclosing : clean → IsClosingTag element.name (Text.slice source ⟨limit, stop⟩)) :
    (Node.element ⟨element.start, stop⟩ element.name element.attributes false
      element.children.reverse).Settled source clean := by
  obtain ⟨inside, hattributes, hchildren, htag⟩ := h.in_line
  intro found hfound
  rw [Node.family] at hfound
  rcases List.mem_cons.mp hfound with rfl | hinner
  · refine ⟨⟨⟨h.start_place, hstop, Nat.le_trans h.start_le hle⟩, h.attributes_sound, inside,
      hattributes, ?_⟩, fun hclean => ?_⟩
    · exact (PartGap.ordered hchildren).extend (fun _ _ _ => Nat.le_trans) hle
    · exact .inr (.inr (.inr ⟨inside, limit, htag hclean, PartGap.tiles hclean hchildren,
        hclosing hclean⟩))
  · obtain ⟨child, hchild, hfamily⟩ := Node.mem_familyOfAll.mp hinner
    exact h.children_settled child (List.mem_reverse.mp hchild) found hfamily

end OpenElement.ReadTo

/-- The layout of a script or style block. -/
def ScriptBlock.Sound (source : Text) (block : ScriptBlock) : Prop :=
  block.content.LiesIn source ∧ Arranged source block.span block.attributes [block.content]

def StyleBlock.Sound (source : Text) (block : StyleBlock) : Prop :=
  block.content.LiesIn source ∧ Arranged source block.span block.attributes [block.content]

theorem Enclosed.arranged {source : Text} {errors : List Error} {start stop : Cursor}
    {attributes : List Attribute} {content : Span} (hstart : (Cursor.ofText source).Reaches start)
    (h : Enclosed errors start stop attributes content) :
    content.LiesIn source ∧ Arranged source (start.upTo stop) attributes [content] := by
  obtain ⟨afterName, last, inside, ending, hafter, hrow, hlast, hcontent, hclosing, rfl⟩ := h
  obtain ⟨hsound, hordered, -⟩ := hrow.sound (hstart.trans hafter)
  have hinside := hafter.trans (hrow.reaches.trans hlast)
  exact ⟨(hstart.trans hinside).upTo_liesIn hcontent,
    hstart.upTo_liesIn (hinside.trans (hcontent.trans hclosing)), hsound, last.offset,
    hordered.weaken hafter.offset_le, hlast.offset_le, hcontent.offset_le, hclosing.offset_le⟩

theorem Node.Whole.settled {source : Text} {errors : List Error} {start stop : Cursor}
    {found : Node} (clean : Prop) (hstart : (Cursor.ofText source).Reaches start)
    (hreach : start.Reaches stop) (h : found.Whole errors start stop) :
    found.Settled source clean ∧ found.span = start.upTo stop := by
  have hspan := hstart.upTo_liesIn hreach
  have halone {node : Node} (hfamily : node.family = [node]) (hsound : node.Sound source)
      (hclosed : node.Closed source) : node.Settled source clean := by
    intro found hfound
    rw [hfamily] at hfound
    rw [List.mem_singleton.mp hfound]
    exact ⟨hsound, fun _ => hclosed⟩
  cases h with
  | text blank => exact ⟨halone rfl hspan trivial, rfl⟩
  | comment => exact ⟨halone rfl hspan trivial, rfl⟩
  | mustache kind opening inner closing =>
    exact ⟨halone rfl (nests_upTo hstart opening inner closing) trivial, rfl⟩
  | @childless afterName last name attributes selfClosing opening row closing reason =>
    obtain ⟨hsound, hordered, -⟩ := row.sound (hstart.trans opening)
    refine ⟨halone rfl ⟨hspan, hsound, last.offset, hordered.weaken opening.offset_le,
      closing.offset_le⟩ ?_, rfl⟩
    rcases reason with hself | hvoid
    · exact .inl hself
    · exact .inr (.inl hvoid)
  | raw blank enclosed reason =>
    obtain ⟨hcontent, harranged⟩ := enclosed.arranged hstart
    refine ⟨fun found hfound => ?_, rfl⟩
    rcases List.mem_cons.mp hfound with rfl | htext
    · exact ⟨harranged, fun _ => .inr (.inr (.inl reason))⟩
    · rw [Node.familyOfAll, Node.family, Node.familyOfAll, List.append_nil] at htext
      rw [List.mem_singleton.mp htext]
      exact ⟨hcontent, fun _ => trivial⟩

theorem Opens.readTo {source : Text} {clean : Prop} {errors : List Error} {start stop : Cursor}
    {element : OpenElement} (hclean : clean → errors = [])
    (hstart : (Cursor.ofText source).Reaches start) (hplace : element.start = start.offset)
    (hchildren : element.children = [])
    (h : Opens errors start stop element.name element.attributes) :
    element.ReadTo source clean stop.offset := by
  obtain ⟨afterName, sign, hafter, hname, hrow, hsign, htext⟩ := h
  have hafterName := hstart.trans hafter
  obtain ⟨hsound, hordered, hspaced⟩ := hrow.sound hafterName
  exact {
    start_place := by
      rw [hplace]
      exact hstart.isBoundary
    attributes_sound := hsound
    children_settled := by
      rw [hchildren]
      exact List.forall_mem_nil _
    in_line := by
      rw [hchildren, hplace]
      refine ⟨stop.offset, ?_, PartGap.refl _ _, fun hnone => ⟨afterName.offset, sign.offset, ?_,
        hspaced (hclean hnone), ?_⟩⟩
      · exact (hordered.weaken hafter.offset_le).extend (fun _ _ _ => Nat.le_trans) hsign.offset_le
      · exact (Text.slice_upTo hstart hafter).trans hname
      · exact (Text.slice_upTo (hafterName.trans hrow.reaches) hsign).trans htext }

/-- The spans of the parts of a document: its nodes at the top level and its
blocks. -/
def partSpans (nodes : List Node) (scripts : List ScriptBlock) (styles : List StyleBlock) :
    List Span :=
  nodes.map Node.span ++ (scripts.map ScriptBlock.span ++ styles.map StyleBlock.span)

namespace Outline

/-- The finished parts of a document, latest first, are in line up to `limit`. -/
structure PartsTo (source : Text) (clean : Prop) (nodes : List Node) (scripts : List ScriptBlock)
    (styles : List StyleBlock) (limit : Nat) : Prop where
  nodes_settled : ∀ node ∈ nodes, node.Settled source clean
  scripts_sound : ∀ block ∈ scripts, block.Sound source
  styles_sound : ∀ block ∈ styles, block.Sound source
  nodes_ordered : Span.Ordered 0 (nodes.reverse.map Node.span) limit
  scripts_ordered : Span.Ordered 0 (scripts.reverse.map ScriptBlock.span) limit
  styles_ordered : Span.Ordered 0 (styles.reverse.map StyleBlock.span) limit
  in_line : ∃ parts, parts.Perm (partSpans nodes scripts styles) ∧
    Span.InLine (PartGap clean) 0 parts limit

/-- Every open element is read up to the one inside of it, and the innermost one
up to `limit`. -/
def NestedTo (source : Text) (clean : Prop) (top : Nat → Prop) : List OpenElement → Nat → Prop
  | [], limit => top limit
  | innermost :: outer, limit =>
    innermost.ReadTo source clean limit ∧ NestedTo source clean top outer innermost.start

/-- All that is read is in line up to `limit`. -/
structure SpannedTo (source : Text) (outline : Outline) (limit : Nat) : Prop where
  reached : (Cursor.ofText source).Reaches outline.cursor
  faults_lieIn : ∀ error ∈ outline.errors, error.span.LiesIn source
  nested : NestedTo source (outline.errors = [])
    (PartsTo source (outline.errors = []) outline.nodes outline.scripts outline.styles)
    outline.opened limit

section Parts

variable {source : Text} {clean : Prop} {nodes : List Node} {scripts : List ScriptBlock}
  {styles : List StyleBlock} {limit stop : Nat}

/-- One more part in line, whatever list it is added to. -/
theorem in_line_concat {spans others : List Span}
    (h : ∃ parts, parts.Perm spans ∧ Span.InLine (PartGap clean) 0 parts limit)
    (hperm : (⟨limit, stop⟩ :: spans).Perm others) (hle : limit ≤ stop) :
    ∃ parts, parts.Perm others ∧ Span.InLine (PartGap clean) 0 parts stop := by
  obtain ⟨parts, hparts, hline⟩ := h
  refine ⟨parts ++ [⟨limit, stop⟩], ?_, Span.InLine.concat hline hle (PartGap.refl _ _)⟩
  exact (List.perm_append_singleton _ _).trans ((hparts.cons _).trans hperm)

theorem ordered_concat {α : Type} {span : α → Span} {latest : α} {others : List α}
    (h : Span.Ordered 0 (others.reverse.map span) limit) (hspan : span latest = ⟨limit, stop⟩)
    (hle : limit ≤ stop) : Span.Ordered 0 ((latest :: others).reverse.map span) stop := by
  rw [List.reverse_cons, List.map_append, List.map_singleton, hspan]
  exact Span.InLine.concat h hle (Nat.le_refl _)

theorem ordered_extend {spans : List Span} (h : Span.Ordered 0 spans limit) (hle : limit ≤ stop) :
    Span.Ordered 0 spans stop :=
  h.extend (fun _ _ _ => Nat.le_trans) hle

namespace PartsTo

theorem mono {cleaner : Prop} (hclean : cleaner → clean)
    (h : PartsTo source clean nodes scripts styles limit) :
    PartsTo source cleaner nodes scripts styles limit where
  nodes_settled := fun node hnode => (h.nodes_settled node hnode).mono hclean
  scripts_sound := h.scripts_sound
  styles_sound := h.styles_sound
  nodes_ordered := h.nodes_ordered
  scripts_ordered := h.scripts_ordered
  styles_ordered := h.styles_ordered
  in_line := by
    obtain ⟨parts, hparts, hline⟩ := h.in_line
    exact ⟨parts, hparts, hline.mono (PartGap.mono hclean)⟩

theorem extend (h : PartsTo source clean nodes scripts styles limit)
    (hgap : PartGap clean limit stop) :
    PartsTo source clean nodes scripts styles stop where
  nodes_settled := h.nodes_settled
  scripts_sound := h.scripts_sound
  styles_sound := h.styles_sound
  nodes_ordered := ordered_extend h.nodes_ordered hgap.1
  scripts_ordered := ordered_extend h.scripts_ordered hgap.1
  styles_ordered := ordered_extend h.styles_ordered hgap.1
  in_line := by
    obtain ⟨parts, hparts, hline⟩ := h.in_line
    exact ⟨parts, hparts, hline.extend PartGap.trans hgap⟩

theorem addNode {node : Node} (h : PartsTo source clean nodes scripts styles limit)
    (hspan : node.span = ⟨limit, stop⟩) (hle : limit ≤ stop)
    (hsettled : node.Settled source clean) :
    PartsTo source clean (node :: nodes) scripts styles stop where
  nodes_settled := List.forall_mem_cons.mpr ⟨hsettled, h.nodes_settled⟩
  scripts_sound := h.scripts_sound
  styles_sound := h.styles_sound
  nodes_ordered := ordered_concat h.nodes_ordered hspan hle
  scripts_ordered := ordered_extend h.scripts_ordered hle
  styles_ordered := ordered_extend h.styles_ordered hle
  in_line := by
    refine in_line_concat h.in_line ?_ hle
    rw [← hspan]
    exact List.Perm.refl _

theorem addScript {block : ScriptBlock} (h : PartsTo source clean nodes scripts styles limit)
    (hspan : block.span = ⟨limit, stop⟩) (hle : limit ≤ stop) (hsound : block.Sound source) :
    PartsTo source clean nodes (block :: scripts) styles stop where
  nodes_settled := h.nodes_settled
  scripts_sound := List.forall_mem_cons.mpr ⟨hsound, h.scripts_sound⟩
  styles_sound := h.styles_sound
  nodes_ordered := ordered_extend h.nodes_ordered hle
  scripts_ordered := ordered_concat h.scripts_ordered hspan hle
  styles_ordered := ordered_extend h.styles_ordered hle
  in_line := by
    refine in_line_concat h.in_line ?_ hle
    rw [← hspan]
    exact List.perm_middle.symm

theorem addStyle {block : StyleBlock} (h : PartsTo source clean nodes scripts styles limit)
    (hspan : block.span = ⟨limit, stop⟩) (hle : limit ≤ stop) (hsound : block.Sound source) :
    PartsTo source clean nodes scripts (block :: styles) stop where
  nodes_settled := h.nodes_settled
  scripts_sound := h.scripts_sound
  styles_sound := List.forall_mem_cons.mpr ⟨hsound, h.styles_sound⟩
  nodes_ordered := ordered_extend h.nodes_ordered hle
  scripts_ordered := ordered_extend h.scripts_ordered hle
  styles_ordered := ordered_concat h.styles_ordered hspan hle
  in_line := by
    refine in_line_concat h.in_line ?_ hle
    rw [← hspan]
    exact List.perm_middle.symm.trans (List.Perm.append_left _ List.perm_middle.symm)

end PartsTo

end Parts

namespace NestedTo

variable {source : Text} {clean : Prop} {top : Nat → Prop} {opened : List OpenElement}
  {limit stop : Nat}

theorem mono {cleaner : Prop} {other : Nat → Prop} (hclean : cleaner → clean)
    (htop : ∀ place, top place → other place) (h : NestedTo source clean top opened limit) :
    NestedTo source cleaner other opened limit := by
  induction opened generalizing limit with
  | nil => exact htop _ h
  | cons innermost outer ih => exact ⟨h.1.mono hclean, ih h.2⟩

theorem extend (htop : ∀ place, PartGap clean place stop → top place → top stop)
    (h : NestedTo source clean top opened limit) (hgap : PartGap clean limit stop) :
    NestedTo source clean top opened stop := by
  cases opened with
  | nil => exact htop _ hgap h
  | cons innermost outer => exact ⟨h.1.extend hgap, h.2⟩

end NestedTo

namespace SpannedTo

variable {source : Text} {outline : Outline} {limit stop : Nat}

theorem advance {errors : List Error} {cursor : Cursor} (h : outline.SpannedTo source limit)
    (hreach : outline.cursor.Reaches cursor) (hfaults : FaultsBehind outline.cursor errors) :
    (outline.advance errors cursor).SpannedTo source limit where
  reached := h.reached.trans hreach
  faults_lieIn := by
    refine List.forall_mem_append.mpr ⟨fun error herror => ?_, h.faults_lieIn⟩
    exact (hfaults error (List.mem_reverse.mp herror)).liesIn h.reached
  nested := by
    have hclean : (outline.advance errors cursor).errors = [] → outline.errors = [] :=
      fun hnone => (List.append_eq_nil_iff.mp hnone).2
    exact h.nested.mono hclean fun place hparts => hparts.mono hclean

theorem extend (h : outline.SpannedTo source limit)
    (hgap : PartGap (outline.errors = []) limit stop) : outline.SpannedTo source stop where
  reached := h.reached
  faults_lieIn := h.faults_lieIn
  nested := h.nested.extend (fun _ hplace hparts => hparts.extend hplace) hgap

theorem add {node : Node} (h : outline.SpannedTo source limit)
    (hspan : node.span = ⟨limit, stop⟩) (hle : limit ≤ stop)
    (hsettled : node.Settled source (outline.errors = [])) :
    (outline.add node).SpannedTo source stop := by
  have hnested := h.nested
  obtain ⟨cursor, opened, nodes, scripts, styles, errors⟩ := outline
  cases opened with
  | nil => exact ⟨h.reached, h.faults_lieIn, PartsTo.addNode hnested hspan hle hsettled⟩
  | cons innermost outer =>
    exact ⟨h.reached, h.faults_lieIn, hnested.1.add hspan hle hsettled, hnested.2⟩

theorem close {innermost : OpenElement} {outer : List OpenElement}
    (h : outline.SpannedTo source limit) (hopened : outline.opened = innermost :: outer)
    (hle : limit ≤ outline.cursor.offset)
    (hclosing : outline.errors = [] →
      IsClosingTag innermost.name (Text.slice source ⟨limit, outline.cursor.offset⟩)) :
    outline.close.SpannedTo source outline.cursor.offset := by
  have hnested := h.nested
  rw [hopened] at hnested
  have houter : { outline with opened := outer }.SpannedTo source innermost.start :=
    ⟨h.reached, h.faults_lieIn, hnested.2⟩
  unfold Outline.close
  rw [hopened]
  exact houter.add rfl (Nat.le_trans hnested.1.start_le hle)
    (hnested.1.settled hle h.reached.isBoundary hclosing)

end SpannedTo

/-- What is read stays in line when one more thing is read. -/
theorem SpannedTo.step {source : Text} {before after : Outline} (hstep : Step before after)
    (h : before.SpannedTo source before.cursor.offset) :
    after.SpannedTo source after.cursor.offset := by
  have hstart := h.reached
  have hclean {errors : List Error} (cursor : Cursor) :
      (before.advance errors cursor).errors = [] → errors = [] :=
    fun hnone => List.reverse_eq_nil_iff.mp (List.append_eq_nil_iff.mp hnone).1
  cases hstep with
  | node errors cursor found reaches whole faults passes =>
    obtain ⟨hsettled, hspan⟩ := whole.settled _ hstart reaches
    rw [add_cursor]
    exact (h.advance reaches faults).add hspan reaches.offset_le hsettled
  | script errors cursor block reaches span encloses tagged enclosed outermost faults passes =>
    have hnext := h.advance reaches faults
    have hnested := hnext.nested
    refine ⟨hnext.reached, hnext.faults_lieIn, ?_⟩
    simp only [Outline.advance, outermost] at hnested ⊢
    refine PartsTo.addScript hnested span reaches.offset_le ?_
    rw [ScriptBlock.Sound, span]
    exact enclosed.arranged hstart
  | style errors cursor block reaches span encloses enclosed outermost faults passes =>
    have hnext := h.advance reaches faults
    have hnested := hnext.nested
    refine ⟨hnext.reached, hnext.faults_lieIn, ?_⟩
    simp only [Outline.advance, outermost] at hnested ⊢
    refine PartsTo.addStyle hnested span reaches.offset_le ?_
    rw [StyleBlock.Sound, span]
    exact enclosed.arranged hstart
  | opening errors cursor element reaches children start opens faults passes =>
    have hnext := h.advance reaches faults
    refine ⟨hnext.reached, hnext.faults_lieIn, opens.readTo (hclean cursor) hstart start children, ?_⟩
    rw [start]
    exact hnext.nested
  | closing errors cursor reaches closes faults =>
    obtain ⟨innermost, outer, hopened, htag⟩ := closes
    rw [close_cursor]
    refine (h.advance reaches faults).close hopened reaches.offset_le fun hnone => ?_
    have hslice := Text.slice_upTo hstart reaches
    rw [Cursor.upTo] at hslice
    exact hslice ▸ htag (hclean cursor hnone)
  | skipping errors cursor reaches faults skipped =>
    refine (h.advance reaches faults).extend ⟨reaches.offset_le, fun hnone => ?_⟩
    rcases skipped with ⟨hfault, -⟩ | ⟨-, rfl⟩
    · exact absurd (hclean _ hnone) hfault
    · rfl

theorem ofSource_spannedTo (source : Text) : (ofSource source).SpannedTo source 0 where
  reached := Reaches.refl _
  faults_lieIn := List.forall_mem_nil _
  nested := {
    nodes_settled := List.forall_mem_nil _
    scripts_sound := List.forall_mem_nil _
    styles_sound := List.forall_mem_nil _
    nodes_ordered := Nat.le_refl _
    scripts_ordered := Nat.le_refl _
    styles_ordered := Nat.le_refl _
    in_line := ⟨[], List.Perm.refl _, PartGap.refl _ _⟩ }

end Outline

/-- The layout of a document, whatever is wrong with its source. -/
structure Document.Sound (source : Text) (document : Document) : Prop where
  nodes : ∀ node ∈ document.allNodes, node.Sound source
  scripts : ∀ block ∈ document.scripts, block.Sound source
  styles : ∀ block ∈ document.styles, block.Sound source
  nodes_ordered : Span.Ordered 0 (document.nodes.map Node.span) (Text.bytes source)
  scripts_ordered : Span.Ordered 0 (document.scripts.map ScriptBlock.span) (Text.bytes source)
  styles_ordered : Span.Ordered 0 (document.styles.map StyleBlock.span) (Text.bytes source)
  parts_apart : (partSpans document.nodes document.scripts document.styles).Pairwise Span.Apart

/-- The layout of a document without faults: its parts in some order are the
whole source, and every element is whole. -/
structure Document.Complete (source : Text) (document : Document) : Prop where
  tiled : ∃ parts, parts.Perm (partSpans document.nodes document.scripts document.styles) ∧
    Span.Tiles 0 parts (Text.bytes source)
  closed : ∀ node ∈ document.allNodes, node.Closed source

theorem partSpans_reverse (nodes : List Node) (scripts : List ScriptBlock)
    (styles : List StyleBlock) :
    (partSpans nodes.reverse scripts.reverse styles.reverse).Perm
      (partSpans nodes scripts styles) := by
  unfold partSpans
  exact ((List.reverse_perm nodes).map _).append
    (((List.reverse_perm scripts).map _).append ((List.reverse_perm styles).map _))

/-- Reading ends at the end of the source, with all parts in line up to there. -/
theorem Outline.SpannedTo.finished {source : Text} {outline : Outline}
    (h : outline.SpannedTo source outline.cursor.offset) (hfinished : outline.isFinished = true) :
    PartsTo source (outline.errors = []) outline.nodes outline.scripts outline.styles
      (Text.bytes source) := by
  simp only [isFinished, Bool.and_eq_true, List.isEmpty_iff] at hfinished
  have hnested := h.nested
  rw [hfinished.2, h.reached.offset_of_rest_nil hfinished.1] at hnested
  exact hnested

/-- Every part of a document that is read has its place in the source, whatever
is wrong with it, and without a fault the parts leave nothing out. -/
theorem parse_layout (source : Text) :
    (∀ error ∈ (parse source).errors, error.span.LiesIn source) ∧
      (parse source).document.Sound source ∧
      ((parse source).errors = [] → (parse source).document.Complete source) := by
  have hspanned := Outline.run_induction (P := fun outline =>
    outline.SpannedTo source outline.cursor.offset) Outline.SpannedTo.step (source.length + 1)
    (Outline.ofSource_spannedTo source)
  have hparts := hspanned.finished (parse_isFinished source)
  have hperm := partSpans_reverse (Outline.run (source.length + 1) (.ofSource source)).nodes
    (Outline.run (source.length + 1) (.ofSource source)).scripts
    (Outline.run (source.length + 1) (.ofSource source)).styles
  obtain ⟨parts, hparts_perm, hline⟩ := hparts.in_line
  have hsettled {node : Node} (hnode : node ∈ (parse source).document.allNodes) :
      node.Sound source ∧ ((parse source).errors = [] → node.Closed source) := by
    obtain ⟨root, hroot, hfamily⟩ := Node.mem_familyOfAll.mp hnode
    obtain ⟨hsound, hclosed⟩ := hparts.nodes_settled root (List.mem_reverse.mp hroot) node hfamily
    exact ⟨hsound, fun hnone => hclosed (List.reverse_eq_nil_iff.mp hnone)⟩
  refine ⟨fun error herror => hspanned.faults_lieIn error (List.mem_reverse.mp herror), ?_,
    fun hnone => ?_⟩
  · exact {
      nodes := fun node hnode => (hsettled hnode).1
      scripts := fun block hblock => hparts.scripts_sound block (List.mem_reverse.mp hblock)
      styles := fun block hblock => hparts.styles_sound block (List.mem_reverse.mp hblock)
      nodes_ordered := hparts.nodes_ordered
      scripts_ordered := hparts.scripts_ordered
      styles_ordered := hparts.styles_ordered
      parts_apart := by
        have hapart : parts.Pairwise Span.Apart :=
          (PartGap.ordered hline).pairwise.imp fun hle => .inl hle
        exact ((hparts_perm.trans hperm.symm).pairwise_iff fun happart => happart.symm).mp hapart }
  · exact {
      tiled := ⟨parts, hparts_perm.trans hperm.symm,
        PartGap.tiles (List.reverse_eq_nil_iff.mp hnone) hline⟩
      closed := fun node hnode => (hsettled hnode).2 hnone }

/-- A source that is read without faults. -/
theorem parse_layout_complete :
    (parse "<p a=\"b\">\x7bc\x7d</p><script>d</script>".toList).errors = [] ∧
      (parse "<p a=\"b\">\x7bc\x7d</p><script>d</script>".toList).document.Complete
        "<p a=\"b\">\x7bc\x7d</p><script>d</script>".toList := by
  have hnone : (parse "<p a=\"b\">\x7bc\x7d</p><script>d</script>".toList).errors = [] := by
    decide +kernel
  exact ⟨hnone, (parse_layout _).2.2 hnone⟩

end TypedComponent.Markup
