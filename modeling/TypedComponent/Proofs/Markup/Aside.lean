import TypedComponent.Proofs.Markup.Concatenation
import TypedComponent.Proofs.Markup.Places
import TypedComponent.Proofs.Markup.Spans

/-!
Attributes lie beside everything that is cut out of a source. A comment is
never inside a tag: it stands behind the attributes of the elements that it is
in, and in front of or behind all other elements. A style block at the top
level is no part of any element.
-/

namespace TypedComponent

theorem Span.Ordered.stop_le {start stop : Nat} {spans : List Span}
    (h : Span.Ordered start spans stop) {span : Span} (hspan : span ∈ spans) :
    span.stop ≤ stop := by
  induction spans generalizing start with
  | nil => cases hspan
  | cons first others ih =>
    obtain ⟨-, -, hothers⟩ := h
    rcases List.mem_cons.mp hspan with rfl | hlater
    · exact Span.Ordered.le hothers
    · exact ih hothers hlater

namespace Markup

variable {source : Text}

theorem Node.Sound.attribute_within {node : Node} (h : node.Sound source) {attr : Attribute}
    (hattr : attr ∈ node.attributes) :
    attr.Sound source ∧ node.span.containsSpan attr.span = true := by
  cases node with
  | element span name attributes selfClosing children =>
    obtain ⟨-, hsound, place, hbefore, hbehind⟩ := h
    have hmem := List.mem_map_of_mem (f := Attribute.span) hattr
    exact ⟨hsound attr hattr, (Span.containsSpan_iff ..).mpr
      ⟨hbefore.start_le hmem, Nat.le_trans (hbefore.stop_le hmem) hbehind.le⟩⟩
  | text span blank => cases hattr
  | comment span => cases hattr
  | mustache span inner kind => cases hattr

mutual

theorem Node.family_within (node : Node) (h : ∀ found ∈ node.family, found.Sound source) :
    ∀ found ∈ node.family, node.span.start ≤ found.span.start ∧
      found.span.stop ≤ node.span.stop := by
  cases node with
  | element span name attributes selfClosing children =>
    rw [Node.family] at h ⊢
    obtain ⟨-, -, place, hbefore, hbehind⟩ := h _ List.mem_cons_self
    intro found hfound
    rcases List.mem_cons.mp hfound with rfl | hchild
    · exact ⟨Nat.le_refl _, Nat.le_refl _⟩
    · obtain ⟨hstart, hstop⟩ := Node.familyOfAll_within children
        (fun child hchild => h child (List.mem_cons_of_mem _ hchild)) hbehind found hchild
      exact ⟨Nat.le_trans hbefore.le hstart, hstop⟩
  | text span blank => simp [Node.family]
  | comment span => simp [Node.family]
  | mustache span inner kind => simp [Node.family]

theorem Node.familyOfAll_within (nodes : List Node)
    (h : ∀ found ∈ Node.familyOfAll nodes, found.Sound source) {start stop : Nat}
    (hordered : Span.Ordered start (nodes.map Node.span) stop) :
    ∀ found ∈ Node.familyOfAll nodes, start ≤ found.span.start ∧ found.span.stop ≤ stop := by
  cases nodes with
  | nil => simp [Node.familyOfAll]
  | cons first others =>
    rw [Node.familyOfAll] at h ⊢
    obtain ⟨hstart, hle, hothers⟩ := hordered
    intro found hfound
    rcases List.mem_append.mp hfound with hfirst | hlater
    · have hwithin := Node.family_within first
        (fun node hnode => h node (List.mem_append_left _ hnode)) found hfirst
      exact ⟨Nat.le_trans hstart hwithin.1, Nat.le_trans hwithin.2 (Span.Ordered.le hothers)⟩
    · have hwithin := Node.familyOfAll_within others
        (fun node hnode => h node (List.mem_append_right _ hnode)) hothers found hlater
      exact ⟨Nat.le_trans hstart (Nat.le_trans hle hwithin.1), hwithin.2⟩

end

mutual

/-- A comment inside of an element is no part of a tag there. -/
theorem Node.attributes_apart (node : Node) (h : ∀ found ∈ node.family, found.Sound source) :
    ∀ found ∈ node.family, ∀ attr ∈ found.attributes, ∀ span, .comment span ∈ node.family →
      attr.span.Apart span := by
  cases node with
  | element own name attributes selfClosing children =>
    rw [Node.family] at h ⊢
    obtain ⟨-, -, place, hbefore, hbehind⟩ := h _ List.mem_cons_self
    have hchildren := fun child hchild => h child (List.mem_cons_of_mem _ hchild)
    intro found hfound attr hattr span hcomment
    have hcomment := (List.mem_cons.mp hcomment).resolve_left (by simp)
    rcases List.mem_cons.mp hfound with rfl | hchild
    · have hstop := hbefore.stop_le (List.mem_map_of_mem (f := Attribute.span) hattr)
      have hstart := (Node.familyOfAll_within children hchildren hbehind _ hcomment).1
      exact .inl (Nat.le_trans hstop hstart)
    · exact Node.attributes_apartAll children hchildren hbehind found hchild attr hattr span
        hcomment
  | text span blank => simp [Node.family]
  | comment span => simp [Node.family, Node.attributes]
  | mustache span inner kind => simp [Node.family]

theorem Node.attributes_apartAll (nodes : List Node)
    (h : ∀ found ∈ Node.familyOfAll nodes, found.Sound source) {start stop : Nat}
    (hordered : Span.Ordered start (nodes.map Node.span) stop) :
    ∀ found ∈ Node.familyOfAll nodes, ∀ attr ∈ found.attributes,
      ∀ span, .comment span ∈ Node.familyOfAll nodes → attr.span.Apart span := by
  cases nodes with
  | nil => simp [Node.familyOfAll]
  | cons first others =>
    rw [Node.familyOfAll] at h ⊢
    obtain ⟨-, -, hothers⟩ := hordered
    have hfirst := fun node hnode => h node (List.mem_append_left _ hnode)
    have hlater := fun node hnode => h node (List.mem_append_right _ hnode)
    have hwithin := Node.family_within first hfirst
    have hbehind := Node.familyOfAll_within others hlater hothers
    intro found hfound attr hattr span hcomment
    obtain ⟨-, hin⟩ := (h found hfound).attribute_within hattr
    obtain ⟨hstart, hstop⟩ := (Span.containsSpan_iff ..).mp hin
    rcases List.mem_append.mp hfound with hown | hown <;>
      rcases List.mem_append.mp hcomment with hcut | hcut
    · exact Node.attributes_apart first hfirst found hown attr hattr span hcut
    · exact .inl (Nat.le_trans hstop (Nat.le_trans (hwithin found hown).2 (hbehind _ hcut).1))
    · exact .inr (Nat.le_trans (hwithin _ hcut).2 (Nat.le_trans (hbehind found hown).1 hstart))
    · exact Node.attributes_apartAll others hlater hothers found hown attr hattr span hcut

end

/-- The parts of a source that is read to its end. -/
theorem parse_partsTo (source : Text) :
    Outline.PartsTo source ((outlineOf source).errors = []) (outlineOf source).nodes
      (outlineOf source).scripts (outlineOf source).styles (Text.bytes source) :=
  (Outline.run_induction (P := fun outline => outline.SpannedTo source outline.cursor.offset)
    Outline.SpannedTo.step (source.length + 1)
    (Outline.ofSource_spannedTo source)).finished (parse_isFinished source)

/-- The attributes of a node are where they should be, and apart from comments
and style blocks. -/
theorem parse_attributes (source : Text) {node : Node}
    (hnode : node ∈ (parse source).document.allNodes) {attr : Attribute}
    (hattr : attr ∈ node.attributes) :
    attr.Sound source ∧
      ∀ span, (parse source).document.IsCut span → attr.span.Apart span := by
  have hparts := parse_partsTo source
  have hsound : ∀ found ∈ (parse source).document.allNodes, found.Sound source := by
    intro found hfound
    obtain ⟨root, hroot, hfamily⟩ := Node.mem_familyOfAll.mp hfound
    exact (hparts.nodes_settled root (List.mem_reverse.mp hroot) found hfamily).1
  obtain ⟨hattrSound, hin⟩ := (hsound node hnode).attribute_within hattr
  refine ⟨hattrSound, ?_⟩
  rintro span (hcomment | ⟨style, hstyle, rfl⟩)
  · exact Node.attributes_apartAll _ hsound hparts.nodes_ordered node hnode attr hattr span hcomment
  · obtain ⟨root, hroot, hfamily⟩ := Node.mem_familyOfAll.mp hnode
    obtain ⟨hstart, hstop⟩ := (Span.containsSpan_iff ..).mp hin
    obtain ⟨hrootStart, hrootStop⟩ := Node.family_within root
      (fun found hfound => hsound found (Node.mem_familyOfAll.mpr ⟨root, hroot, hfound⟩)) node
        hfamily
    have happart : root.span.Apart style.span := by
      obtain ⟨parts, hperm, hline⟩ := hparts.in_line
      have hapart : parts.Pairwise Span.Apart :=
        (PartGap.ordered hline).pairwise.imp fun hle => .inl hle
      have hpairwise := (hperm.pairwise_iff fun hspans => hspans.symm).mp hapart
      refine (List.pairwise_append.mp hpairwise).2.2 root.span ?_ style.span ?_
      · exact List.mem_map_of_mem (List.mem_reverse.mp hroot)
      · exact List.mem_append_right _ (List.mem_map_of_mem (List.mem_reverse.mp hstyle))
    exact happart.imp (fun hle => by omega) (fun hle => by omega)

end Markup

end TypedComponent
