import TypedComponent.Component.Assembly
import TypedComponent.Proofs.Component.Splices
import TypedComponent.Proofs.Markup.Places

/-!
Embedding a script. Whatever else is cut, the script comes first between the
texts in place of its tags, changed only by the edits inside it, and the rest
of the source follows without it.
-/

namespace TypedComponent.Component

open Markup (ScriptBlock)

/-- Edits that put a script to the front, by what they do: markup is cut
somewhere else, parts of the script are cut, texts are placed in the script, and
its opening tag is overwritten. Nothing but its tags is. -/
structure Heads (source : Text) (script : ScriptBlock) (cuts parts : List Span)
    (found : List (Nat × Text)) (edits : List Edit) : Prop where
  liesIn : script.LiesIn source
  cuts_apart : ∀ cut ∈ cuts, cut.Apart script.span
  removed : edits.filterMap Edit.removed? =
    cuts ++ parts.map (·.shifted script.content.start)
  placed_from : ∀ place ∈ edits.filterMap Edit.placed?, script.content.start ≤ place.1
  placed_inside : ∀ offset, offset < script.content.length →
    textsAt (edits.filterMap Edit.placed?) (offset + script.content.start) = textsAt found offset
  relocations : edits.filterMap Edit.relocation? =
    if script.span.start = 0 then [] else [⟨script.span, 0⟩]
  opening : .overwrite ⟨script.span.start, script.content.start⟩ functionOpening ∈ edits
  overwritten : ∀ range text, .overwrite range text ∈ edits →
    range = ⟨script.span.start, script.content.start⟩ ∨
      range = ⟨script.content.stop, script.span.stop⟩
  ahead : ∀ edit ∈ edits, edit.InsertsAhead

namespace Heads

variable {source : Text} {script : ScriptBlock} {cuts parts : List Span}
  {found : List (Nat × Text)} {edits : List Edit} {buffer : EditBuffer}

variable (e : Heads source script cuts parts found edits)

include e

theorem bytes_content :
    Text.bytes (Text.slice source script.content) = script.content.length := by
  obtain ⟨hopen, hclose, hle⟩ := e.liesIn.content_place
  exact Text.bytes_slice hopen hclose hle

theorem not_overwritten {offset : Nat}
    (hout : script.content.contains offset = true ∨ script.span.contains offset = false)
    {range : Span} {text : Text} (hedit : .overwrite range text ∈ edits) :
    range.contains offset = false := by
  have hlt := e.liesIn.opening_lt
  have hle := e.liesIn.content_place.start_le
  have hstop := e.liesIn.stop_le
  rw [← Bool.not_eq_true, Span.contains_iff] at hout ⊢
  rw [Span.contains_iff] at hout
  rcases e.overwritten range text hedit with rfl | rfl <;> dsimp only <;> omega

/-- Inside the script, parts are cut out and texts are placed. -/
theorem inside_text :
    ((Text.cellsIn source script.content).flatMap (Cellwise.held edits)).flatMap Piece.text =
      Text.splicedChars (Text.slice source script.content) parts found := by
  have hlt := e.liesIn.opening_lt
  rw [Text.splicedChars, Text.cellsIn, Text.cellsFrom_eq_map, List.flatMap_assoc, List.flatMap_map]
  apply List.flatMap_congr
  intro cell hcell
  have hbounds := (Text.bounds_of_mem_cellsFrom hcell).2
  have hend := Text.stop_gt_offset cell
  rw [e.bytes_content, Nat.zero_add] at hbounds
  have hinside : script.content.contains (cell.offset + script.content.start) = true := by
    unfold Span.length at hbounds
    rw [Span.contains_iff]
    omega
  have hcuts : cuts.any (·.contains (cell.offset + script.content.start)) = false := by
    rw [List.any_eq_false]
    intro cut hcut
    have hstop := e.liesIn.stop_le
    have happart := e.cuts_apart cut hcut
    rw [Span.contains_iff] at hinside ⊢
    unfold Span.Apart at happart
    omega
  have hparts : (parts.map (·.shifted script.content.start)).any
      (·.contains (cell.offset + script.content.start)) =
        parts.any (·.contains cell.offset) := by
    rw [List.any_map]
    congr 1
    funext part
    simp [Span.contains, Span.shifted]
  rw [Cellwise.held_text e.ahead fun _ _ => e.not_overwritten (.inl hinside), e.removed,
    List.any_append, hcuts, Bool.false_or, hparts, e.placed_inside _ (by omega)]

/-- Where no part is cut and no text is placed, nothing is written but what is
left of the markup. -/
theorem outside_text {span : Span} (hspan : span.LiesIn source) (happart : span.Apart script.span)
    (hparts : ∀ cell ∈ Text.cellsIn source span, ∀ part ∈ parts,
      (part.shifted script.content.start).contains cell.offset = false)
    (hplaced : ∀ cell ∈ Text.cellsIn source span,
      ∀ place ∈ edits.filterMap Edit.placed?, place.1 ≠ cell.offset) :
    ((Text.cellsIn source span).flatMap (Cellwise.held edits)).flatMap Piece.text =
      ((Text.cellsIn source span).filter fun cell =>
        !(script.span :: cuts).any (·.contains cell.offset)).map Cell.char := by
  obtain ⟨hstart, hstop, hle⟩ := hspan
  have hout : ∀ cell ∈ Text.cellsIn source span, script.span.contains cell.offset = false :=
    fun _ hcell =>
      happart.contains_eq_false (Text.contains_of_mem_cellsIn hstart hstop hle hcell)
  rw [Cellwise.held_without e.ahead hplaced fun cell hcell _ _ =>
    e.not_overwritten (.inr (hout cell hcell))]
  congr 1
  apply List.filter_congr
  intro cell hcell
  have hkept : (parts.map (·.shifted script.content.start)).any
      (·.contains cell.offset) = false := by
    rw [List.any_map, List.any_eq_false]
    intro part hpart
    simp [hparts cell hcell part hpart]
  rw [e.removed, List.any_append, hkept, Bool.or_false, List.any_cons, hout cell hcell,
    Bool.false_or]

/-- The script with its tags comes first, and then what was around it. -/
theorem order_eq :
    Cellwise.order source edits =
      Text.cellsIn source script.span ++ (Text.cellsIn source ⟨0, script.span.start⟩ ++
        Text.cellsIn source ⟨script.span.stop, Text.bytes source⟩) := by
  have hstart := e.liesIn.start_place
  have hstop := e.liesIn.stop_place
  have hlt := e.liesIn.opening_lt
  have hcontent := e.liesIn.content_place.start_le
  have hclosed := e.liesIn.stop_le
  have hle : script.span.start ≤ script.span.stop := by omega
  rw [Cellwise.order, e.relocations]
  by_cases hfront : script.span.start = 0
  · have hnone : Text.cellsIn source ⟨0, script.span.start⟩ = [] :=
      Text.cellsIn_eq_nil (Nat.le_of_eq hfront)
    rw [if_pos hfront, hnone, List.nil_append]
    have haround := Text.cells_around hstart hstop hle
    rwa [hnone, List.nil_append] at haround
  · rw [if_neg hfront]
    exact Cellwise.relocate_front hstart hstop hle (by omega)

/-- The cells of the script are those of its opening tag, its content and its
closing tag. -/
theorem script_cells :
    Text.cellsIn source script.span =
      Text.cellsIn source ⟨script.span.start, script.content.start⟩ ++
        (Text.cellsIn source script.content ++
          Text.cellsIn source ⟨script.content.stop, script.span.stop⟩) := by
  have hlt := e.liesIn.opening_lt
  have hclosed := e.liesIn.stop_le
  obtain ⟨hopen, hclose, hcontent⟩ := e.liesIn.content_place
  rw [Text.cellsIn_append hopen hclose e.liesIn.stop_place hcontent hclosed,
    Text.cellsIn_append e.liesIn.start_place hopen e.liesIn.stop_place (Nat.le_of_lt hlt)
      (by omega)]

/-- What is cut and placed by the script's own offsets is not in front of the
script, so only what comes behind it has to be looked at. -/
theorem markup_text
    (hparts : ∀ cell ∈ Text.cellsIn source ⟨script.span.stop, Text.bytes source⟩,
      ∀ part ∈ parts, (part.shifted script.content.start).contains cell.offset = false)
    (hplaced : ∀ cell ∈ Text.cellsIn source ⟨script.span.stop, Text.bytes source⟩,
      ∀ place ∈ edits.filterMap Edit.placed?, place.1 ≠ cell.offset) :
    ((Text.cellsIn source ⟨0, script.span.start⟩ ++
      Text.cellsIn source ⟨script.span.stop, Text.bytes source⟩).flatMap
        (Cellwise.held edits)).flatMap Piece.text =
      Text.without source (script.span :: cuts) := by
  have hstart := e.liesIn.start_place
  have hstop := e.liesIn.stop_place
  have hlt := e.liesIn.opening_lt
  have hle : script.span.start ≤ script.span.stop := by
    have hcontent := e.liesIn.content_place.start_le
    have hstopLe := e.liesIn.stop_le
    omega
  have hbefore : (⟨0, script.span.start⟩ : Span).LiesIn source :=
    ⟨Text.isBoundary_zero source, hstart, Nat.zero_le _⟩
  have hbehind : (⟨script.span.stop, Text.bytes source⟩ : Span).LiesIn source :=
    ⟨hstop, Text.isBoundary_bytes source, Text.le_bytes_of_isBoundary hstop⟩
  have hfront : ∀ cell ∈ Text.cellsIn source ⟨0, script.span.start⟩,
      cell.offset < script.content.start := by
    intro cell hcell
    have hbounds := Text.bounds_of_mem_cellsIn hbefore.start_place hbefore.stop_place
      hbefore.start_le hcell
    have hend := Text.stop_gt_offset cell
    dsimp only at hbounds
    omega
  have hfrontParts : ∀ cell ∈ Text.cellsIn source ⟨0, script.span.start⟩,
      ∀ part ∈ parts, (part.shifted script.content.start).contains cell.offset = false := by
    intro cell hcell part _
    have hbefore := hfront cell hcell
    rw [← Bool.not_eq_true, Span.contains_iff]
    simp only [Span.shifted]
    omega
  have hfrontPlaced : ∀ cell ∈ Text.cellsIn source ⟨0, script.span.start⟩,
      ∀ place ∈ edits.filterMap Edit.placed?, place.1 ≠ cell.offset := by
    intro cell hcell place hplace
    have hbefore := hfront cell hcell
    have hfrom := e.placed_from place hplace
    omega
  have hcut : (Text.cellsIn source script.span).filter (fun cell =>
      !(script.span :: cuts).any (·.contains cell.offset)) = [] := by
    rw [List.filter_eq_nil_iff]
    intro cell hcell
    simp [Text.contains_of_mem_cellsIn hstart hstop hle hcell]
  rw [List.flatMap_append, List.flatMap_append,
    e.outside_text hbefore (.inl (Nat.le_refl _)) hfrontParts hfrontPlaced,
    e.outside_text hbehind (.inr (Nat.le_refl _)) hparts hplaced, Text.without,
    Text.cells_around hstart hstop hle,
    List.filter_append, List.filter_append, hcut, List.nil_append, List.map_append]

/-- Nothing is placed in front of the opening tag. -/
theorem placed_at_start :
    textsAt (edits.filterMap Edit.placed?) script.span.start = [] := by
  have hlt := e.liesIn.opening_lt
  apply textsAt_eq_nil
  intro place hplace
  have hfrom := e.placed_from place hplace
  omega

theorem opening_text (h : buffer.Records source edits) :
    ((Text.cellsIn source ⟨script.span.start, script.content.start⟩).flatMap
      (Cellwise.held edits)).flatMap Piece.text = functionOpening := by
  rw [(h.held_range ((h.overwritten_iff _ _).mpr e.opening)).text,
    Cellwise.inserted_after e.ahead, List.append_nil, List.flatMap_append,
    Cellwise.inserted_before_text, e.placed_at_start]
  simp [Piece.text]

/-- What is placed at the end of the script comes before its closing tag. -/
theorem closing_text (h : buffer.Records source edits)
    (hclosing : .overwrite ⟨script.content.stop, script.span.stop⟩ fragmentOpening ∈ edits) :
    ((Text.cellsIn source ⟨script.content.stop, script.span.stop⟩).flatMap
      (Cellwise.held edits)).flatMap Piece.text =
        textsAt (edits.filterMap Edit.placed?) script.content.stop ++ fragmentOpening := by
  rw [(h.held_range ((h.overwritten_iff _ _).mpr hclosing)).text,
    Cellwise.inserted_after e.ahead, List.append_nil, List.flatMap_append,
    Cellwise.inserted_before_text]
  simp [Piece.text]

theorem script_text (h : buffer.Records source edits)
    (hclosing : .overwrite ⟨script.content.stop, script.span.stop⟩ fragmentOpening ∈ edits)
    (hend : textsAt (edits.filterMap Edit.placed?) script.content.stop =
      textsAt found script.content.length) :
    ((Text.cellsIn source script.span).flatMap (Cellwise.held edits)).flatMap Piece.text =
      functionOpening ++
        (Text.spliced (Text.slice source script.content) parts found ++ fragmentOpening) := by
  rw [e.script_cells, List.flatMap_append, List.flatMap_append, List.flatMap_append,
    List.flatMap_append, e.opening_text h, e.inside_text, e.closing_text h hclosing, hend,
    Text.spliced_eq, e.bytes_content, List.append_assoc]

end Heads

/-- Edits that embed a script, by what they do: markup is cut somewhere else,
parts of the script are cut, texts are placed in the script, and its tags are
overwritten. -/
structure Embeds (source : Text) (script : ScriptBlock) (cuts parts : List Span)
    (found : List (Nat × Text)) (edits : List Edit) : Prop where
  content_le : script.content.start ≤ script.content.stop
  closed : script.content.stop < script.span.stop
  cuts_apart : ∀ cut ∈ cuts, cut.Apart script.span
  parts_within : ∀ part ∈ parts, part.stop ≤ Text.bytes (Text.slice source script.content)
  found_within : ∀ text ∈ found, text.1 ≤ Text.bytes (Text.slice source script.content)
  removed : edits.filterMap Edit.removed? =
    cuts ++ parts.map (·.shifted script.content.start)
  placed : edits.filterMap Edit.placed? =
    found.map fun text => (text.1 + script.content.start, text.2)
  relocations : edits.filterMap Edit.relocation? =
    if script.span.start = 0 then [] else [⟨script.span, 0⟩]
  overwritten : ∀ range text, .overwrite range text ∈ edits ↔
    (range = ⟨script.span.start, script.content.start⟩ ∧ text = functionOpening) ∨
      (range = ⟨script.content.stop, script.span.stop⟩ ∧ text = fragmentOpening)
  ahead : ∀ edit ∈ edits, edit.InsertsAhead

namespace Embeds

variable {source : Text} {script : ScriptBlock} {cuts parts : List Span}
  {found : List (Nat × Text)} {edits : List Edit} {buffer : EditBuffer}

variable (e : Embeds source script cuts parts found edits)

include e

variable (h : buffer.Records source edits)

include h

theorem opening_mem :
    ⟨⟨script.span.start, script.content.start⟩, some functionOpening⟩ ∈ buffer.replacements :=
  (h.overwritten_iff _ _).mpr ((e.overwritten _ _).mpr (.inl ⟨rfl, rfl⟩))

theorem closing_mem :
    ⟨⟨script.content.stop, script.span.stop⟩, some fragmentOpening⟩ ∈ buffer.replacements :=
  (h.overwritten_iff _ _).mpr ((e.overwritten _ _).mpr (.inr ⟨rfl, rfl⟩))

/-- The tags and the content of a script that is embedded begin and end between
characters. -/
theorem liesIn : script.LiesIn source := by
  obtain ⟨hstart, hopen⟩ := h.consistent.replacement_place _ (e.opening_mem h)
  obtain ⟨hclose, hstop⟩ := h.consistent.replacement_place _ (e.closing_mem h)
  have hlt := h.consistent.replacement_nonempty _ (e.opening_mem h)
  unfold EditBuffer.IsPlace at hstart hopen hclose hstop
  rw [h.source_eq] at hstart hopen hclose hstop
  exact ⟨hstart, ⟨hopen, hclose, e.content_le⟩, hstop, hlt, .inl e.closed⟩

theorem heads : Heads source script cuts parts found edits where
  liesIn := e.liesIn h
  cuts_apart := e.cuts_apart
  removed := e.removed
  placed_from := by
    intro place hplace
    rw [e.placed] at hplace
    obtain ⟨text, -, rfl⟩ := List.mem_map.mp hplace
    exact Nat.le_add_left _ _
  placed_inside := by
    intro offset _
    rw [e.placed]
    exact textsAt_shifted _ _ _
  relocations := e.relocations
  opening := (e.overwritten _ _).mpr (.inl ⟨rfl, rfl⟩)
  overwritten := by
    intro range text hedit
    rcases (e.overwritten range text).mp hedit with ⟨hrange, -⟩ | ⟨hrange, -⟩
    · exact .inl hrange
    · exact .inr hrange
  ahead := e.ahead

theorem placed_le {place : Nat × Text} (hplace : place ∈ edits.filterMap Edit.placed?) :
    place.1 ≤ script.content.stop := by
  rw [e.placed] at hplace
  obtain ⟨text, htext, rfl⟩ := List.mem_map.mp hplace
  have hwithin := e.found_within text htext
  have hle := e.content_le
  rw [(e.heads h).bytes_content, Span.length] at hwithin
  dsimp only
  omega

omit h in
theorem placed_at_stop :
    textsAt (edits.filterMap Edit.placed?) script.content.stop =
      textsAt found script.content.length := by
  have hstop : script.content.stop = script.content.length + script.content.start := by
    have hle := e.content_le
    unfold Span.length
    omega
  rw [e.placed, hstop]
  exact textsAt_shifted _ _ _

/-- The script with its tags comes first, and then what was around it. -/
theorem order_eq :
    Cellwise.order source edits =
      Text.cellsIn source script.span ++ (Text.cellsIn source ⟨0, script.span.start⟩ ++
        Text.cellsIn source ⟨script.span.stop, Text.bytes source⟩) :=
  (e.heads h).order_eq

theorem script_text :
    ((Text.cellsIn source script.span).flatMap (Cellwise.held edits)).flatMap Piece.text =
      functionOpening ++
        (Text.spliced (Text.slice source script.content) parts found ++ fragmentOpening) :=
  (e.heads h).script_text h ((e.overwritten _ _).mpr (.inr ⟨rfl, rfl⟩)) e.placed_at_stop

theorem markup_text :
    ((Text.cellsIn source ⟨0, script.span.start⟩ ++
      Text.cellsIn source ⟨script.span.stop, Text.bytes source⟩).flatMap
        (Cellwise.held edits)).flatMap Piece.text =
      Text.without source (script.span :: cuts) := by
  have hheads := e.heads h
  have hstop := hheads.liesIn.stop_place
  have hclosed := e.closed
  have hbehind : ∀ cell ∈ Text.cellsIn source ⟨script.span.stop, Text.bytes source⟩,
      script.content.stop < cell.offset := by
    intro cell hcell
    have hbounds := Text.bounds_of_mem_cellsIn hstop (Text.isBoundary_bytes source)
      (Text.le_bytes_of_isBoundary hstop) hcell
    dsimp only at hbounds
    omega
  refine hheads.markup_text ?_ ?_
  · intro cell hcell part hpart
    have hpast := hbehind cell hcell
    have hwithin := e.parts_within part hpart
    have hle := e.content_le
    rw [hheads.bytes_content, Span.length] at hwithin
    rw [← Bool.not_eq_true, Span.contains_iff]
    simp only [Span.shifted]
    omega
  · intro cell hcell place hplace
    have hpast := hbehind cell hcell
    have hupto := e.placed_le h hplace
    omega

/-- Nothing is placed at the end of the source, which the script does not reach. -/
theorem textsAt_end :
    textsAt (edits.filterMap Edit.placed?) (Text.bytes source) = [] := by
  have hstop := Text.le_bytes_of_isBoundary (e.liesIn h).stop_place
  have hclosed := e.closed
  apply textsAt_eq_nil
  intro place hplace
  have hbounds := e.placed_le h hplace
  omega

end Embeds

end TypedComponent.Component
