import TypedComponent.Proofs.Edit.Origins
import TypedComponent.Proofs.Edit.Records
import TypedComponent.Proofs.Edit.Segments

/-!
A buffer writes what its accepted edits mean. Segments take the place of runs
of cells: every range that an edit names is made of whole segments, so moving
segments moves the cells in them, and a segment is written as its cells are.
-/

namespace TypedComponent

namespace Piece

/-- Two lists of pieces that come to the same text, byte by byte from the same
origins. -/
structure Agree (a b : List Piece) : Prop where
  text : a.flatMap Piece.text = b.flatMap Piece.text
  origins : a.flatMap Piece.origins = b.flatMap Piece.origins

namespace Agree

theorem refl (a : List Piece) : Agree a a := ⟨rfl, rfl⟩

theorem symm {a b : List Piece} (h : Agree a b) : Agree b a := ⟨h.text.symm, h.origins.symm⟩

theorem trans {a b c : List Piece} (hab : Agree a b) (hbc : Agree b c) : Agree a c :=
  ⟨hab.text.trans hbc.text, hab.origins.trans hbc.origins⟩

theorem append {a b c d : List Piece} (hab : Agree a b) (hcd : Agree c d) :
    Agree (a ++ c) (b ++ d) := by
  constructor
  · rw [List.flatMap_append, List.flatMap_append, hab.text, hcd.text]
  · rw [List.flatMap_append, List.flatMap_append, hab.origins, hcd.origins]

theorem flatMap {α : Type} {l : List α} {f g : α → List Piece}
    (h : ∀ a ∈ l, Agree (f a) (g a)) : Agree (l.flatMap f) (l.flatMap g) := by
  induction l with
  | nil => exact refl []
  | cons a rest ih =>
    rw [List.flatMap_cons, List.flatMap_cons]
    exact (h a (by simp)).append (ih fun b hb => h b (by simp [hb]))

theorem made_nil : Agree [.made []] [] := ⟨rfl, rfl⟩

theorem source_append (start : Nat) (a b : Text) :
    Agree [.source start (a ++ b)] [.source start a, .source (start + Text.bytes a) b] := by
  constructor
  · simp [Piece.text]
  · have hshift (count : Nat) : List.map (Piece.source (start + Text.bytes a) b).originAt
        (List.range count) =
          List.map (fun i => Origin.copied (start + (Text.bytes a + i))) (List.range count) :=
      List.map_congr_left fun i _ => by simp only [Piece.originAt, Nat.add_assoc]
    have hfront (count : Nat) : List.map (Piece.source start (a ++ b)).originAt
        (List.range count) = List.map (Piece.source start a).originAt (List.range count) :=
      List.map_congr_left fun i _ => rfl
    simp only [List.flatMap_cons, List.flatMap_nil, List.append_nil, Piece.origins, Piece.text,
      Text.bytes_append, List.range_add, List.map_append, List.map_map, hshift, hfront]
    rfl

theorem source_cells (start : Nat) (text : Text) :
    Agree [.source start text]
      ((Text.cellsFrom start text).map fun cell => .source cell.offset [cell.char]) := by
  induction text generalizing start with
  | nil => exact ⟨rfl, rfl⟩
  | cons c rest ih =>
    have hcut := source_append start [c] rest
    have hrest := ih (start + Text.bytes [c])
    have hsame := (refl [.source start [c]]).append hrest
    refine hcut.trans ?_
    simpa [Text.cellsFrom] using hsame

end Agree

end Piece

open Piece (Agree)

namespace EditBuffer

/-- The texts on one side of an offset can be read off the edits. Texts that
are empty are not recorded. -/
theorem inserted_agree (edits : List Edit) (side : Side) (offset : Nat) :
    Agree
      (((edits.filterMap Edit.insertion?).filter
        fun i => i.side = side && i.offset == offset).map fun i => .made i.text)
      (Cellwise.inserted edits side offset) := by
  induction edits with
  | nil => exact Agree.refl []
  | cons edit rest ih =>
    have hone (own : Side) (place : Nat) (text : Text)
        (hinsertion : edit.insertion? = if text = [] then none else some ⟨place, own, text⟩)
        (hinserted : edit.inserted? side offset =
          if side = own ∧ place = offset then some text else none) :
        Agree
          ((((edit :: rest).filterMap Edit.insertion?).filter
            fun i => i.side = side && i.offset == offset).map fun i => .made i.text)
          (Cellwise.inserted (edit :: rest) side offset) := by
      by_cases hhere : side = own ∧ place = offset
      · rw [if_pos hhere] at hinserted
        obtain ⟨rfl, rfl⟩ := hhere
        have hcellwise : Cellwise.inserted (edit :: rest) side place =
            .made text :: Cellwise.inserted rest side place := by
          simp [Cellwise.inserted, hinserted]
        rw [hcellwise]
        by_cases htext : text = []
        · rw [if_pos htext] at hinsertion
          rw [List.filterMap_cons_none hinsertion, htext]
          exact Agree.made_nil.symm.append ih
        · rw [if_neg htext] at hinsertion
          rw [List.filterMap_cons_some hinsertion, List.filter_cons_of_pos (by simp),
            List.map_cons]
          exact (Agree.refl [.made text]).append ih
      · rw [if_neg hhere] at hinserted
        have hcellwise : Cellwise.inserted (edit :: rest) side offset =
            Cellwise.inserted rest side offset := by
          simp [Cellwise.inserted, hinserted]
        rw [hcellwise]
        by_cases htext : text = []
        · rw [if_pos htext] at hinsertion
          rw [List.filterMap_cons_none hinsertion]
          exact ih
        · rw [if_neg htext] at hinsertion
          have hother : ¬ (own = side && place == offset) = true := by
            rw [Bool.and_eq_true, decide_eq_true_eq, beq_iff_eq]
            rintro ⟨rfl, rfl⟩
            exact hhere ⟨rfl, rfl⟩
          rw [List.filterMap_cons_some hinsertion, List.filter_cons, if_neg hother]
          exact ih
    cases edit with
    | insertBefore place text => exact hone .before place text rfl rfl
    | insertAfter place text => exact hone .after place text rfl rfl
    | remove range => exact ih
    | overwrite range text => exact ih
    | move range destination => exact ih
    | prepend text => exact ih
    | append text => exact ih

section Cells

variable {source : Text} {edits : List Edit} {buffer : EditBuffer}

namespace Records

theorem insertedAt_agree (h : buffer.Records source edits) (side : Side) (offset : Nat) :
    Agree (buffer.insertedAt side offset) (Cellwise.inserted edits side offset) := by
  unfold insertedAt
  rw [h.insertions_eq]
  exact inserted_agree edits side offset

theorem inserted_of_not_cut (h : buffer.Records source edits) (side : Side) {offset : Nat}
    (hcut : offset ∉ buffer.cuts) : Agree (Cellwise.inserted edits side offset) [] := by
  refine (h.insertedAt_agree side offset).symm.trans ?_
  have hnone : buffer.insertedAt side offset = [] := by
    unfold insertedAt
    rw [List.map_eq_nil_iff, List.filter_eq_nil_iff]
    intro i hi hhere
    rw [Bool.and_eq_true, beq_iff_eq] at hhere
    exact hcut (mem_cuts.mpr (.inr (.inr (.inl ⟨i, hi, hhere.2.symm⟩))))
  rw [hnone]
  exact Agree.refl []

theorem findSome?_overwritten (h : buffer.Records source edits) {range : Span} {text : Text}
    {offset : Nat} (hr : ⟨range, some text⟩ ∈ buffer.replacements)
    (hin : range.contains offset = true) :
    edits.findSome? (Edit.overwritten? offset) = some (range, text) := by
  have hmem := (h.overwritten_iff range text).mp hr
  cases hfound : edits.findSome? (Edit.overwritten? offset) with
  | none =>
    have hnone := List.findSome?_eq_none_iff.mp hfound _ hmem
    simp [Edit.overwritten?, hin] at hnone
  | some found =>
    obtain ⟨edit, hedit, hgives⟩ := List.exists_of_findSome?_eq_some hfound
    cases edit with
    | overwrite other written =>
      simp only [Edit.overwritten?, Option.ite_none_right_eq_some, Option.some.injEq] at hgives
      obtain ⟨hother, rfl⟩ := hgives
      have hrecorded := (h.overwritten_iff other written).mpr hedit
      have hsame := h.consistent.eq_of_contains hrecorded hr hother hin
      simp only [Replacement.mk.injEq, Option.some.injEq] at hsame
      rw [hsame.1, hsame.2]
    | _ => simp [Edit.overwritten?] at hgives

theorem content_of_kept (h : buffer.Records source edits) {cell : Cell}
    (hkept : ∀ r ∈ buffer.replacements, r.range.contains cell.offset = false) :
    Cellwise.content edits cell = [.source cell.offset [cell.char]] := by
  have hremoved : edits.any (Edit.removes cell.offset) = false := by
    rw [← Bool.not_eq_true, ← h.removed_iff]
    rintro ⟨r, hr, -, hin⟩
    rw [hkept r hr] at hin
    cases hin
  have hoverwritten : edits.findSome? (Edit.overwritten? cell.offset) = none := by
    rw [List.findSome?_eq_none_iff]
    intro edit hedit
    cases edit with
    | overwrite range text =>
      have hr := (h.overwritten_iff range text).mpr hedit
      simp [Edit.overwritten?, hkept _ hr]
    | _ => rfl
  simp [Cellwise.content, hremoved, hoverwritten]

theorem content_of_removed (h : buffer.Records source edits) {cell : Cell} {r : Replacement}
    (hr : r ∈ buffer.replacements) (hnone : r.text = none)
    (hin : r.range.contains cell.offset = true) : Cellwise.content edits cell = [] := by
  have hremoved := (h.removed_iff cell.offset).mp ⟨r, hr, hnone, hin⟩
  simp [Cellwise.content, hremoved]

theorem content_of_overwritten (h : buffer.Records source edits) {cell : Cell} {range : Span}
    {text : Text} (hr : ⟨range, some text⟩ ∈ buffer.replacements)
    (hin : range.contains cell.offset = true) :
    Cellwise.content edits cell =
      if cell.offset = range.start then [.replacing range text] else [] := by
  have hremoved : edits.any (Edit.removes cell.offset) = false := by
    rw [← Bool.not_eq_true, ← h.removed_iff]
    rintro ⟨r, hmem, hnone, hother⟩
    rw [h.consistent.eq_of_contains hmem hr hother hin] at hnone
    cases hnone
  simp [Cellwise.content, hremoved, h.findSome?_overwritten hr hin]

theorem exists_cells_overwritten (h : buffer.Records source edits) {range : Span} {text : Text}
    (hr : ⟨range, some text⟩ ∈ buffer.replacements) :
    ∃ c rest, Text.slice source range = c :: rest ∧
      range.start + Text.bytes (c :: rest) = range.stop := by
  obtain ⟨hstart, hstop⟩ := h.consistent.replacement_place _ hr
  have hlt := h.consistent.replacement_nonempty _ hr
  rw [← h.source_eq]
  exact Text.exists_first hstart hstop hlt

/-- The text in place of a range stands in the first cell of the range. -/
theorem content_range (h : buffer.Records source edits) {range : Span} {text : Text}
    (hr : ⟨range, some text⟩ ∈ buffer.replacements) :
    (Text.cellsIn source range).flatMap (Cellwise.content edits) = [.replacing range text] := by
  obtain ⟨c, rest, hslice, hstop⟩ := h.exists_cells_overwritten hr
  have hpos := c.utf8Size_pos
  rw [Text.bytes_cons] at hstop
  have hcell {cell : Cell} (hle : range.start ≤ cell.offset) (hlt : cell.offset < range.stop) :
      Cellwise.content edits cell =
        if cell.offset = range.start then [.replacing range text] else [] :=
    h.content_of_overwritten hr ((Span.contains_iff _ _).mpr ⟨hle, hlt⟩)
  have hrest : (Text.cellsFrom (range.start + c.utf8Size) rest).flatMap
      (Cellwise.content edits) = [] := by
    rw [List.flatMap_eq_nil_iff]
    intro cell hlater
    have hgt := Text.offset_gt_of_mem_cellsFrom hlater
    have hbounds := Text.bounds_of_mem_cellsFrom hlater
    have hend := Text.stop_gt_offset cell
    rw [hcell (by omega) (by omega), if_neg (by omega)]
  have hfirst : Cellwise.content edits ⟨range.start, c⟩ = [.replacing range text] := by
    rw [hcell (Nat.le_refl _) (by dsimp only; omega), if_pos rfl]
  rw [Text.cellsIn, hslice, Text.cellsFrom, List.flatMap_cons, hrest, List.append_nil, hfirst]

/-- A segment's own text, or what stands for it, is what stands for its cells. -/
theorem content_agree (h : buffer.Records source edits) {segment : Span}
    (hs : buffer.IsSegment segment) :
    Agree (buffer.content segment)
      ((Text.cellsIn source segment).flatMap (Cellwise.content edits)) := by
  rw [← h.source_eq]
  have hcontains {r : Replacement} (hr : r ∈ buffer.replacements) {cell : Cell}
      (hcell : cell ∈ Text.cellsIn buffer.source segment) :
      r.range.contains cell.offset = r.range.containsSpan segment :=
    hs.replacement_contains_eq hr (hs.offset_mem h.consistent hcell)
  unfold EditBuffer.content
  cases hfind : buffer.replacements.find? (·.range.containsSpan segment) with
  | none =>
    have hkept : ∀ cell ∈ Text.cellsIn buffer.source segment,
        Cellwise.content edits cell = [.source cell.offset [cell.char]] := by
      intro cell hcell
      apply h.content_of_kept
      intro r hr
      rw [hcontains hr hcell]
      exact none_of_find? hfind r hr
    refine (Agree.source_cells _ _).trans ?_
    rw [List.map_eq_flatMap]
    apply Agree.flatMap
    intro cell hcell
    rw [hkept cell hcell]
    exact Agree.refl _
  | some r =>
    have hr := List.mem_of_find?_eq_some hfind
    have hcovers := List.find?_some hfind
    obtain ⟨range, written⟩ := r
    cases written with
    | none =>
      have hgone : ∀ cell ∈ Text.cellsIn buffer.source segment,
          Cellwise.content edits cell = [] := by
        intro cell hcell
        exact h.content_of_removed hr rfl ((hcontains hr hcell).trans hcovers)
      rw [List.flatMap_eq_nil_iff.mpr hgone]
      exact Agree.refl []
    | some text =>
      have hwhole := hs.eq_overwritten h.consistent hr hcovers
      subst hwhole
      dsimp only
      rw [if_pos rfl, h.source_eq, h.content_range hr]
      exact Agree.refl _

/-- Of a run of cells with no cut inside, only the first has text before it and
only the last has text after it. -/
theorem held_agree (h : buffer.Records source edits) {start stop : Nat} {c : Char} {rest : Text}
    (hstop : start + Text.bytes (c :: rest) = stop)
    (huncut : ∀ cut ∈ buffer.cuts, cut ≤ start ∨ stop ≤ cut) :
    Agree ((Text.cellsFrom start (c :: rest)).flatMap (Cellwise.held edits))
      (Cellwise.inserted edits .before start ++
        (Text.cellsFrom start (c :: rest)).flatMap (Cellwise.content edits) ++
        Cellwise.inserted edits .after stop) := by
  induction rest generalizing start c with
  | nil =>
    have hlast : start + c.utf8Size = stop := by simpa using hstop
    simpa [Text.cellsFrom, Cellwise.held, Cell.stop, hlast] using Agree.refl _
  | cons d rest ih =>
    have hpos := c.utf8Size_pos
    have hpos' := d.utf8Size_pos
    simp only [Text.bytes_cons] at hstop
    have hinside : start + c.utf8Size ∉ buffer.cuts := by
      intro hcut
      have hout := huncut _ hcut
      omega
    have hlater : ∀ cut ∈ buffer.cuts, cut ≤ start + c.utf8Size ∨ stop ≤ cut := by
      intro cut hcut
      have hout := huncut cut hcut
      omega
    have hlength : start + c.utf8Size + Text.bytes (d :: rest) = stop := by
      simp only [Text.bytes_cons]
      omega
    have htail := ih hlength hlater
    have hafter := h.inserted_of_not_cut .after hinside
    have hbefore := h.inserted_of_not_cut .before hinside
    rw [Text.cellsFrom, List.flatMap_cons, List.flatMap_cons]
    have hfirst : Agree (Cellwise.held edits ⟨start, c⟩)
        (Cellwise.inserted edits .before start ++ Cellwise.content edits ⟨start, c⟩) := by
      have hfront := (Agree.refl (Cellwise.inserted edits .before start ++
        Cellwise.content edits ⟨start, c⟩)).append hafter
      rw [List.append_nil] at hfront
      exact hfront
    have hrest : Agree
        ((Text.cellsFrom (start + c.utf8Size) (d :: rest)).flatMap (Cellwise.held edits))
        ((Text.cellsFrom (start + c.utf8Size) (d :: rest)).flatMap (Cellwise.content edits) ++
          Cellwise.inserted edits .after stop) := by
      have hfront := (hbefore.append (Agree.refl
        ((Text.cellsFrom (start + c.utf8Size) (d :: rest)).flatMap
          (Cellwise.content edits)))).append (Agree.refl (Cellwise.inserted edits .after stop))
      rw [List.nil_append] at hfront
      exact htail.trans hfront
    simpa [List.append_assoc] using hfirst.append hrest

theorem held_range (h : buffer.Records source edits) {range : Span} {text : Text}
    (hr : ⟨range, some text⟩ ∈ buffer.replacements) :
    Agree ((Text.cellsIn source range).flatMap (Cellwise.held edits))
      (Cellwise.inserted edits .before range.start ++ [.replacing range text] ++
        Cellwise.inserted edits .after range.stop) := by
  have hcontent := h.content_range hr
  obtain ⟨c, rest, hslice, hstop⟩ := h.exists_cells_overwritten hr
  rw [Text.cellsIn, hslice] at hcontent ⊢
  rw [← hcontent]
  exact h.held_agree hstop fun cut hcut => h.consistent.cut_outside_overwritten hr hcut

theorem segmentPieces_agree (h : buffer.Records source edits) {segment : Span}
    (hs : buffer.IsSegment segment) :
    Agree (buffer.segmentPieces segment)
      ((Text.cellsIn source segment).flatMap (Cellwise.held edits)) := by
  have hcontent := h.content_agree hs
  obtain ⟨c, rest, hslice, hstop⟩ := hs.exists_cells h.consistent
  rw [h.source_eq] at hslice
  rw [Text.cellsIn, hslice] at hcontent ⊢
  refine Agree.trans ?_ (h.held_agree hstop hs.uncut).symm
  exact ((h.insertedAt_agree .before segment.start).append hcontent).append
    (h.insertedAt_agree .after segment.stop)

end Records

end Cells

end EditBuffer

end TypedComponent
