import TypedComponent.Proofs.Edit.Relocation
import TypedComponent.Proofs.Edit.Swapping

/-!
What the same edits make of two texts that differ in one stretch. The texts are
cut at the same places and their segments come in the same order. Text beside
the stretch is written alike, and so nothing tells the results apart once the
stretch itself is removed.
-/

namespace TypedComponent

/-- Taking renumbered values while a test holds. -/
theorem List.takeWhile_of_map {α β : Type} {f : α → β} {p : β → Bool} {q : α → Bool} {l : List α}
    (h : ∀ a ∈ l, p (f a) = q a) : (l.map f).takeWhile p = (l.takeWhile q).map f := by
  induction l with
  | nil => rfl
  | cons a rest ih =>
    have hrest := ih fun b hb => h b (List.mem_cons_of_mem a hb)
    rw [List.map_cons, List.takeWhile_cons, List.takeWhile_cons, h a List.mem_cons_self, hrest]
    cases q a <;> rfl

theorem List.dropWhile_of_map {α β : Type} {f : α → β} {p : β → Bool} {q : α → Bool} {l : List α}
    (h : ∀ a ∈ l, p (f a) = q a) : (l.map f).dropWhile p = (l.dropWhile q).map f := by
  induction l with
  | nil => rfl
  | cons a rest ih =>
    have hrest := ih fun b hb => h b (List.mem_cons_of_mem a hb)
    rw [List.map_cons, List.dropWhile_cons, List.dropWhile_cons, h a List.mem_cons_self, hrest]
    cases q a <;> rfl

theorem List.filter_of_map {α β : Type} {f : α → β} {p : β → Bool} {q : α → Bool} {l : List α}
    (h : ∀ a ∈ l, p (f a) = q a) : (l.map f).filter p = (l.filter q).map f := by
  rw [List.filter_map]
  exact congrArg (List.map f) (List.filter_congr h)

namespace EditBuffer

section Cuts

variable {swap : Swap}

theorem insertCut_place {cut : Nat} {cuts : List Nat} (hcut : swap.Outside cut)
    (hcuts : ∀ other ∈ cuts, swap.Outside other) :
    insertCut (swap.place cut) (cuts.map swap.place) = (insertCut cut cuts).map swap.place := by
  induction cuts with
  | nil => rfl
  | cons first rest ih =>
    have hfirst := hcuts first List.mem_cons_self
    have hrest := ih fun other hother => hcuts other (List.mem_cons_of_mem first hother)
    rw [List.map_cons, insertCut, insertCut]
    simp only [Swap.place_lt hcut hfirst, Swap.place_eq hcut hfirst, hrest]
    split
    · rfl
    · split <;> rfl

theorem foldr_insertCut_place {offsets : List Nat} (h : ∀ offset ∈ offsets, swap.Outside offset) :
    (offsets.map swap.place).foldr insertCut [] =
      (offsets.foldr insertCut []).map swap.place := by
  induction offsets with
  | nil => rfl
  | cons first rest ih =>
    have hrest : ∀ offset ∈ rest, swap.Outside offset :=
      fun offset hoffset => h offset (List.mem_cons_of_mem first hoffset)
    rw [List.map_cons, List.foldr_cons, List.foldr_cons, ih hrest]
    exact insertCut_place (h first List.mem_cons_self)
      fun other hother => hrest other (mem_foldr_insertCut.mp hother)

theorem between_map (place : Nat → Nat) (cuts : List Nat) :
    between (cuts.map place) = (between cuts).map (·.renumbered place) := by
  induction cuts with
  | nil => rfl
  | cons first rest ih =>
    cases rest with
    | nil => rfl
    | cons second others =>
      rw [List.map_cons] at ih
      rw [List.map_cons, List.map_cons, between_cons_cons, between_cons_cons, List.map_cons, ih]
      rfl

end Cuts

namespace Carried

variable {swap : Swap} {buffer other : EditBuffer} {segment : Span}

theorem cut_outside (h : Carried swap buffer other) {cut : Nat} (hcut : cut ∈ buffer.cuts) :
    swap.Outside cut := by
  rcases mem_cuts.mp hcut with rfl | rfl | ⟨i, hi, rfl⟩ | ⟨r, hr, rfl | rfl⟩ |
    ⟨m, hm, rfl | rfl | rfl⟩
  · exact swap.outside_zero
  · rw [length, h.source]
    exact swap.outside_bytes
  · exact h.insertions i hi
  · exact (h.replacements r hr).1
  · exact (h.replacements r hr).2
  · exact (h.moves m hm).1.1
  · exact (h.moves m hm).1.2
  · exact (h.moves m hm).2

theorem segment_spares (h : Carried swap buffer other) (hs : buffer.IsSegment segment) :
    swap.Spares segment :=
  ⟨h.cut_outside hs.start_cut, h.cut_outside hs.stop_cut⟩

theorem length_eq (h : Carried swap buffer other) : other.length = swap.place buffer.length := by
  rw [length, length, h.other_eq, h.source, swap.place_bytes]

theorem cuts_eq (h : Carried swap buffer other) : other.cuts = buffer.cuts.map swap.place := by
  have houtside (cut : Nat) : cut ∈ buffer.cuts → swap.Outside cut := h.cut_outside
  unfold cuts at houtside ⊢
  simp only [mem_foldr_insertCut] at houtside
  rw [← foldr_insertCut_place houtside, h.length_eq, h.other_eq]
  simp only [List.map_cons, List.map_append, List.map_map, List.map_flatMap, List.flatMap_map,
    swap.place_zero]
  rfl

theorem segments_eq (h : Carried swap buffer other) :
    other.segments = buffer.segments.map (·.renumbered swap.place) := by
  rw [segments, h.cuts_eq, between_map]
  rfl

theorem applyMove_eq {order : List Span} (horder : ∀ segment ∈ order, swap.Spares segment)
    {move : Move} (hmove : swap.Spares move.range ∧ swap.Outside move.destination) :
    applyMove (order.map (·.renumbered swap.place)) (move.renumbered swap.place) =
      (applyMove order move).map (·.renumbered swap.place) := by
  have hmoved := List.filter_of_map fun segment hsegment =>
    Swap.containsSpan_renumbered hmove.1 (horder segment hsegment)
  have hothers := List.filter_of_map
    (p := fun segment => !(move.range.renumbered swap.place).containsSpan segment)
    (q := fun segment => !move.range.containsSpan segment)
    (fun segment hsegment =>
      congrArg not (Swap.containsSpan_renumbered hmove.1 (horder segment hsegment)))
  have hstart : ∀ segment ∈ order.filter (!move.range.containsSpan ·),
      ((segment.renumbered swap.place).start != swap.place move.destination) =
        (segment.start != move.destination) := by
    intro segment hsegment
    have hspares := horder segment (List.mem_filter.mp hsegment).1
    rw [Bool.eq_iff_iff, bne_iff_ne, bne_iff_ne, ne_eq, ne_eq, Span.renumbered,
      Swap.place_eq hspares.1 hmove.2]
  unfold applyMove
  dsimp only [Move.renumbered]
  rw [hmoved, hothers,
    List.takeWhile_of_map (p := fun s : Span => s.start != swap.place move.destination) hstart,
    List.dropWhile_of_map (p := fun s : Span => s.start != swap.place move.destination) hstart,
    List.map_append, List.map_append]

theorem foldl_applyMove_eq {moves : List Move} {order : List Span}
    (horder : ∀ segment ∈ order, swap.Spares segment)
    (hmoves : ∀ m ∈ moves, swap.Spares m.range ∧ swap.Outside m.destination) :
    (moves.map (·.renumbered swap.place)).foldl applyMove
        (order.map (·.renumbered swap.place)) =
      (moves.foldl applyMove order).map (·.renumbered swap.place) := by
  induction moves generalizing order with
  | nil => rfl
  | cons move rest ih =>
    rw [List.map_cons, List.foldl_cons, List.foldl_cons,
      applyMove_eq horder (hmoves move List.mem_cons_self)]
    refine ih (fun segment hsegment => ?_)
      fun m hm => hmoves m (List.mem_cons_of_mem move hm)
    exact horder segment ((applyMove_perm order move).mem_iff.mp hsegment)

/-- The segments of both texts are written in the same order. -/
theorem order_eq (h : Carried swap buffer other) :
    other.order = buffer.order.map (·.renumbered swap.place) := by
  have hsegments := foldl_applyMove_eq
    (fun segment hsegment => h.segment_spares (isSegment_of_mem hsegment)) h.moves
  rw [order, h.segments_eq]
  rw [show other.moves = buffer.moves.map (·.renumbered swap.place) by rw [h.other_eq]]
  exact hsegments

theorem insertedAt_eq (h : Carried swap buffer other) (side : Side) {offset : Nat}
    (hoffset : swap.Outside offset) :
    other.insertedAt side (swap.place offset) = buffer.insertedAt side offset := by
  unfold insertedAt
  rw [h.other_eq, List.filter_of_map
    (q := fun i => decide (i.side = side) && i.offset == offset), List.map_map]
  · rfl
  · intro i hi
    have hplace : (swap.place i.offset == swap.place offset) = (i.offset == offset) := by
      rw [Bool.eq_iff_iff, beq_iff_eq, beq_iff_eq, Swap.place_eq (h.insertions i hi) hoffset]
    exact congrArg (decide (i.side = side) && ·) hplace

/-- A segment that the stretch is part of is removed as a whole. -/
theorem find?_stretch (h : buffer.Consistent) (hs : buffer.IsSegment segment)
    {r : Replacement} (hr : r ∈ buffer.replacements)
    (hin : r.range.contains swap.span.start = true)
    (hpart : segment.contains swap.span.start = true) :
    buffer.replacements.find? (·.range.containsSpan segment) = some r := by
  have hholds := hs.replacement_contains_eq hr hpart ▸ hin
  cases hfind : buffer.replacements.find? (·.range.containsSpan segment) with
  | none => exact absurd hholds (by simp [none_of_find? hfind r hr])
  | some found =>
    have hmem := List.mem_of_find?_eq_some hfind
    have hcontains := List.find?_some hfind
    have hfound := (hs.replacement_contains_eq hmem hpart).trans hcontains
    rw [h.eq_of_contains hmem hr hfound hin]

theorem content_eq (h : Carried swap buffer other) (hconsistent : buffer.Consistent)
    (hs : buffer.IsSegment segment) {r : Replacement} (hr : r ∈ buffer.replacements)
    (hremoved : r.text = none) (hin : r.range.contains swap.span.start = true) :
    (other.content (segment.renumbered swap.place)).flatMap Piece.text =
      (buffer.content segment).flatMap Piece.text := by
  have hspares := h.segment_spares hs
  have hfind : other.replacements.find? (·.range.containsSpan (segment.renumbered swap.place)) =
      (buffer.replacements.find? (·.range.containsSpan segment)).map
        (·.renumbered swap.place) := by
    rw [h.other_eq]
    exact List.find?_of_map fun r hr => Swap.containsSpan_renumbered (h.replacements r hr) hspares
  unfold content
  rw [hfind]
  by_cases hpart : segment.contains swap.span.start = true
  · rw [find?_stretch hconsistent hs hr hin hpart]
    obtain ⟨range, text⟩ := r
    cases hremoved
    rfl
  cases hfound : buffer.replacements.find? (·.range.containsSpan segment) with
  | some found =>
    obtain ⟨range, text⟩ := found
    cases text with
    | none => rfl
    | some text =>
      have hrange := h.replacements _ (List.mem_of_find?_eq_some hfound)
      simp only [Option.map_some, Replacement.renumbered, Span.renumbered,
        Swap.place_eq hspares.1 hrange.1]
      split <;> rfl
  | none =>
    have haside : segment.stop ≤ swap.span.start ∨ swap.span.stop ≤ segment.start := by
      rw [Span.contains_iff] at hpart
      have hstart := hspares.1
      have hlt := swap.span_lt
      unfold Swap.Outside at hstart
      omega
    have hslice := Swap.slice_place (h.source ▸ hconsistent.cut_isPlace hs.start_cut)
      (h.source ▸ hconsistent.cut_isPlace hs.stop_cut) (Nat.le_of_lt hs.nonempty) haside
    have hother : other.source = swap.second := by rw [h.other_eq]
    simp only [Option.map_none, List.flatMap_singleton, Piece.text, hother, h.source, hslice]

/-- Once the stretch is removed, the same edits make the same code. -/
theorem finish_code_eq (h : Carried swap buffer other) (hconsistent : buffer.Consistent)
    {r : Replacement} (hr : r ∈ buffer.replacements) (hremoved : r.text = none)
    (hin : r.range.contains swap.span.start = true) :
    other.finish.code = buffer.finish.code := by
  have hsegments : (other.order.flatMap other.segmentPieces).flatMap Piece.text =
      (buffer.order.flatMap buffer.segmentPieces).flatMap Piece.text := by
    rw [h.order_eq, List.flatMap_assoc, List.flatMap_assoc, List.flatMap_map]
    refine congrArg List.flatten (List.map_congr_left fun segment hsegment => ?_)
    have hs := isSegment_of_mem_order hsegment
    have hspares := h.segment_spares hs
    unfold segmentPieces
    rw [Span.renumbered, h.insertedAt_eq .before hspares.1, h.insertedAt_eq .after hspares.2]
    simp only [List.flatMap_append]
    rw [← h.content_eq hconsistent hs hr hremoved hin, Span.renumbered]
  have hintro : other.intro = buffer.intro := by rw [h.other_eq]
  have houtro : other.outro = buffer.outro := by rw [h.other_eq]
  have hfirst : other.insertedAt .after 0 = buffer.insertedAt .after 0 := by
    have hplace := h.insertedAt_eq .after swap.outside_zero
    rwa [swap.place_zero] at hplace
  have hlast : other.insertedAt .before other.length =
      buffer.insertedAt .before buffer.length := by
    rw [h.length_eq]
    refine h.insertedAt_eq .before ?_
    rw [length, h.source]
    exact swap.outside_bytes
  unfold finish Edited.ofPieces pieces
  simp only [List.flatMap_append, List.flatMap_cons, hsegments, hintro, houtro, hfirst, hlast]

end Carried

end EditBuffer

end TypedComponent
