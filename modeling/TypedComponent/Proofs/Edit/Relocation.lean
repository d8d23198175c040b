import TypedComponent.Proofs.Edit.Agreement

/-!
Moving segments moves the cells in them. A moved range is made of whole
segments and its destination is the start of one or the end of the text, so a
move of segments, spelled out in cells, is the move of those cells.
-/

namespace TypedComponent

open Piece (Agree)

section Runs

variable {α β : Type} {l : List α} {run : α → List β} {p : β → Bool} {q : α → Bool}

/-- Runs that a test accepts or refuses as wholes are kept as wholes. -/
theorem filter_runs (h : ∀ a ∈ l, ∀ b ∈ run a, p b = q a) :
    (l.flatMap run).filter p = (l.filter q).flatMap run := by
  induction l with
  | nil => rfl
  | cons a rest ih =>
    have hrest := ih fun x hx => h x (by simp [hx])
    have ha := h a (by simp)
    rw [List.flatMap_cons, List.filter_append, hrest]
    by_cases hq : q a = true
    · have hall : (run a).filter p = run a := by
        rw [List.filter_eq_self]
        intro b hb
        rw [ha b hb, hq]
      rw [hall, List.filter_cons_of_pos hq, List.flatMap_cons]
    · have hnone : (run a).filter p = [] := by
        rw [List.filter_eq_nil_iff]
        intro b hb
        rw [ha b hb]
        exact hq
      rw [hnone, List.filter_cons_of_neg hq, List.nil_append]

/-- A run is passed over as a whole, or the search stops at its first element. -/
def Stops (p : β → Bool) (q : α → Bool) (run : α → List β) (a : α) : Prop :=
  (q a = true ∧ ∀ b ∈ run a, p b = true) ∨
    (q a = false ∧ ∃ b rest, run a = b :: rest ∧ p b = false)

theorem takeWhile_runs (h : ∀ a ∈ l, Stops p q run a) :
    (l.flatMap run).takeWhile p = (l.takeWhile q).flatMap run := by
  induction l with
  | nil => rfl
  | cons a rest ih =>
    have hrest := ih fun x hx => h x (by simp [hx])
    rw [List.flatMap_cons]
    rcases h a (by simp) with ⟨hq, hall⟩ | ⟨hq, b, more, hrun, hb⟩
    · rw [List.takeWhile_append_of_pos hall, hrest, List.takeWhile_cons_of_pos hq,
        List.flatMap_cons]
    · rw [List.takeWhile_cons_of_neg (by simp [hq]), hrun, List.cons_append,
        List.takeWhile_cons_of_neg (by simp [hb])]
      rfl

theorem dropWhile_runs (h : ∀ a ∈ l, Stops p q run a) :
    (l.flatMap run).dropWhile p = (l.dropWhile q).flatMap run := by
  induction l with
  | nil => rfl
  | cons a rest ih =>
    have hrest := ih fun x hx => h x (by simp [hx])
    rw [List.flatMap_cons]
    rcases h a (by simp) with ⟨hq, hall⟩ | ⟨hq, b, more, hrun, hb⟩
    · rw [List.dropWhile_append_of_pos hall, hrest, List.dropWhile_cons_of_pos hq]
    · rw [List.dropWhile_cons_of_neg (by simp [hq]), hrun, List.cons_append,
        List.dropWhile_cons_of_neg (by simp [hb]), List.flatMap_cons, hrun, List.cons_append]

end Runs

namespace EditBuffer

variable {buffer : EditBuffer}

theorem applyMove_perm (order : List Span) (move : Move) :
    (applyMove order move).Perm order := by
  unfold applyMove
  dsimp only
  generalize hmoved : order.filter (move.range.containsSpan ·) = moved
  generalize hothers : order.filter (!move.range.containsSpan ·) = others
  have hsplit := List.takeWhile_append_dropWhile (p := (·.start != move.destination)) (l := others)
  have hparts : (moved ++ others).Perm order := by
    rw [← hmoved, ← hothers]
    exact List.filter_append_perm _ order
  refine List.Perm.trans ?_ hparts
  rw [List.append_assoc]
  refine List.perm_append_comm_assoc _ _ _ |>.trans ?_
  rw [hsplit]

theorem foldl_applyMove_perm (moves : List Move) (order : List Span) :
    (moves.foldl applyMove order).Perm order := by
  induction moves generalizing order with
  | nil => exact List.Perm.refl order
  | cons move rest ih => exact (ih (applyMove order move)).trans (applyMove_perm order move)

theorem order_perm (buffer : EditBuffer) : buffer.order.Perm buffer.segments :=
  foldl_applyMove_perm buffer.moves buffer.segments

theorem isSegment_of_mem_order {segment : Span} (h : segment ∈ buffer.order) :
    buffer.IsSegment segment :=
  isSegment_of_mem (buffer.order_perm.mem_iff.mp h)

/-- A search for the segment at a cut is a search for the cell there. -/
theorem IsSegment.stops (h : buffer.Consistent) {segment : Span} (hs : buffer.IsSegment segment)
    {destination : Nat} (hcut : destination ∈ buffer.cuts) :
    Stops (fun cell : Cell => cell.offset != destination)
      (fun segment : Span => segment.start != destination) (Text.cellsIn buffer.source)
      segment := by
  by_cases hstart : segment.start = destination
  · obtain ⟨c, rest, hslice, -⟩ := hs.exists_cells h
    refine .inr ⟨by simp [hstart], ⟨segment.start, c⟩,
      Text.cellsFrom (segment.start + c.utf8Size) rest, ?_, by simp [hstart]⟩
    rw [Text.cellsIn, hslice]
    rfl
  · refine .inl ⟨by simp [hstart], ?_⟩
    intro cell hcell
    have hin := hs.offset_mem h hcell
    have hout := hs.uncut destination hcut
    rw [Span.contains_iff] at hin
    rw [bne_iff_ne]
    omega

theorem applyMove_cells (h : buffer.Consistent) {move : Move} (hmove : move ∈ buffer.moves)
    {order : List Span} (horder : ∀ segment ∈ order, buffer.IsSegment segment) :
    (applyMove order move).flatMap (Text.cellsIn buffer.source) =
      Cellwise.relocate (order.flatMap (Text.cellsIn buffer.source)) move := by
  have hcut : move.destination ∈ buffer.cuts :=
    mem_cuts.mpr (.inr (.inr (.inr (.inr ⟨move, hmove, .inr (.inr rfl)⟩))))
  have hwhole : ∀ segment ∈ order, ∀ cell ∈ Text.cellsIn buffer.source segment,
      move.range.contains cell.offset = move.range.containsSpan segment := by
    intro segment hsegment cell hcell
    have hs := horder segment hsegment
    exact hs.move_contains_eq hmove (hs.offset_mem h hcell)
  have hothers : ∀ segment ∈ order, ∀ cell ∈ Text.cellsIn buffer.source segment,
      (!move.range.contains cell.offset) = !move.range.containsSpan segment := by
    intro segment hsegment cell hcell
    rw [hwhole segment hsegment cell hcell]
  have hstops : ∀ segment ∈ order.filter (!move.range.containsSpan ·),
      Stops (fun cell : Cell => cell.offset != move.destination)
        (fun segment : Span => segment.start != move.destination)
        (Text.cellsIn buffer.source) segment := by
    intro segment hsegment
    exact (horder segment (List.mem_filter.mp hsegment).1).stops h hcut
  simp only [applyMove, Cellwise.relocate, List.flatMap_append]
  rw [filter_runs hwhole, filter_runs hothers, takeWhile_runs hstops, dropWhile_runs hstops]

theorem foldl_applyMove_cells (h : buffer.Consistent) {moves : List Move}
    (hmoves : ∀ move ∈ moves, move ∈ buffer.moves) {order : List Span}
    (horder : ∀ segment ∈ order, buffer.IsSegment segment) :
    (moves.foldl applyMove order).flatMap (Text.cellsIn buffer.source) =
      moves.foldl Cellwise.relocate (order.flatMap (Text.cellsIn buffer.source)) := by
  induction moves generalizing order with
  | nil => rfl
  | cons move rest ih =>
    have hnext : ∀ segment ∈ applyMove order move, buffer.IsSegment segment := by
      intro segment hsegment
      exact horder segment ((applyMove_perm order move).mem_iff.mp hsegment)
    have hstep := applyMove_cells h (hmoves move (by simp)) horder
    rw [List.foldl_cons, List.foldl_cons, ← hstep]
    exact ih (fun m hm => hmoves m (by simp [hm])) hnext

namespace Records

variable {source : Text} {edits : List Edit}

theorem order_cells (h : buffer.Records source edits) :
    buffer.order.flatMap (Text.cellsIn source) = Cellwise.order source edits := by
  unfold order Cellwise.order
  rw [← h.source_eq, foldl_applyMove_cells h.consistent (fun _ hm => hm)
    (fun _ hs => isSegment_of_mem hs), cellsIn_segments h.consistent, h.moves_eq]

/-- The pieces that a buffer writes come to what its edits mean. -/
theorem pieces_agree (h : buffer.Records source edits) :
    Agree buffer.pieces (Cellwise.pieces source edits) := by
  have hsegments : Agree (buffer.order.flatMap buffer.segmentPieces)
      ((Cellwise.order source edits).flatMap (Cellwise.held edits)) := by
    rw [← h.order_cells, List.flatMap_assoc]
    apply Agree.flatMap
    intro segment hsegment
    exact h.segmentPieces_agree (isSegment_of_mem_order hsegment)
  have hlength : buffer.length = Text.bytes source := by rw [length, h.source_eq]
  unfold pieces Cellwise.pieces
  rw [h.intro_eq, h.outro_eq, hlength]
  have hfront := (Agree.refl [.made (Cellwise.intro edits)]).append
    (h.insertedAt_agree .after 0)
  have hbody := (hfront.append hsegments).append
    (h.insertedAt_agree .before (Text.bytes source))
  exact hbody.append (Agree.refl [.made (Cellwise.outro edits)])

end Records

/-- Whatever edits are called for, in whatever order, a buffer writes what the
accepted ones mean character by character. -/
theorem finish_code_run (source : Text) (edits : List Edit) :
    ((ofText source).run edits).finish.code =
      (Cellwise.pieces source ((ofText source).accepted edits)).flatMap Piece.text :=
  (run_records (ofText_records source) edits).pieces_agree.text

end EditBuffer

end TypedComponent
