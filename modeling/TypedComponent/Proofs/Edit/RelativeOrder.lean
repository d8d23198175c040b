import Mathlib.Data.List.Flatten
import Mathlib.Data.List.NodupEquivFin
import TypedComponent.Proofs.Edit.Positions

/-!
Which source bytes keep their order. A move takes its range along as one and
leaves the rest as it is, so of two bytes that it takes both or neither the
first stays first, wherever the move goes to; and so on through all moves.
-/

namespace TypedComponent

/-- Elements of a list, one of which cannot come after the other. -/
theorem pair_sublist {α : Type} {R : α → α → Prop} {l : List α} (h : l.Pairwise R) {a b : α}
    (ha : a ∈ l) (hb : b ∈ l) (hne : b ≠ a) (hlater : ¬ R b a) : [a, b].Sublist l := by
  obtain ⟨front, back, rfl⟩ := List.append_of_mem ha
  rcases List.mem_append.mp hb with hfront | hrest
  · exact absurd ((List.pairwise_append.mp h).2.2 b hfront a List.mem_cons_self) hlater
  · have hback : b ∈ back := (List.mem_cons.mp hrest).resolve_left hne
    exact List.sublist_append_of_sublist_right
      ((List.singleton_sublist.mpr hback).cons_cons a)

/-- Bytes that a source piece copies come in their order. -/
theorem Piece.copied_sublist {start first second : Nat} {text : Text} (hstart : start ≤ first)
    (hlt : first < second) (hstop : second < start + Text.bytes text) :
    [Origin.copied first, .copied second].Sublist (Piece.source start text).origins := by
  have hpair : [first - start, second - start].Sublist (List.range (Text.bytes text)) :=
    pair_sublist List.pairwise_lt_range (List.mem_range.mpr (by omega))
      (List.mem_range.mpr (by omega)) (by omega) (by omega)
  have hmap := hpair.map (Piece.source start text).originAt
  simp only [List.map_cons, List.map_nil, Piece.originAt] at hmap
  rwa [Nat.add_sub_cancel' hstart, Nat.add_sub_cancel' (by omega)] at hmap

theorem Piece.copied_mem {start offset : Nat} {text : Text} (hstart : start ≤ offset)
    (hstop : offset < start + Text.bytes text) :
    Origin.copied offset ∈ (Piece.source start text).origins := by
  refine List.mem_map.mpr ⟨offset - start, List.mem_range.mpr ?_, ?_⟩
  · simp only [Piece.text]
    omega
  · simp only [Piece.originAt, Nat.add_sub_cancel' hstart]

namespace Cellwise

/-- The ranges that edits move. A range that is moved to an end of it is none. -/
def movedRanges (edits : List Edit) : List Span :=
  (edits.filterMap Edit.relocation?).map Move.range

/-- Two bytes of one moved range, or two that no move takes along. -/
def Together (edits : List Edit) (first second : Nat) : Prop :=
  (∀ range ∈ movedRanges edits,
    range.contains first = false ∧ range.contains second = false) ∨
  ∃ range ∈ movedRanges edits, range.contains first = true ∧ range.contains second = true

end Cellwise

namespace EditBuffer

/-- A move that takes all of some segments along, or none of them, keeps them in
their order. -/
theorem sublist_applyMove {kept order : List Span} {move : Move} (h : kept.Sublist order)
    (hsame : (∀ a ∈ kept, move.range.containsSpan a = true) ∨
      ∀ a ∈ kept, move.range.containsSpan a = false) :
    kept.Sublist (applyMove order move) := by
  unfold applyMove
  dsimp only
  rcases hsame with hmoved | hothers
  · have hfilter := h.filter (move.range.containsSpan ·)
    rw [List.filter_eq_self.mpr hmoved] at hfilter
    exact hfilter.trans ((List.sublist_append_right _ _).trans (List.sublist_append_left _ _))
  · have hfilter := h.filter (!move.range.containsSpan ·)
    rw [List.filter_eq_self.mpr fun a ha => by rw [hothers a ha]; rfl] at hfilter
    refine hfilter.trans ?_
    -- The segments left behind are cut in two, and the moved ones come between.
    generalize order.filter (!move.range.containsSpan ·) = others
    have hcut := List.takeWhile_append_dropWhile (p := (·.start != move.destination)) (l := others)
    have hbetween := (List.sublist_append_left (others.takeWhile (·.start != move.destination))
      (order.filter (move.range.containsSpan ·))).append
        (List.Sublist.refl (others.dropWhile (·.start != move.destination)))
    rwa [hcut] at hbetween

theorem sublist_foldl_applyMove {kept order : List Span} {moves : List Move}
    (h : kept.Sublist order)
    (hsame : ∀ move ∈ moves, (∀ a ∈ kept, move.range.containsSpan a = true) ∨
      ∀ a ∈ kept, move.range.containsSpan a = false) :
    kept.Sublist (moves.foldl applyMove order) := by
  induction moves generalizing order with
  | nil => exact h
  | cons move rest ih =>
    have hstep := sublist_applyMove h (hsame move List.mem_cons_self)
    exact ih hstep fun m hm => hsame m (List.mem_cons_of_mem _ hm)

section

variable {buffer : EditBuffer} {first second offset : Nat}

theorem segmentPieces_origins_sublist {segments : List Span} (h : segments.Sublist buffer.order) :
    (segments.flatMap fun segment => (buffer.segmentPieces segment).flatMap Piece.origins).Sublist
      (buffer.pieces.flatMap Piece.origins) := by
  rw [← List.flatMap_assoc]
  refine List.Sublist.flatMap ((h.flatMap buffer.segmentPieces).trans ?_) Piece.origins
  unfold pieces
  exact (List.sublist_append_right _ _).trans
    ((List.sublist_append_left _ _).trans (List.sublist_append_left _ _))

/-- What is written for a segment with a kept byte holds the bytes of the segment
one after another. -/
theorem IsSegment.origins_sublist (h : buffer.Consistent) {segment : Span}
    (hs : buffer.IsSegment segment) (hin : segment.contains offset = true)
    (hkept : ∀ r ∈ buffer.replacements, r.range.contains offset = false) :
    ∃ text, segment.start + Text.bytes text = segment.stop ∧
      (Piece.source segment.start text).origins.Sublist
        ((buffer.segmentPieces segment).flatMap Piece.origins) := by
  obtain ⟨c, rest, hslice, hstop⟩ := hs.exists_cells h
  refine ⟨c :: rest, hstop, ?_⟩
  rw [segmentPieces, hs.content_of_kept h hin hkept, hslice, List.flatMap_append,
    List.flatMap_append, List.flatMap_singleton]
  exact (List.sublist_append_right _ _).trans (List.sublist_append_left _ _)

theorem IsSegment.copied_mem (h : buffer.Consistent) {segment : Span}
    (hs : buffer.IsSegment segment) (hin : segment.contains offset = true)
    (hkept : ∀ r ∈ buffer.replacements, r.range.contains offset = false) :
    Origin.copied offset ∈ (buffer.segmentPieces segment).flatMap Piece.origins := by
  obtain ⟨text, hstop, hown⟩ := hs.origins_sublist h hin hkept
  rw [Span.contains_iff] at hin
  exact hown.subset (Piece.copied_mem hin.1 (by omega))

/-- Two kept bytes that every move takes both or neither are written one before
the other. -/
theorem Consistent.copied_sublist (h : buffer.Consistent) (hlt : first < second)
    (hbound : second < buffer.length)
    (hfirst : ∀ r ∈ buffer.replacements, r.range.contains first = false)
    (hsecond : ∀ r ∈ buffer.replacements, r.range.contains second = false)
    (hsame : ∀ m ∈ buffer.moves, m.range.contains first = m.range.contains second) :
    [Origin.copied first, .copied second].Sublist (buffer.pieces.flatMap Piece.origins) := by
  obtain ⟨a, ha, hina⟩ := exists_segment (Nat.lt_trans hlt hbound)
  obtain ⟨b, hb, hinb⟩ := exists_segment hbound
  have hsa := isSegment_of_mem ha
  have hsb := isSegment_of_mem hb
  have hstart := (Span.contains_iff _ _).mp hina
  have hstop := (Span.contains_iff _ _).mp hinb
  by_cases hab : b = a
  · subst hab
    obtain ⟨text, htext, hown⟩ := hsb.origins_sublist h hina hfirst
    have hpair := Piece.copied_sublist hstart.1 hlt (htext ▸ hstop.2)
    have hsegment : [b].Sublist buffer.order :=
      List.singleton_sublist.mpr (buffer.order_perm.mem_iff.mpr hb)
    have hall := segmentPieces_origins_sublist hsegment
    rw [List.flatMap_singleton] at hall
    exact (hpair.trans hown).trans hall
  · have hsegments : [a, b].Sublist buffer.segments := by
      refine pair_sublist buffer.segments_apart ha hb hab ?_
      omega
    have hmoves : ∀ m ∈ buffer.moves, (∀ s ∈ [a, b], m.range.containsSpan s = true) ∨
        ∀ s ∈ [a, b], m.range.containsSpan s = false := by
      intro m hm
      have hboth := hsame m hm
      rw [hsa.move_contains_eq hm hina, hsb.move_contains_eq hm hinb] at hboth
      cases hwhole : m.range.containsSpan b <;> simp [hboth, hwhole]
    have hall := segmentPieces_origins_sublist (sublist_foldl_applyMove hsegments hmoves)
    rw [List.flatMap_cons, List.flatMap_singleton] at hall
    have hfront := List.singleton_sublist.mpr (hsa.copied_mem h hina hfirst)
    have hback := List.singleton_sublist.mpr (hsb.copied_mem h hinb hsecond)
    exact (hfront.append hback).trans hall

/-- Bytes of one moved range, or of none, are taken along both or neither by
every move, since moved ranges do not meet. -/
theorem Records.contains_eq_of_together {source : Text} {edits : List Edit}
    (h : buffer.Records source edits) (htogether : Cellwise.Together edits first second) :
    ∀ m ∈ buffer.moves, m.range.contains first = m.range.contains second := by
  have hranges : Cellwise.movedRanges edits = buffer.moves.map Move.range := by
    rw [h.moves_eq, Cellwise.movedRanges]
  unfold Cellwise.Together at htogether
  rw [hranges] at htogether
  intro m hm
  rcases htogether with hneither | ⟨range, hrange, hfirst, hsecond⟩
  · obtain ⟨hfirst, hsecond⟩ := hneither m.range (List.mem_map_of_mem hm)
    rw [hfirst, hsecond]
  · obtain ⟨other, hother, rfl⟩ := List.mem_map.mp hrange
    by_cases hsame : other = m
    · rw [← hsame, hfirst, hsecond]
    · have : Std.Symm fun (a b : Move) => a.range.Apart b.range := ⟨fun _ _ => Span.Apart.symm⟩
      have happart := h.consistent.moves_apart.forall hother hm hsame
      rw [happart.contains_eq_false hfirst, happart.contains_eq_false hsecond]

end

/-- After any run of edits two kept bytes of one moved range, or of none, have
their places in the order in which they stand in the source, whatever else is
moved, and wherever to. -/
theorem generatedPosition?_run_lt (source : Text) (edits : List Edit) {first second : Nat}
    (hlt : first < second) (hbound : second < Text.bytes source)
    (hfirst : Cellwise.Kept ((ofText source).accepted edits) first)
    (hsecond : Cellwise.Kept ((ofText source).accepted edits) second)
    (htogether : Cellwise.Together ((ofText source).accepted edits) first second) :
    let map := ((ofText source).run edits).finish.map
    ∃ place later, map.generatedPosition? first = some place ∧
      map.generatedPosition? second = some later ∧ place < later := by
  intro map
  have h := run_records (ofText_records source) edits
  rw [List.nil_append] at h
  have hlength : second < ((ofText source).run edits).length := by rwa [length, h.source_eq]
  have hpair := h.consistent.copied_sublist hlt hlength (h.not_contains_of_kept hfirst)
    (h.not_contains_of_kept hsecond) (h.contains_eq_of_together htogether)
  obtain ⟨places, hplaces⟩ := List.sublist_iff_exists_orderEmbedding_getElem?_eq.mp hpair
  refine ⟨places 0, places 1, ?_, ?_, places.lt_iff_lt.mpr Nat.zero_lt_one⟩
  · exact h.consistent.generatedPosition?_of_copied (hplaces 0).symm
  · exact h.consistent.generatedPosition?_of_copied (hplaces 1).symm

/-- Two letters around the place that another one is moved to, in front of a
letter that is removed. -/
theorem generatedPosition?_run_lt_around :
    1 < 4 ∧ 4 < Text.bytes ['a', 'b', 'c', 'd', 'e', 'f'] ∧
      ∃ place later,
        ((ofText ['a', 'b', 'c', 'd', 'e', 'f']).run
          [.move ⟨0, 1⟩ 3, .remove ⟨5, 6⟩]).finish.map.generatedPosition? 1 = some place ∧
        ((ofText ['a', 'b', 'c', 'd', 'e', 'f']).run
          [.move ⟨0, 1⟩ 3, .remove ⟨5, 6⟩]).finish.map.generatedPosition? 4 = some later ∧
        place < later := by
  have haccepted : (ofText ['a', 'b', 'c', 'd', 'e', 'f']).accepted
      [.move ⟨0, 1⟩ 3, .remove ⟨5, 6⟩] = [.move ⟨0, 1⟩ 3, .remove ⟨5, 6⟩] := by decide
  have hkept (offset : Nat) (hout : (⟨5, 6⟩ : Span).contains offset = false) :
      Cellwise.Kept [.move ⟨0, 1⟩ 3, .remove ⟨5, 6⟩] offset := by
    simpa [Cellwise.Kept] using hout
  have htogether : Cellwise.Together [.move ⟨0, 1⟩ 3, .remove ⟨5, 6⟩] 1 4 := by
    refine .inl ?_
    decide
  refine ⟨by decide, by decide, ?_⟩
  exact generatedPosition?_run_lt ['a', 'b', 'c', 'd', 'e', 'f']
    [.move ⟨0, 1⟩ 3, .remove ⟨5, 6⟩] (by decide) (by decide) (haccepted ▸ hkept 1 rfl)
    (haccepted ▸ hkept 4 rfl) (haccepted ▸ htogether)

end EditBuffer

end TypedComponent
