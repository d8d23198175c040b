import TypedComponent.Proofs.Edit.Records
import TypedComponent.Proofs.Edit.Segments

/-!
Every buffer that edits lead to, accepted or refused ones, can be cut. Its
records point to places of the source and stay out of each other's way, so
every overwritten range is one segment, and whatever is inserted or moved has
the start of a segment or an end of the source to go to.
-/

namespace TypedComponent

namespace EditBuffer

theorem IsPlace.le_length {buffer : EditBuffer} {offset : Nat} (h : buffer.IsPlace offset) :
    offset ≤ buffer.length :=
  Text.le_bytes_of_isBoundary h

/-- A cut that is not the end of the text begins a segment. -/
theorem exists_segment_start {buffer : EditBuffer} {cut : Nat} (hcut : cut ∈ buffer.cuts)
    (hlt : cut < buffer.length) : ∃ segment ∈ buffer.segments, segment.start = cut := by
  obtain ⟨segment, hmem, hin⟩ := exists_segment hlt
  have huncut := (isSegment_of_mem hmem).uncut cut hcut
  rw [Span.contains_iff] at hin
  exact ⟨segment, hmem, by omega⟩

/-- Of segments that follow each other, the one that a segment overlaps is that
segment itself. -/
theorem filter_overlaps_segment {buffer : EditBuffer} {segment : Span}
    (h : segment ∈ buffer.segments) : buffer.segments.filter segment.overlaps = [segment] := by
  obtain ⟨front, back, hsplit⟩ := List.append_of_mem h
  have hlt := (isSegment_of_mem h).nonempty
  have hsegments := buffer.segments_apart
  rw [hsplit, List.pairwise_append, List.pairwise_cons] at hsegments
  obtain ⟨-, ⟨hback, -⟩, hfront⟩ := hsegments
  have hbefore : front.filter segment.overlaps = [] := by
    rw [List.filter_eq_nil_iff]
    intro other hother
    have hends := hfront other hother segment List.mem_cons_self
    rw [Span.overlaps_iff]
    omega
  have hafter : back.filter segment.overlaps = [] := by
    rw [List.filter_eq_nil_iff]
    intro other hother
    have hends := hback other hother
    rw [Span.overlaps_iff]
    omega
  have hself : segment.overlaps segment = true := by
    rw [Span.overlaps_iff]
    omega
  rw [hsplit, List.filter_append, List.filter_cons_of_pos hself, hbefore, hafter]
  rfl

namespace Consistent

variable {buffer : EditBuffer}

/-- An overwritten range is cut at its ends and nowhere between. -/
theorem overwritten_mem_segments (h : buffer.Consistent) {range : Span} {text : Text}
    (hr : ⟨range, some text⟩ ∈ buffer.replacements) : range ∈ buffer.segments := by
  have hstart : range.start ∈ buffer.cuts :=
    mem_cuts.mpr (.inr (.inr (.inr (.inl ⟨_, hr, .inl rfl⟩))))
  have hstop : range.stop ∈ buffer.cuts :=
    mem_cuts.mpr (.inr (.inr (.inr (.inl ⟨_, hr, .inr rfl⟩))))
  have hlt : range.start < range.stop := h.replacement_nonempty _ hr
  have hle := (h.replacement_place _ hr).2.le_length
  obtain ⟨segment, hmem, hbegins⟩ := exists_segment_start hstart (by dsimp only at hle; omega)
  have hs := isSegment_of_mem hmem
  have huncut := hs.uncut range.stop hstop
  have hwhole : range.containsSpan segment = true := by
    rw [Span.containsSpan_iff]
    omega
  rwa [hs.eq_overwritten h hr hwhole]

end Consistent

/-- How the segments of a buffer lie to its records. -/
structure WellCut (buffer : EditBuffer) : Prop where
  /-- Every offset that is recorded, and with it every end of a segment, lies in
  the text and between characters. -/
  cut_place : ∀ cut ∈ buffer.cuts,
    cut ≤ buffer.length ∧ Text.isBoundary buffer.source cut = true
  /-- Of all segments just one meets an overwritten range, and it is the range. -/
  overwritten_segment : ∀ range text, ⟨range, some text⟩ ∈ buffer.replacements →
    buffer.segments.filter range.overlaps = [range]
  insertion_end : ∀ i ∈ buffer.insertions,
    i.offset = buffer.length ∨ ∃ segment ∈ buffer.segments, segment.start = i.offset
  destination_end : ∀ m ∈ buffer.moves,
    m.destination = buffer.length ∨ ∃ segment ∈ buffer.segments, segment.start = m.destination

theorem Consistent.wellCut {buffer : EditBuffer} (h : buffer.Consistent) : buffer.WellCut := by
  have hends {cut : Nat} (hcut : cut ∈ buffer.cuts) :
      cut = buffer.length ∨ ∃ segment ∈ buffer.segments, segment.start = cut := by
    rcases Nat.lt_or_eq_of_le (h.cut_le_length hcut) with hlt | heq
    · exact .inr (exists_segment_start hcut hlt)
    · exact .inl heq
  exact {
    cut_place := fun cut hcut => ⟨h.cut_le_length hcut, h.cut_isPlace hcut⟩
    overwritten_segment := fun range text hr =>
      filter_overlaps_segment (h.overwritten_mem_segments hr)
    insertion_end := fun i hi => hends (mem_cuts.mpr (.inr (.inr (.inl ⟨i, hi, rfl⟩))))
    destination_end := fun m hm =>
      hends (mem_cuts.mpr (.inr (.inr (.inr (.inr ⟨m, hm, .inr (.inr rfl)⟩))))) }

/-- Whatever edits are asked of a text, the records stay consistent, and they
cut the text at places where every record finds its segments. -/
theorem run_wellCut (source : Text) (edits : List Edit) :
    ((ofText source).run edits).Consistent ∧ ((ofText source).run edits).WellCut :=
  have hrecords := run_records (ofText_records source) edits
  ⟨hrecords.consistent, hrecords.consistent.wellCut⟩

end EditBuffer

end TypedComponent
