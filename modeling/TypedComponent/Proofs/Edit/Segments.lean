import Mathlib.Data.List.Pairwise
import TypedComponent.Edit.Resolve
import TypedComponent.Proofs.Edit.Consistent

/-!
The segments that a buffer is cut into. They follow each other through the
whole source, and since every offset that an edit mentions is a cut, a range
between two such offsets holds a segment or leaves it alone.
-/

namespace TypedComponent

namespace EditBuffer

theorem mem_insertCut {cut other : Nat} {cuts : List Nat} :
    other ∈ insertCut cut cuts ↔ other = cut ∨ other ∈ cuts := by
  induction cuts with
  | nil => simp [insertCut]
  | cons first rest ih =>
    simp only [insertCut]
    split
    · simp
    · split
      · rename_i heq
        simp [heq]
      · simp [ih, or_left_comm]

theorem insertCut_sorted {cut : Nat} {cuts : List Nat} (h : cuts.Pairwise (· < ·)) :
    (insertCut cut cuts).Pairwise (· < ·) := by
  induction cuts with
  | nil => simp [insertCut]
  | cons first rest ih =>
    obtain ⟨hfirst, hrest⟩ := List.pairwise_cons.mp h
    simp only [insertCut]
    split
    · rename_i hlt
      refine List.pairwise_cons.mpr ⟨?_, h⟩
      intro other hother
      rcases List.mem_cons.mp hother with rfl | hin
      · exact hlt
      · exact Nat.lt_trans hlt (hfirst other hin)
    · split
      · exact h
      · refine List.pairwise_cons.mpr ⟨?_, ih hrest⟩
        intro other hother
        rcases mem_insertCut.mp hother with rfl | hin
        · omega
        · exact hfirst other hin

theorem mem_foldr_insertCut {offset : Nat} {offsets : List Nat} :
    offset ∈ offsets.foldr insertCut [] ↔ offset ∈ offsets := by
  induction offsets with
  | nil => simp
  | cons first rest ih => simp [mem_insertCut, ih]

theorem cuts_sorted (buffer : EditBuffer) : buffer.cuts.Pairwise (· < ·) := by
  have hfold (offsets : List Nat) : (offsets.foldr insertCut []).Pairwise (· < ·) := by
    induction offsets with
    | nil => simp
    | cons first rest ih => exact insertCut_sorted ih
  exact hfold _

theorem mem_cuts {buffer : EditBuffer} {offset : Nat} :
    offset ∈ buffer.cuts ↔ offset = 0 ∨ offset = buffer.length ∨
      (∃ i ∈ buffer.insertions, offset = i.offset) ∨
      (∃ r ∈ buffer.replacements, offset = r.range.start ∨ offset = r.range.stop) ∨
      ∃ m ∈ buffer.moves,
        offset = m.range.start ∨ offset = m.range.stop ∨ offset = m.destination := by
  unfold cuts
  rw [mem_foldr_insertCut]
  simp [eq_comm]

namespace Consistent

variable {buffer : EditBuffer}

theorem cut_isPlace (h : buffer.Consistent) {offset : Nat} (hcut : offset ∈ buffer.cuts) :
    buffer.IsPlace offset := by
  rcases mem_cuts.mp hcut with rfl | rfl | ⟨i, hi, rfl⟩ | ⟨r, hr, rfl | rfl⟩ |
    ⟨m, hm, rfl | rfl | rfl⟩
  · exact Text.isBoundary_zero _
  · exact Text.isBoundary_bytes _
  · exact h.insertion_place i hi
  · exact (h.replacement_place r hr).1
  · exact (h.replacement_place r hr).2
  · exact (h.move_place m hm).1
  · exact (h.move_place m hm).2.1
  · exact (h.move_place m hm).2.2

theorem cut_le_length (h : buffer.Consistent) {offset : Nat} (hcut : offset ∈ buffer.cuts) :
    offset ≤ buffer.length :=
  Text.le_bytes_of_isBoundary (h.cut_isPlace hcut)

theorem apart_of_ne (h : buffer.Consistent) {a b : Replacement} (ha : a ∈ buffer.replacements)
    (hb : b ∈ buffer.replacements) (hne : a ≠ b) : a.range.Apart b.range := by
  have : Std.Symm fun (a b : Replacement) => a.range.Apart b.range :=
    ⟨fun _ _ => Span.Apart.symm⟩
  exact h.replacements_apart.forall ha hb hne

theorem eq_of_contains (h : buffer.Consistent) {a b : Replacement} {offset : Nat}
    (ha : a ∈ buffer.replacements) (hb : b ∈ buffer.replacements)
    (hin : a.range.contains offset = true) (hother : b.range.contains offset = true) : a = b := by
  by_cases hsame : a = b
  · exact hsame
  · have hout := (h.apart_of_ne ha hb hsame).contains_eq_false hin
    rw [hother] at hout
    cases hout

theorem lt_length_of_contains (h : buffer.Consistent) {r : Replacement} {offset : Nat}
    (hr : r ∈ buffer.replacements) (hin : r.range.contains offset = true) :
    offset < buffer.length := by
  have hstop := Text.le_bytes_of_isBoundary (h.replacement_place r hr).2
  rw [Span.contains_iff] at hin
  unfold length
  omega

/-- Nothing cuts an overwritten range, not even another range. -/
theorem cut_outside_overwritten (h : buffer.Consistent) {range : Span} {text : Text}
    (hr : ⟨range, some text⟩ ∈ buffer.replacements) {offset : Nat}
    (hcut : offset ∈ buffer.cuts) : offset ≤ range.start ∨ range.stop ≤ offset := by
  have hplace := h.replacement_place _ hr
  have hlength := Text.le_bytes_of_isBoundary hplace.2
  rcases mem_cuts.mp hcut with rfl | rfl | ⟨i, hi, rfl⟩ | ⟨other, hother, hends⟩ |
    ⟨m, hm, hends⟩
  · exact .inl (Nat.zero_le _)
  · exact .inr hlength
  · exact (Span.containsInner_eq_false _ _).mp (h.insertion_outside i hi _ hr)
  · by_cases hsame : other = ⟨range, some text⟩
    · subst hsame
      dsimp only at hends
      omega
    · have happart : other.range.Apart range := h.apart_of_ne hother hr hsame
      have hother_pos := h.replacement_nonempty other hother
      have hrange_pos := h.replacement_nonempty _ hr
      unfold Span.Apart at happart
      dsimp only at hrange_pos
      omega
  · have hinner :=
      (Span.containsInner_eq_false _ _).mp (h.destination_outside m hm _ hr)
    have hmove_pos := h.move_nonempty m hm
    rcases h.moved_whole m hm _ hr with happart | hin | ⟨hnone, -⟩
    · unfold Span.Apart at happart
      dsimp only at happart hinner
      omega
    · rw [Span.containsSpan_iff] at hin
      dsimp only at hin hinner
      omega
    · cases hnone

end Consistent

theorem between_cons_cons (first second : Nat) (rest : List Nat) :
    between (first :: second :: rest) = ⟨first, second⟩ :: between (second :: rest) := rfl

/-- A span between neighbouring cuts is not empty, begins and ends at cuts and
has none inside. -/
theorem between_spec {cuts : List Nat} (hsorted : cuts.Pairwise (· < ·)) {segment : Span}
    (h : segment ∈ between cuts) :
    segment.start ∈ cuts ∧ segment.stop ∈ cuts ∧ segment.start < segment.stop ∧
      ∀ cut ∈ cuts, cut ≤ segment.start ∨ segment.stop ≤ cut := by
  induction cuts with
  | nil => simp [between] at h
  | cons first rest ih =>
    cases rest with
    | nil => simp [between] at h
    | cons second rest =>
      obtain ⟨hfirst, hrest⟩ := List.pairwise_cons.mp hsorted
      rw [between_cons_cons, List.mem_cons] at h
      rcases h with rfl | hlater
      · refine ⟨by simp, by simp, hfirst second (by simp), ?_⟩
        intro cut hcut
        dsimp only
        rcases List.mem_cons.mp hcut with rfl | hcut
        · exact .inl (Nat.le_refl _)
        · rcases List.mem_cons.mp hcut with rfl | hcut
          · exact .inr (Nat.le_refl _)
          · have hlt := (List.pairwise_cons.mp hrest).1 cut hcut
            omega
      · obtain ⟨hstart, hstop, hlt, hnone⟩ := ih hrest hlater
        refine ⟨by simp [hstart], by simp [hstop], hlt, ?_⟩
        intro cut hcut
        rcases List.mem_cons.mp hcut with rfl | hcut
        · have hle := hfirst segment.start hstart
          omega
        · exact hnone cut hcut

theorem between_apart {cuts : List Nat} (hsorted : cuts.Pairwise (· < ·)) :
    (between cuts).Pairwise fun a b => a.stop ≤ b.start := by
  induction cuts with
  | nil => simp [between]
  | cons first rest ih =>
    cases rest with
    | nil => simp [between]
    | cons second rest =>
      obtain ⟨-, hrest⟩ := List.pairwise_cons.mp hsorted
      rw [between_cons_cons, List.pairwise_cons]
      refine ⟨?_, ih hrest⟩
      intro segment hsegment
      have hstart := (between_spec hrest hsegment).1
      rcases List.mem_cons.mp hstart with heq | hlater
      · exact Nat.le_of_eq heq.symm
      · exact Nat.le_of_lt ((List.pairwise_cons.mp hrest).1 _ hlater)

/-- The spans between cuts cover the text from the first to the last. -/
theorem cellsIn_between {text : Text} {first last : Nat} {rest : List Nat}
    (hsorted : (first :: rest).Pairwise (· < ·)) (hlast : last ∈ first :: rest)
    (hmax : ∀ cut ∈ first :: rest, cut ≤ last)
    (hplace : ∀ cut ∈ first :: rest, Text.isBoundary text cut = true) :
    (between (first :: rest)).flatMap (Text.cellsIn text) = Text.cellsIn text ⟨first, last⟩ := by
  induction rest generalizing first with
  | nil =>
    have heq : last = first := by simpa using hlast
    rw [Text.cellsIn_eq_nil (Nat.le_of_eq heq)]
    rfl
  | cons second rest ih =>
    obtain ⟨hfirst, hrest⟩ := List.pairwise_cons.mp hsorted
    have hlt := hfirst second (by simp)
    have hle := hmax second (by simp)
    have hlater : last ∈ second :: rest := by
      rcases List.mem_cons.mp hlast with heq | hin
      · omega
      · exact hin
    have htail := ih hrest hlater (fun cut hcut => hmax cut (by simp [hcut]))
      fun cut hcut => hplace cut (by simp [hcut])
    rw [between_cons_cons, List.flatMap_cons, htail]
    exact Text.cellsIn_append (hplace first (by simp)) (hplace second (by simp))
      (hplace last hlast) (Nat.le_of_lt hlt) hle

/-- What holds of every segment of a consistent buffer. -/
structure IsSegment (buffer : EditBuffer) (segment : Span) : Prop where
  start_cut : segment.start ∈ buffer.cuts
  stop_cut : segment.stop ∈ buffer.cuts
  nonempty : segment.start < segment.stop
  uncut : ∀ cut ∈ buffer.cuts, cut ≤ segment.start ∨ segment.stop ≤ cut

theorem isSegment_of_mem {buffer : EditBuffer} {segment : Span}
    (h : segment ∈ buffer.segments) : buffer.IsSegment segment := by
  obtain ⟨hstart, hstop, hlt, hnone⟩ := between_spec buffer.cuts_sorted h
  exact ⟨hstart, hstop, hlt, hnone⟩

theorem segments_apart (buffer : EditBuffer) :
    buffer.segments.Pairwise fun a b => a.stop ≤ b.start :=
  between_apart buffer.cuts_sorted

theorem cuts_eq_cons (buffer : EditBuffer) : ∃ rest, buffer.cuts = 0 :: rest := by
  have hzero : 0 ∈ buffer.cuts := mem_cuts.mpr (.inl rfl)
  have hsorted := buffer.cuts_sorted
  cases hcuts : buffer.cuts with
  | nil => simp [hcuts] at hzero
  | cons first rest =>
    rw [hcuts] at hzero hsorted
    rcases List.mem_cons.mp hzero with heq | hlater
    · exact ⟨rest, by rw [heq]⟩
    · have hlt := (List.pairwise_cons.mp hsorted).1 0 hlater
      omega

/-- The segments one after another are the whole source. -/
theorem cellsIn_segments {buffer : EditBuffer} (h : buffer.Consistent) :
    buffer.segments.flatMap (Text.cellsIn buffer.source) = Text.cells buffer.source := by
  have hlength : buffer.length ∈ buffer.cuts := mem_cuts.mpr (.inr (.inl rfl))
  have hsorted := buffer.cuts_sorted
  have hmax : ∀ cut ∈ buffer.cuts, cut ≤ buffer.length := fun cut hcut => h.cut_le_length hcut
  have hplace : ∀ cut ∈ buffer.cuts, Text.isBoundary buffer.source cut = true :=
    fun cut hcut => h.cut_isPlace hcut
  obtain ⟨rest, hcuts⟩ := buffer.cuts_eq_cons
  rw [hcuts] at hlength hsorted hmax hplace
  unfold segments
  rw [hcuts, cellsIn_between hsorted hlength hmax hplace]
  exact Text.cellsIn_whole buffer.source

theorem exists_between {first last offset : Nat} {rest : List Nat}
    (hlast : last ∈ first :: rest) (hle : first ≤ offset) (hlt : offset < last) :
    ∃ segment ∈ between (first :: rest), segment.contains offset = true := by
  induction rest generalizing first with
  | nil =>
    have heq : last = first := by simpa using hlast
    omega
  | cons second rest ih =>
    rw [between_cons_cons]
    by_cases hfirst : offset < second
    · exact ⟨⟨first, second⟩, by simp, (Span.contains_iff _ _).mpr ⟨hle, hfirst⟩⟩
    · have hlater : last ∈ second :: rest := by
        rcases List.mem_cons.mp hlast with heq | hin
        · omega
        · exact hin
      obtain ⟨segment, hmem, hin⟩ := ih hlater (by omega)
      exact ⟨segment, List.mem_cons_of_mem _ hmem, hin⟩

theorem exists_segment {buffer : EditBuffer} {offset : Nat} (h : offset < buffer.length) :
    ∃ segment ∈ buffer.segments, segment.contains offset = true := by
  have hlength : buffer.length ∈ buffer.cuts := mem_cuts.mpr (.inr (.inl rfl))
  obtain ⟨rest, hcuts⟩ := buffer.cuts_eq_cons
  rw [hcuts] at hlength
  unfold segments
  rw [hcuts]
  exact exists_between hlength (Nat.zero_le _) h

namespace IsSegment

variable {buffer : EditBuffer} {segment : Span}

/-- All bytes of a segment lie in a range between two cuts, or none does. -/
theorem contains_eq (hs : buffer.IsSegment segment) {range : Span} {offset : Nat}
    (hstart : range.start ∈ buffer.cuts) (hstop : range.stop ∈ buffer.cuts)
    (hin : segment.contains offset = true) :
    range.contains offset = range.containsSpan segment := by
  rw [Span.contains_iff] at hin
  rw [Bool.eq_iff_iff, Span.contains_iff, Span.containsSpan_iff]
  have hleft := hs.uncut range.start hstart
  have hright := hs.uncut range.stop hstop
  omega

theorem replacement_contains_eq (hs : buffer.IsSegment segment) {r : Replacement} {offset : Nat}
    (hr : r ∈ buffer.replacements) (hin : segment.contains offset = true) :
    r.range.contains offset = r.range.containsSpan segment :=
  hs.contains_eq (mem_cuts.mpr (.inr (.inr (.inr (.inl ⟨r, hr, .inl rfl⟩)))))
    (mem_cuts.mpr (.inr (.inr (.inr (.inl ⟨r, hr, .inr rfl⟩))))) hin

theorem move_contains_eq (hs : buffer.IsSegment segment) {m : Move} {offset : Nat}
    (hm : m ∈ buffer.moves) (hin : segment.contains offset = true) :
    m.range.contains offset = m.range.containsSpan segment :=
  hs.contains_eq (mem_cuts.mpr (.inr (.inr (.inr (.inr ⟨m, hm, .inl rfl⟩)))))
    (mem_cuts.mpr (.inr (.inr (.inr (.inr ⟨m, hm, .inr (.inl rfl)⟩))))) hin

theorem offset_mem (hs : buffer.IsSegment segment) (h : buffer.Consistent) {cell : Cell}
    (hcell : cell ∈ Text.cellsIn buffer.source segment) :
    segment.contains cell.offset = true :=
  Text.contains_of_mem_cellsIn (h.cut_isPlace hs.start_cut) (h.cut_isPlace hs.stop_cut)
    (Nat.le_of_lt hs.nonempty) hcell

theorem exists_cells (hs : buffer.IsSegment segment) (h : buffer.Consistent) :
    ∃ c rest, Text.slice buffer.source segment = c :: rest ∧
      segment.start + Text.bytes (c :: rest) = segment.stop :=
  Text.exists_first (h.cut_isPlace hs.start_cut) (h.cut_isPlace hs.stop_cut) hs.nonempty

/-- An overwritten range that holds a segment is that segment. -/
theorem eq_overwritten (hs : buffer.IsSegment segment) (h : buffer.Consistent) {range : Span}
    {text : Text} (hr : ⟨range, some text⟩ ∈ buffer.replacements)
    (hin : range.containsSpan segment = true) : range = segment := by
  rw [Span.containsSpan_iff] at hin
  have hstart := h.cut_outside_overwritten hr hs.start_cut
  have hstop := h.cut_outside_overwritten hr hs.stop_cut
  have hlt := hs.nonempty
  obtain ⟨start, stop⟩ := range
  obtain ⟨segStart, segStop⟩ := segment
  simp only [Span.mk.injEq] at *
  omega

end IsSegment

end EditBuffer

end TypedComponent
