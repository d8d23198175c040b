import TypedComponent.Proofs.Edit.Relocation

/-!
Which pieces stand for which source bytes. No two segments share a byte, so at
most one piece of a finished buffer covers it, and the bytes that come from
there are bytes of that piece.
-/

namespace TypedComponent

namespace Piece

theorem length_flatMap_origins (pieces : List Piece) :
    (pieces.flatMap origins).length = Text.bytes (pieces.flatMap Piece.text) := by
  induction pieces with
  | nil => rfl
  | cons piece rest ih => simp [ih]

theorem exists_of_origins {pieces : List Piece} {index : Nat} {origin : Origin}
    (h : (pieces.flatMap origins)[index]? = some origin) :
    ∃ front piece rest own, pieces = front ++ piece :: rest ∧
      index = Text.bytes (front.flatMap Piece.text) + own ∧
      own < Text.bytes piece.text ∧ piece.originAt own = origin := by
  induction pieces generalizing index with
  | nil => simp at h
  | cons piece rest ih =>
    rw [List.flatMap_cons] at h
    by_cases hin : index < Text.bytes piece.text
    · rw [List.getElem?_append_left (by simpa using hin), origins_getElem? hin] at h
      exact ⟨[], piece, rest, index, rfl, by simp, hin, Option.some.inj h⟩
    · rw [List.getElem?_append_right (by simpa using hin), length_origins] at h
      obtain ⟨front, found, after, own, hrest, hindex, hown, horigin⟩ := ih h
      refine ⟨piece :: front, found, after, own, by rw [hrest]; rfl, ?_, hown, horigin⟩
      rw [List.flatMap_cons, Text.bytes_append]
      omega

theorem origins_middle {front rest : List Piece} {piece : Piece} {own : Nat}
    (h : own < Text.bytes piece.text) :
    ((front ++ piece :: rest).flatMap origins)[Text.bytes (front.flatMap Piece.text) + own]? =
      some (piece.originAt own) := by
  rw [List.flatMap_append, List.flatMap_cons, ← length_flatMap_origins,
    List.getElem?_append_right (by omega), Nat.add_sub_cancel_left,
    List.getElem?_append_left (by simpa using h), origins_getElem? h]

/-- A piece that tells the truth about its source. -/
def TrueTo (source : Text) : Piece → Prop
  | made _ => True
  | .source start text => ∃ a b, source = a ++ text ++ b ∧ Text.bytes a = start
  | replacing range _ => range.start < range.stop

/-- The byte of a piece that comes from a source offset makes the piece cover
that offset. -/
theorem covers_of_source? {source : Text} {piece : Piece} {own offset : Nat}
    (htrue : piece.TrueTo source) (hown : own < Text.bytes piece.text)
    (h : (piece.originAt own).source? = some offset) : piece.Covers offset := by
  have htext : piece.text ≠ [] := by
    intro hnil
    simp [hnil] at hown
  refine ⟨htext, ?_⟩
  cases piece with
  | made text => simp [originAt, Origin.source?] at h
  | source start text =>
    simp only [originAt, Origin.source?, Option.some.injEq] at h
    refine ⟨_, rfl, ?_⟩
    rw [Span.contains_iff]
    simp only [Piece.text] at hown
    dsimp only
    omega
  | replacing range text =>
    simp only [originAt, Origin.source?, Option.some.injEq] at h
    simp only [TrueTo] at htrue
    refine ⟨range, rfl, ?_⟩
    rw [Span.contains_iff]
    unfold Span.length at h
    omega

theorem exists_covers {source : Text} {pieces : List Piece} {index offset : Nat} {origin : Origin}
    (htrue : ∀ piece ∈ pieces, piece.TrueTo source)
    (h : (pieces.flatMap origins)[index]? = some origin) (hsource : origin.source? = some offset) :
    ∃ piece ∈ pieces, piece.Covers offset := by
  obtain ⟨front, piece, rest, own, rfl, -, hown, rfl⟩ := exists_of_origins h
  exact ⟨piece, by simp, covers_of_source? (htrue piece (by simp)) hown hsource⟩

/-- If one piece alone covers an offset, the bytes from there are in it. -/
theorem index_of_only {source : Text} {front rest : List Piece} {piece : Piece}
    {index offset : Nat} {origin : Origin}
    (htrue : ∀ q ∈ front ++ piece :: rest, q.TrueTo source)
    (hfront : ∀ q ∈ front, ¬ q.Covers offset) (hrest : ∀ q ∈ rest, ¬ q.Covers offset)
    (h : ((front ++ piece :: rest).flatMap origins)[index]? = some origin)
    (hsource : origin.source? = some offset) :
    ∃ own, index = Text.bytes (front.flatMap Piece.text) + own ∧
      own < Text.bytes piece.text ∧ piece.originAt own = origin := by
  by_cases hbefore : index < Text.bytes (front.flatMap Piece.text)
  · rw [List.flatMap_append, List.getElem?_append_left
      (by rw [length_flatMap_origins]; exact hbefore)] at h
    obtain ⟨q, hq, hcovers⟩ := exists_covers (fun q hq => htrue q (by simp [hq])) h hsource
    exact absurd hcovers (hfront q hq)
  · obtain ⟨own, rfl⟩ : ∃ own, index = Text.bytes (front.flatMap Piece.text) + own :=
      ⟨index - Text.bytes (front.flatMap Piece.text), by omega⟩
    by_cases hin : own < Text.bytes piece.text
    · rw [origins_middle hin] at h
      exact ⟨own, rfl, hin, Option.some.inj h⟩
    · rw [List.flatMap_append, List.flatMap_cons, ← length_flatMap_origins,
        List.getElem?_append_right (by omega), Nat.add_sub_cancel_left,
        List.getElem?_append_right (by simpa using hin)] at h
      obtain ⟨q, hq, hcovers⟩ := exists_covers (fun q hq => htrue q (by simp [hq])) h hsource
      exact absurd hcovers (hrest q hq)

theorem utf8_middle (front rest : List Piece) {piece : Piece} {own : Nat}
    (h : own < Text.bytes piece.text) :
    (Text.utf8 ((front ++ piece :: rest).flatMap Piece.text))[
        Text.bytes (front.flatMap Piece.text) + own]? = (Text.utf8 piece.text)[own]? := by
  rw [List.flatMap_append, List.flatMap_cons, ← List.append_assoc]
  exact Text.utf8_middle _ _ _ h

theorem exists_byte {text : Text} {own : Nat} (h : own < Text.bytes text) :
    ∃ byte, (Text.utf8 text)[own]? = some byte := by
  have hlt : own < (Text.utf8 text).length := by simpa using h
  exact ⟨_, List.getElem?_eq_getElem hlt⟩

theorem utf8_of_copied {source : Text} {pieces : List Piece} {index offset : Nat}
    (htrue : ∀ piece ∈ pieces, piece.TrueTo source)
    (h : (pieces.flatMap origins)[index]? = some (.copied offset)) :
    ∃ byte, (Text.utf8 (pieces.flatMap Piece.text))[index]? = some byte ∧
      (Text.utf8 source)[offset]? = some byte := by
  obtain ⟨front, piece, rest, own, rfl, rfl, hown, horigin⟩ := exists_of_origins h
  cases piece with
  | made text => cases horigin
  | replacing range text => cases horigin
  | source start text =>
    obtain ⟨a, b, hsource, rfl⟩ := htrue _ (List.mem_append_right _ (List.mem_cons_self))
    simp only [originAt, Origin.copied.injEq] at horigin
    obtain ⟨byte, hbyte⟩ := exists_byte hown
    refine ⟨byte, ?_, ?_⟩
    · rw [utf8_middle _ _ hown, hbyte]
    · rw [← horigin, hsource]
      exact (Text.utf8_middle a text b hown).trans hbyte

end Piece

namespace EditBuffer

variable {buffer : EditBuffer}

theorem not_covers_of_mem_insertedAt {side : Side} {place offset : Nat} {piece : Piece}
    (h : piece ∈ buffer.insertedAt side place) : ¬ piece.Covers offset := by
  obtain ⟨i, -, rfl⟩ := List.mem_map.mp h
  rintro ⟨-, range, hrange, -⟩
  cases hrange

theorem not_covers_made (text : Text) (offset : Nat) : ¬ (Piece.made text).Covers offset := by
  rintro ⟨-, range, hrange, -⟩
  cases hrange

/-- What stands for a segment: its own text, nothing, or the text in place of a
range that is just this segment. -/
theorem IsSegment.content_cases (h : buffer.Consistent) {segment : Span}
    (hs : buffer.IsSegment segment) :
    (buffer.content segment = [.source segment.start (Text.slice buffer.source segment)] ∧
      ∀ r ∈ buffer.replacements, r.range.containsSpan segment = false) ∨
    (buffer.content segment = [] ∧
      ∃ r ∈ buffer.replacements, r.text = none ∧ r.range.containsSpan segment = true) ∨
    ∃ text, buffer.content segment = [.replacing segment text] ∧
      ⟨segment, some text⟩ ∈ buffer.replacements := by
  unfold content
  cases hfind : buffer.replacements.find? (·.range.containsSpan segment) with
  | none => exact .inl ⟨rfl, none_of_find? hfind⟩
  | some r =>
    have hr := List.mem_of_find?_eq_some hfind
    have hcovers := List.find?_some hfind
    obtain ⟨range, written⟩ := r
    cases written with
    | none => exact .inr (.inl ⟨rfl, ⟨range, none⟩, hr, rfl, hcovers⟩)
    | some text =>
      have hwhole := hs.eq_overwritten h hr hcovers
      subst hwhole
      exact .inr (.inr ⟨text, by simp, hr⟩)

/-- A segment with a byte that nothing replaces is written as it is. -/
theorem IsSegment.content_of_kept (h : buffer.Consistent) {segment : Span} {offset : Nat}
    (hs : buffer.IsSegment segment) (hin : segment.contains offset = true)
    (hkept : ∀ r ∈ buffer.replacements, r.range.contains offset = false) :
    buffer.content segment = [.source segment.start (Text.slice buffer.source segment)] := by
  rcases hs.content_cases h with ⟨hown, -⟩ | ⟨-, r, hr, -, hcovers⟩ | ⟨text, -, hrecorded⟩
  · exact hown
  · rw [← hs.replacement_contains_eq hr hin, hkept r hr] at hcovers
    cases hcovers
  · have hout := hkept _ hrecorded
    dsimp only at hout
    rw [hin] at hout
    cases hout

/-- The pieces of a segment cover no byte outside of it. -/
theorem IsSegment.contains_of_covers (h : buffer.Consistent) {segment : Span}
    (hs : buffer.IsSegment segment) {piece : Piece} {offset : Nat}
    (hmem : piece ∈ buffer.segmentPieces segment) (hcovers : piece.Covers offset) :
    segment.contains offset = true := by
  unfold segmentPieces at hmem
  rcases List.mem_append.mp hmem with hfront | hafter
  · rcases List.mem_append.mp hfront with hbefore | hcontent
    · exact absurd hcovers (not_covers_of_mem_insertedAt hbefore)
    · obtain ⟨-, range, hrange, hin⟩ := hcovers
      rcases hs.content_cases h with ⟨hown, -⟩ | ⟨hgone, -⟩ | ⟨text, hother, -⟩
      · rw [hown, List.mem_singleton] at hcontent
        subst hcontent
        obtain ⟨c, rest, hslice, hstop⟩ := hs.exists_cells h
        simp only [Piece.range?, hslice, hstop, Option.some.injEq] at hrange
        rw [← hrange] at hin
        exact hin
      · rw [hgone] at hcontent
        cases hcontent
      · rw [hother, List.mem_singleton] at hcontent
        subst hcontent
        simp only [Piece.range?, Option.some.injEq] at hrange
        rw [← hrange] at hin
        exact hin
  · exact absurd hcovers (not_covers_of_mem_insertedAt hafter)

theorem order_apart (buffer : EditBuffer) : buffer.order.Pairwise Span.Apart := by
  have hsegments : buffer.segments.Pairwise Span.Apart :=
    buffer.segments_apart.imp fun hle => .inl hle
  exact (buffer.order_perm.pairwise_iff Span.Apart.symm).mpr hsegments

/-- Only what stands for a segment covers the bytes of the segment. -/
theorem pieces_split (h : buffer.Consistent) {segment : Span} (hmem : segment ∈ buffer.order) :
    ∃ front rest, buffer.pieces = front ++ buffer.content segment ++ rest ∧
      ∀ offset, segment.contains offset = true →
        (∀ q ∈ front, ¬ q.Covers offset) ∧ ∀ q ∈ rest, ¬ q.Covers offset := by
  obtain ⟨before, after, horder⟩ := List.append_of_mem hmem
  have hother : ∀ other, other ∈ before ∨ other ∈ after → ∀ offset,
      segment.contains offset = true → ∀ q ∈ buffer.segmentPieces other, ¬ q.Covers offset := by
    intro other hside offset hin q hq hcovers
    have hs : buffer.IsSegment other := by
      apply isSegment_of_mem_order
      rw [horder]
      rcases hside with hb | ha
      · exact List.mem_append_left _ hb
      · exact List.mem_append_right _ (List.mem_cons_of_mem _ ha)
    have hapart := buffer.order_apart
    rw [horder, List.pairwise_append, List.pairwise_cons] at hapart
    obtain ⟨-, ⟨hafter, -⟩, hbefore⟩ := hapart
    have happart : other.Apart segment := by
      rcases hside with hb | ha
      · exact hbefore other hb segment (by simp)
      · exact (hafter other ha).symm
    have hown := hs.contains_of_covers h hq hcovers
    rw [Span.contains_iff] at hown hin
    unfold Span.Apart at happart
    omega
  refine ⟨.made buffer.intro :: buffer.insertedAt .after 0 ++
      before.flatMap buffer.segmentPieces ++ buffer.insertedAt .before segment.start,
    buffer.insertedAt .after segment.stop ++ after.flatMap buffer.segmentPieces ++
      buffer.insertedAt .before buffer.length ++ [.made buffer.outro], ?_, ?_⟩
  · simp [pieces, horder, segmentPieces]
  · intro offset hin
    constructor
    · intro q hq
      simp only [List.cons_append, List.mem_cons, List.mem_append, List.mem_flatMap] at hq
      rcases hq with rfl | (hq | ⟨other, hb, hq⟩) | hq
      · exact not_covers_made _ _
      · exact not_covers_of_mem_insertedAt hq
      · exact hother other (.inl hb) offset hin q hq
      · exact not_covers_of_mem_insertedAt hq
    · intro q hq
      simp only [List.mem_append, List.mem_flatMap, List.mem_singleton] at hq
      rcases hq with ((hq | ⟨other, ha, hq⟩) | hq) | rfl
      · exact not_covers_of_mem_insertedAt hq
      · exact hother other (.inr ha) offset hin q hq
      · exact not_covers_of_mem_insertedAt hq
      · exact not_covers_made _ _

/-- A piece is text that an edit brought in or stands for a segment. -/
theorem mem_pieces {piece : Piece} (h : piece ∈ buffer.pieces) :
    (∃ text, piece = .made text) ∨
      ∃ segment ∈ buffer.order, piece ∈ buffer.content segment := by
  have hinserted {side : Side} {place : Nat} (hmem : piece ∈ buffer.insertedAt side place) :
      ∃ text, piece = .made text := by
    obtain ⟨i, -, hmade⟩ := List.mem_map.mp hmem
    exact ⟨i.text, hmade.symm⟩
  simp only [pieces, segmentPieces, List.cons_append, List.mem_cons, List.mem_append,
    List.mem_flatMap, List.not_mem_nil, or_false] at h
  rcases h with hintro | ((hq | ⟨segment, hsegment, (hq | hq) | hq⟩) | hq) | houtro
  · exact .inl ⟨_, hintro⟩
  · exact .inl (hinserted hq)
  · exact .inl (hinserted hq)
  · exact .inr ⟨segment, hsegment, hq⟩
  · exact .inl (hinserted hq)
  · exact .inl (hinserted hq)
  · exact .inl ⟨_, houtro⟩

theorem pieces_trueTo (h : buffer.Consistent) :
    ∀ piece ∈ buffer.pieces, piece.TrueTo buffer.source := by
  intro piece hmem
  rcases mem_pieces hmem with ⟨text, rfl⟩ | ⟨segment, hsegment, hcontent⟩
  · trivial
  · have hs := isSegment_of_mem_order hsegment
    rcases hs.content_cases h with ⟨hown, -⟩ | ⟨hgone, -⟩ | ⟨text, hother, -⟩
    · rw [hown, List.mem_singleton] at hcontent
      subst hcontent
      obtain ⟨a, b, hcut, hstart, -⟩ := Text.exists_slice segment (h.cut_isPlace hs.start_cut)
        (h.cut_isPlace hs.stop_cut) (Nat.le_of_lt hs.nonempty)
      exact ⟨a, b, hcut, hstart⟩
    · rw [hgone] at hcontent
      cases hcontent
    · rw [hother, List.mem_singleton] at hcontent
      subst hcontent
      exact hs.nonempty

theorem recorded_of_replacing (h : buffer.Consistent) {range : Span} {text : Text}
    (hmem : .replacing range text ∈ buffer.pieces) :
    ⟨range, some text⟩ ∈ buffer.replacements := by
  rcases mem_pieces hmem with ⟨made, hmade⟩ | ⟨segment, hsegment, hcontent⟩
  · cases hmade
  · rcases (isSegment_of_mem_order hsegment).content_cases h with
      ⟨hown, -⟩ | ⟨hgone, -⟩ | ⟨written, hother, hrecorded⟩
    · simp [hown] at hcontent
    · simp [hgone] at hcontent
    · rw [hother, List.mem_singleton, Piece.replacing.injEq] at hcontent
      rw [hcontent.1, hcontent.2]
      exact hrecorded

namespace Consistent

variable {offset : Nat}

theorem exists_segment_in_order (h : offset < buffer.length) :
    ∃ segment ∈ buffer.order, segment.contains offset = true := by
  obtain ⟨segment, hmem, hin⟩ := exists_segment h
  exact ⟨segment, buffer.order_perm.mem_iff.mpr hmem, hin⟩

/-- A byte that is in no replaced range is written with its segment. -/
theorem split_of_kept (h : buffer.Consistent) (hbound : offset < buffer.length)
    (hkept : ∀ r ∈ buffer.replacements, r.range.contains offset = false) :
    ∃ start text front rest, buffer.pieces = front ++ .source start text :: rest ∧
      start ≤ offset ∧ offset < start + Text.bytes text ∧
      (∀ q ∈ front, ¬ q.Covers offset) ∧ ∀ q ∈ rest, ¬ q.Covers offset := by
  obtain ⟨segment, hmem, hin⟩ := exists_segment_in_order hbound
  have hs := isSegment_of_mem_order hmem
  obtain ⟨front, rest, hpieces, honly⟩ := pieces_split h hmem
  obtain ⟨c, more, hslice, hstop⟩ := hs.exists_cells h
  rw [hs.content_of_kept h hin hkept, hslice, List.append_assoc] at hpieces
  have hbounds := (Span.contains_iff _ _).mp hin
  exact ⟨segment.start, c :: more, front, rest, hpieces, hbounds.1, by omega, honly offset hin⟩

theorem not_covers_of_removed (h : buffer.Consistent) {r : Replacement}
    (hr : r ∈ buffer.replacements) (hnone : r.text = none)
    (hin : r.range.contains offset = true) : ∀ piece ∈ buffer.pieces, ¬ piece.Covers offset := by
  have hbound : offset < buffer.length := h.lt_length_of_contains hr hin
  obtain ⟨segment, hmem, hseg⟩ := exists_segment_in_order hbound
  have hs := isSegment_of_mem_order hmem
  obtain ⟨front, rest, hpieces, honly⟩ := pieces_split h hmem
  rcases hs.content_cases h with ⟨-, hkept⟩ | ⟨hgone, -⟩ | ⟨text, -, hrecorded⟩
  · rw [hs.replacement_contains_eq hr hseg, hkept r hr] at hin
    cases hin
  · rw [hgone, List.append_nil] at hpieces
    rw [hpieces]
    intro piece hpiece
    rcases List.mem_append.mp hpiece with hfront | hrest
    · exact (honly offset hseg).1 piece hfront
    · exact (honly offset hseg).2 piece hrest
  · have heq := h.eq_of_contains hr hrecorded hin hseg
    rw [heq] at hnone
    cases hnone

/-- The text in place of a range is written once, and nothing else is written
for the range. -/
theorem split_of_overwritten (h : buffer.Consistent) {range : Span} {text : Text}
    (hr : ⟨range, some text⟩ ∈ buffer.replacements) :
    ∃ front rest, buffer.pieces = front ++ .replacing range text :: rest ∧
      ∀ offset, range.contains offset = true →
        (∀ q ∈ front, ¬ q.Covers offset) ∧ ∀ q ∈ rest, ¬ q.Covers offset := by
  have hlt := h.replacement_nonempty _ hr
  have hstart : range.contains range.start = true :=
    (Span.contains_iff _ _).mpr ⟨Nat.le_refl _, hlt⟩
  obtain ⟨segment, hmem, hseg⟩ := exists_segment_in_order (h.lt_length_of_contains hr hstart)
  have hs := isSegment_of_mem_order hmem
  obtain ⟨front, rest, hpieces, honly⟩ := pieces_split h hmem
  rcases hs.content_cases h with ⟨-, hkept⟩ | ⟨-, r, hgone, hnone, hcovers⟩ |
    ⟨written, hother, hrecorded⟩
  · rw [hs.replacement_contains_eq hr hseg, hkept _ hr] at hstart
    cases hstart
  · rw [← hs.replacement_contains_eq hgone hseg] at hcovers
    have heq := h.eq_of_contains hgone hr hcovers hstart
    rw [heq] at hnone
    cases hnone
  · have heq := h.eq_of_contains hrecorded hr hseg hstart
    simp only [Replacement.mk.injEq, Option.some.injEq] at heq
    obtain ⟨rfl, rfl⟩ := heq
    rw [hother, List.append_assoc] at hpieces
    exact ⟨front, rest, hpieces, honly⟩

end Consistent

end EditBuffer

end TypedComponent
