import TypedComponent.Proofs.Edit.Coverage

/-!
Where source bytes go and where written bytes come from. After any run of
edits, refused ones skipped, the position map says in both directions what the
accepted edits mean: copied bytes go back and forth, the text in place of a
range belongs to that range, and nothing else has a place on the other side.
-/

namespace TypedComponent

open Piece (Agree)

namespace Cellwise

/-- The origins of the bytes that are written, one for each byte. -/
def origins (source : Text) (edits : List Edit) : List Origin :=
  (pieces source edits).flatMap Piece.origins

/-- A byte in no removed and no overwritten range. -/
def Kept (edits : List Edit) (offset : Nat) : Prop :=
  (∀ range, .remove range ∈ edits → range.contains offset = false) ∧
    ∀ range text, .overwrite range text ∈ edits → range.contains offset = false

end Cellwise

namespace EditBuffer

section Lookups

variable {buffer : EditBuffer} {offset written : Nat}

theorem finish_sourcePosition? (buffer : EditBuffer) (written : Nat) :
    buffer.finish.map.sourcePosition? written =
      ((buffer.pieces.flatMap Piece.origins)[written]?).bind Origin.source? :=
  Edited.sourcePosition?_ofPieces buffer.pieces written

/-- A kept byte is written where the map says. -/
theorem Consistent.generatedPosition?_of_kept (h : buffer.Consistent)
    (hbound : offset < buffer.length)
    (hkept : ∀ r ∈ buffer.replacements, r.range.contains offset = false) :
    ∃ written, buffer.finish.map.generatedPosition? offset = some written ∧
      (buffer.pieces.flatMap Piece.origins)[written]? = some (.copied offset) := by
  obtain ⟨start, text, front, rest, hpieces, hle, hlt, hfront, -⟩ := h.split_of_kept hbound hkept
  have htext : text ≠ [] := by
    rintro rfl
    simp only [Text.bytes_nil] at hlt
    omega
  have hrange : (Piece.source start text).range? = some ⟨start, start + Text.bytes text⟩ := rfl
  have hin : (⟨start, start + Text.bytes text⟩ : Span).contains offset = true :=
    (Span.contains_iff _ _).mpr ⟨hle, hlt⟩
  have hplace : buffer.finish.map.generatedPosition? offset =
      some (Text.bytes (front.flatMap Piece.text) +
        min (offset - start) (Text.bytes text - 1)) := by
    unfold finish
    rw [hpieces]
    exact Edited.generatedPosition?_of_first hrange htext hin hfront
  have hmin : min (offset - start) (Text.bytes text - 1) = offset - start := by omega
  rw [hmin] at hplace
  refine ⟨_, hplace, ?_⟩
  have hown : offset - start < Text.bytes (Piece.source start text).text := by
    simp only [Piece.text]
    omega
  rw [hpieces, Piece.origins_middle hown]
  simp only [Piece.originAt, Option.some.injEq, Origin.copied.injEq]
  omega

theorem Consistent.generatedPosition?_of_removed (h : buffer.Consistent) {r : Replacement}
    (hr : r ∈ buffer.replacements) (hnone : r.text = none)
    (hin : r.range.contains offset = true) :
    buffer.finish.map.generatedPosition? offset = none :=
  Edited.generatedPosition?_none (h.not_covers_of_removed hr hnone hin)

/-- Overwriting with nothing leaves no place, either. -/
theorem Consistent.generatedPosition?_of_erased (h : buffer.Consistent) {range : Span}
    (hr : ⟨range, some []⟩ ∈ buffer.replacements) (hin : range.contains offset = true) :
    buffer.finish.map.generatedPosition? offset = none := by
  obtain ⟨front, rest, hpieces, honly⟩ := h.split_of_overwritten hr
  apply Edited.generatedPosition?_none
  rw [hpieces]
  intro piece hmem
  rcases List.mem_append.mp hmem with hfront | hmem
  · exact (honly offset hin).1 piece hfront
  · rcases List.mem_cons.mp hmem with rfl | hrest
    · rintro ⟨htext, -⟩
      exact htext rfl
    · exact (honly offset hin).2 piece hrest

theorem Consistent.generatedPosition?_of_overwritten (h : buffer.Consistent) {range : Span}
    {text : Text} (hr : ⟨range, some text⟩ ∈ buffer.replacements) (htext : text ≠ [])
    (hin : range.contains offset = true) :
    ∃ written index, buffer.finish.map.generatedPosition? offset = some written ∧
      (buffer.pieces.flatMap Piece.origins)[written]? = some (.replacing range index) ∧
      ∃ byte, (Text.utf8 buffer.finish.code)[written]? = some byte ∧
        (Text.utf8 text)[index]? = some byte := by
  have hrange : (Piece.replacing range text).range? = some range := rfl
  obtain ⟨front, rest, hpieces, honly⟩ := h.split_of_overwritten hr
  have hplace : buffer.finish.map.generatedPosition? offset =
      some (Text.bytes (front.flatMap Piece.text) +
        min (offset - range.start) (Text.bytes text - 1)) := by
    unfold finish
    rw [hpieces]
    exact Edited.generatedPosition?_of_first hrange htext hin (honly offset hin).1
  have hpos := Text.bytes_pos_of_ne_nil htext
  have hown : min (offset - range.start) (Text.bytes text - 1) <
      Text.bytes (Piece.replacing range text).text := by
    simp only [Piece.text]
    omega
  obtain ⟨byte, hbyte⟩ := Piece.exists_byte hown
  refine ⟨_, min (offset - range.start) (Text.bytes text - 1), hplace, ?_, byte, ?_, hbyte⟩
  · rw [hpieces, Piece.origins_middle hown]
    rfl
  · unfold finish Edited.ofPieces
    rw [hpieces]
    exact (Piece.utf8_middle front rest hown).trans hbyte

/-- A copied byte is found again from where it was copied from. -/
theorem Consistent.generatedPosition?_of_copied (h : buffer.Consistent)
    (horigin : (buffer.pieces.flatMap Piece.origins)[written]? = some (.copied offset)) :
    buffer.finish.map.generatedPosition? offset = some written := by
  have htrue := pieces_trueTo h
  have hbound : offset < buffer.length := by
    obtain ⟨byte, -, hbyte⟩ := Piece.utf8_of_copied htrue horigin
    obtain ⟨hlt, -⟩ := List.getElem?_eq_some_iff.mp hbyte
    simpa [length] using hlt
  have hkept : ∀ r ∈ buffer.replacements, r.range.contains offset = false := by
    intro r hr
    rw [← Bool.not_eq_true]
    intro hin
    obtain ⟨range, change⟩ := r
    cases change with
    | none =>
      obtain ⟨piece, hmem, hcovers⟩ := Piece.exists_covers htrue horigin rfl
      exact h.not_covers_of_removed hr rfl hin piece hmem hcovers
    | some text =>
      obtain ⟨front, rest, hpieces, honly⟩ := h.split_of_overwritten hr
      rw [hpieces] at htrue horigin
      obtain ⟨own, -, -, hown⟩ := Piece.index_of_only htrue (honly offset hin).1
        (honly offset hin).2 horigin rfl
      cases hown
  obtain ⟨other, hplace, hother⟩ := h.generatedPosition?_of_kept hbound hkept
  obtain ⟨start, text, front, rest, hpieces, -, -, hfront, hrest⟩ := h.split_of_kept hbound hkept
  rw [hpieces] at htrue horigin hother
  obtain ⟨own, rfl, -, hown⟩ := Piece.index_of_only htrue hfront hrest horigin rfl
  obtain ⟨own', rfl, -, hown'⟩ := Piece.index_of_only htrue hfront hrest hother rfl
  simp only [Piece.originAt, Origin.copied.injEq] at hown hown'
  have hsame : own' = own := by omega
  rw [hplace, hsame]

/-- The bytes in place of a range lie one after another. -/
theorem Consistent.replacing_run (h : buffer.Consistent) {range : Span} {index : Nat}
    (horigin : (buffer.pieces.flatMap Piece.origins)[written]? = some (.replacing range index)) :
    (∃ text, ⟨range, some text⟩ ∈ buffer.replacements) ∧
      ∃ start, ∀ later laterIndex,
        (buffer.pieces.flatMap Piece.origins)[later]? = some (Origin.replacing range laterIndex) →
          later = start + laterIndex := by
  have hrecorded : ∃ text, ⟨range, some text⟩ ∈ buffer.replacements := by
    obtain ⟨front, piece, rest, own, hpieces, -, -, hown⟩ := Piece.exists_of_origins horigin
    have hmem : piece ∈ buffer.pieces := by simp [hpieces]
    cases piece with
    | made text => cases hown
    | source start text => cases hown
    | replacing other text =>
      simp only [Piece.originAt, Origin.replacing.injEq] at hown
      obtain ⟨rfl, -⟩ := hown
      exact ⟨text, recorded_of_replacing h hmem⟩
  obtain ⟨text, hr⟩ := hrecorded
  refine ⟨⟨text, hr⟩, ?_⟩
  obtain ⟨front, rest, hpieces, honly⟩ := h.split_of_overwritten hr
  have htrue := pieces_trueTo h
  have hlt := h.replacement_nonempty _ hr
  rw [hpieces] at htrue
  refine ⟨Text.bytes (front.flatMap Piece.text), ?_⟩
  intro later laterIndex hlater
  have hin : range.contains (range.start + min laterIndex (range.length - 1)) = true := by
    rw [Span.contains_iff]
    dsimp only at hlt
    unfold Span.length
    omega
  rw [hpieces] at hlater
  obtain ⟨own, rfl, -, hown⟩ := Piece.index_of_only htrue (honly _ hin).1 (honly _ hin).2 hlater rfl
  simp only [Piece.originAt, Origin.replacing.injEq, true_and] at hown
  rw [hown]

end Lookups

section Runs

variable {source : Text} {edits : List Edit} {buffer : EditBuffer}

theorem Records.origins_eq (h : buffer.Records source edits) :
    buffer.pieces.flatMap Piece.origins = Cellwise.origins source edits :=
  h.pieces_agree.origins

theorem Records.not_contains_of_kept (h : buffer.Records source edits) {offset : Nat}
    (hkept : Cellwise.Kept edits offset) :
    ∀ r ∈ buffer.replacements, r.range.contains offset = false := by
  obtain ⟨hremoves, hoverwrites⟩ := hkept
  intro r hr
  obtain ⟨range, change⟩ := r
  cases change with
  | some text => exact hoverwrites range text ((h.overwritten_iff range text).mp hr)
  | none =>
    rw [← Bool.not_eq_true]
    intro hin
    obtain ⟨edit, hmem, hremoved⟩ :=
      List.any_eq_true.mp ((h.removed_iff offset).mp ⟨_, hr, rfl, hin⟩)
    cases edit with
    | remove other =>
      simp only [Edit.removes] at hremoved
      rw [hremoves other hmem] at hremoved
      cases hremoved
    | _ => cases hremoved

theorem Records.sourcePosition?_of_copied (h : buffer.Records source edits)
    {written offset : Nat}
    (horigin : (Cellwise.origins source edits)[written]? = some (.copied offset)) :
    buffer.finish.map.sourcePosition? written = some offset := by
  rw [finish_sourcePosition?, h.origins_eq, horigin]
  rfl

theorem Records.utf8_of_copied (h : buffer.Records source edits) {written offset : Nat}
    (horigin : (Cellwise.origins source edits)[written]? = some (.copied offset)) :
    ∃ byte, (Text.utf8 buffer.finish.code)[written]? = some byte ∧
      (Text.utf8 source)[offset]? = some byte := by
  rw [← h.origins_eq] at horigin
  rw [← h.source_eq]
  exact Piece.utf8_of_copied (pieces_trueTo h.consistent) horigin

/-- The place of a source byte after any run of edits. A kept byte is written
once, and the map leads there and back; a removed byte has no place; and a byte
of an overwritten range is found in the text in its place, if there is any. -/
theorem generatedPosition?_run (source : Text) (edits : List Edit) {offset : Nat}
    (hbound : offset < Text.bytes source) :
    let accepted := (ofText source).accepted edits
    let edited := ((ofText source).run edits).finish
    (Cellwise.Kept accepted offset →
      ∃ written, edited.map.generatedPosition? offset = some written ∧
        (∃ byte, (Text.utf8 edited.code)[written]? = some byte ∧
          (Text.utf8 source)[offset]? = some byte) ∧
        edited.map.sourcePosition? written = some offset ∧
        ∀ other, other < Text.bytes source → Cellwise.Kept accepted other →
          edited.map.generatedPosition? other = some written → other = offset) ∧
    (∀ range, .remove range ∈ accepted → range.contains offset = true →
      edited.map.generatedPosition? offset = none) ∧
    ∀ range text, .overwrite range text ∈ accepted → range.contains offset = true →
      (text = [] → edited.map.generatedPosition? offset = none) ∧
      (text ≠ [] → ∃ written index, edited.map.generatedPosition? offset = some written ∧
        (Cellwise.origins source accepted)[written]? = some (.replacing range index) ∧
        ∃ byte, (Text.utf8 edited.code)[written]? = some byte ∧
          (Text.utf8 text)[index]? = some byte) := by
  intro accepted edited
  have h := run_records (ofText_records source) edits
  rw [List.nil_append] at h
  have hlength : ((ofText source).run edits).length = Text.bytes source := by
    rw [length, h.source_eq]
  have hplace {o : Nat} (ho : o < Text.bytes source) (hkept : Cellwise.Kept accepted o) :
      ∃ written, edited.map.generatedPosition? o = some written ∧
        (Cellwise.origins source accepted)[written]? = some (.copied o) := by
    rw [← h.origins_eq]
    exact h.consistent.generatedPosition?_of_kept (hlength ▸ ho) (h.not_contains_of_kept hkept)
  refine ⟨?_, ?_, ?_⟩
  · intro hkept
    obtain ⟨written, hwritten, horigin⟩ := hplace hbound hkept
    refine ⟨written, hwritten, h.utf8_of_copied horigin, h.sourcePosition?_of_copied horigin, ?_⟩
    intro other hother hkeptOther hsame
    obtain ⟨written', hwritten', horigin'⟩ := hplace hother hkeptOther
    have heq : written' = written := Option.some.inj (hwritten'.symm.trans hsame)
    rw [heq, horigin] at horigin'
    simp only [Option.some.injEq, Origin.copied.injEq] at horigin'
    exact horigin'.symm
  · intro range hmem hin
    have hremoved : accepted.any (Edit.removes offset) = true :=
      List.any_eq_true.mpr ⟨_, hmem, hin⟩
    obtain ⟨r, hr, hnone, hcontains⟩ := (h.removed_iff offset).mpr hremoved
    exact h.consistent.generatedPosition?_of_removed hr hnone hcontains
  · intro range text hmem hin
    have hr := (h.overwritten_iff range text).mpr hmem
    constructor
    · rintro rfl
      exact h.consistent.generatedPosition?_of_erased hr hin
    · intro htext
      rw [← h.origins_eq]
      exact h.consistent.generatedPosition?_of_overwritten hr htext hin

/-- In a text with a removed, an overwritten and a moved letter the moved one
is found at its new place, and nothing else is found there. -/
theorem generatedPosition?_run_moved :
    2 < Text.bytes ['a', 'b', 'c', 'd'] ∧
      ∃ written, ((ofText ['a', 'b', 'c', 'd']).run
          [.remove ⟨0, 1⟩, .overwrite ⟨1, 2⟩ ['x', 'y'],
            .move ⟨2, 3⟩ 4]).finish.map.generatedPosition? 2 = some written ∧
        ((ofText ['a', 'b', 'c', 'd']).run
          [.remove ⟨0, 1⟩, .overwrite ⟨1, 2⟩ ['x', 'y'],
            .move ⟨2, 3⟩ 4]).finish.map.sourcePosition? written = some 2 := by
  have hbound : 2 < Text.bytes ['a', 'b', 'c', 'd'] := by decide
  obtain ⟨hkept, -, -⟩ := generatedPosition?_run ['a', 'b', 'c', 'd']
    [.remove ⟨0, 1⟩, .overwrite ⟨1, 2⟩ ['x', 'y'], .move ⟨2, 3⟩ 4] hbound
  have haccepted : (ofText ['a', 'b', 'c', 'd']).accepted
      [.remove ⟨0, 1⟩, .overwrite ⟨1, 2⟩ ['x', 'y'], .move ⟨2, 3⟩ 4] =
        [.remove ⟨0, 1⟩, .overwrite ⟨1, 2⟩ ['x', 'y'], .move ⟨2, 3⟩ 4] := by decide
  have hfree : Cellwise.Kept
      [.remove ⟨0, 1⟩, .overwrite ⟨1, 2⟩ ['x', 'y'], .move ⟨2, 3⟩ 4] 2 := by
    constructor
    · intro range hmem
      simp only [List.mem_cons, Edit.remove.injEq, reduceCtorEq, List.not_mem_nil, or_false] at hmem
      rw [hmem]
      rfl
    · intro range text hmem
      simp only [List.mem_cons, Edit.overwrite.injEq, reduceCtorEq, List.not_mem_nil, or_false,
        false_or] at hmem
      rw [hmem.1]
      rfl
  obtain ⟨written, hplace, -, hback, -⟩ := hkept (haccepted ▸ hfree)
  exact ⟨hbound, written, hplace, hback⟩

/-- What the map says of a written byte of a given origin. -/
def Attributed (source : Text) (edits : List Edit) (edited : Edited) (written : Nat) :
    Origin → Prop
  | .made => edited.map.sourcePosition? written = none
  | .copied offset =>
    edited.map.sourcePosition? written = some offset ∧
      (∃ byte, (Text.utf8 edited.code)[written]? = some byte ∧
        (Text.utf8 source)[offset]? = some byte) ∧
      edited.map.generatedPosition? offset = some written
  | .replacing range _ =>
    (∃ text, .overwrite range text ∈ edits) ∧
      ∃ offset, edited.map.sourcePosition? written = some offset ∧
        range.contains offset = true ∧
        ∀ later laterIndex, written ≤ later →
          (Cellwise.origins source edits)[later]? = some (.replacing range laterIndex) →
          ∃ laterOffset, edited.map.sourcePosition? later = some laterOffset ∧
            offset ≤ laterOffset

theorem Records.attributed (h : buffer.Records source edits) {written : Nat} {origin : Origin}
    (horigin : (Cellwise.origins source edits)[written]? = some origin) :
    Attributed source edits buffer.finish written origin := by
  cases origin with
  | made =>
    unfold Attributed
    rw [finish_sourcePosition?, h.origins_eq, horigin]
    rfl
  | copied offset =>
    refine ⟨h.sourcePosition?_of_copied horigin, h.utf8_of_copied horigin, ?_⟩
    rw [← h.origins_eq] at horigin
    exact h.consistent.generatedPosition?_of_copied horigin
  | replacing range index =>
    have hlookup {place number : Nat}
        (hplace : (Cellwise.origins source edits)[place]? = some (.replacing range number)) :
        buffer.finish.map.sourcePosition? place =
          some (range.start + min number (range.length - 1)) := by
      rw [finish_sourcePosition?, h.origins_eq, hplace]
      rfl
    have hrun := horigin
    rw [← h.origins_eq] at hrun
    obtain ⟨⟨text, hr⟩, start, hstart⟩ := h.consistent.replacing_run hrun
    have hwritten := hstart written index hrun
    have hlt := h.consistent.replacement_nonempty _ hr
    refine ⟨⟨text, (h.overwritten_iff range text).mp hr⟩, _, hlookup horigin, ?_, ?_⟩
    · rw [Span.contains_iff]
      dsimp only at hlt
      unfold Span.length
      omega
    · intro later laterIndex hle hlater
      refine ⟨_, hlookup hlater, ?_⟩
      rw [← h.origins_eq] at hlater
      have hlaterPlace := hstart later laterIndex hlater
      omega

/-- The origin of every written byte after any run of edits, and what the map
says of it; past the end of the text the map says nothing. -/
theorem sourcePosition?_run (source : Text) (edits : List Edit) :
    let accepted := (ofText source).accepted edits
    let edited := ((ofText source).run edits).finish
    (∀ written, written < Text.bytes edited.code →
      ∃ origin, (Cellwise.origins source accepted)[written]? = some origin ∧
        Attributed source accepted edited written origin) ∧
    ∀ written, Text.bytes edited.code ≤ written →
      edited.map.sourcePosition? written = none := by
  intro accepted edited
  have h := run_records (ofText_records source) edits
  rw [List.nil_append] at h
  have hlength : (Cellwise.origins source accepted).length = Text.bytes edited.code := by
    rw [← h.origins_eq, Piece.length_flatMap_origins]
    rfl
  constructor
  · intro written hlt
    have hin : written < (Cellwise.origins source accepted).length := by omega
    exact ⟨_, List.getElem?_eq_getElem hin, h.attributed (List.getElem?_eq_getElem hin)⟩
  · intro written hle
    have hout : (Cellwise.origins source accepted)[written]? = none :=
      List.getElem?_eq_none (by omega)
    rw [finish_sourcePosition?, h.origins_eq, hout]
    rfl

end Runs

end EditBuffer

end TypedComponent
