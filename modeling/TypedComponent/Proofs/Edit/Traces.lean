import TypedComponent.Proofs.Edit.Positions

/-!
What becomes of a source byte when every edit is accepted, told by the edits
alone. A byte that no edit replaces is copied, a removed byte is lost, and an
overwritten one is found in the text that stands in its place, at the place that
the cells before it give that text.
-/

namespace TypedComponent

open Piece (Agree)

namespace PositionMap

/-- A source byte that is copied: the map leads to the same byte of the code,
and back from there. -/
def Copies (map : PositionMap) (source code : Text) (offset : Nat) : Prop :=
  ∃ place, map.generatedPosition? offset = some place ∧
    (∃ byte, (Text.utf8 code)[place]? = some byte ∧ (Text.utf8 source)[offset]? = some byte) ∧
    map.sourcePosition? place = some offset

/-- A source byte that the map leads into a text of the code, behind the text
`front` with which the code begins. -/
def LeadsInto (map : PositionMap) (code front text : Text) (offset : Nat) : Prop :=
  ∃ place rest, map.generatedPosition? offset = some place ∧ code = front ++ text ++ rest ∧
    Text.bytes front ≤ place ∧ place < Text.bytes front + Text.bytes text

end PositionMap

namespace EditBuffer.Records

variable {source : Text} {edits : List Edit} {buffer : EditBuffer} {offset : Nat}

theorem copies_of_kept (h : buffer.Records source edits) (hbound : offset < Text.bytes source)
    (hkept : Cellwise.Kept edits offset) :
    buffer.finish.map.Copies source buffer.finish.code offset := by
  have hlength : offset < buffer.length := by
    unfold length
    rwa [h.source_eq]
  obtain ⟨place, hplace, horigin⟩ :=
    h.consistent.generatedPosition?_of_kept hlength (h.not_contains_of_kept hkept)
  rw [h.origins_eq] at horigin
  exact ⟨place, hplace, h.utf8_of_copied horigin, h.sourcePosition?_of_copied horigin⟩

theorem lost_of_removed (h : buffer.Records source edits) {range : Span}
    (hedit : .remove range ∈ edits) (hin : range.contains offset = true) :
    buffer.finish.map.generatedPosition? offset = none := by
  have hremoved : edits.any (Edit.removes offset) = true := List.any_eq_true.mpr ⟨_, hedit, hin⟩
  obtain ⟨r, hr, hnone, hcontains⟩ := (h.removed_iff offset).mpr hremoved
  exact h.consistent.generatedPosition?_of_removed hr hnone hcontains

/-- An overwritten byte is found in the text in its place wherever that text is
among the pieces that are written. -/
theorem leadsInto_of_agree (h : buffer.Records source edits) {range : Span} {text : Text}
    {front rest : List Piece} (hedit : .overwrite range text ∈ edits) (htext : text ≠ [])
    (hin : range.contains offset = true)
    (hagree : Agree (Cellwise.pieces source edits) (front ++ .replacing range text :: rest)) :
    buffer.finish.map.LeadsInto buffer.finish.code (front.flatMap Piece.text) text offset := by
  have hr := (h.overwritten_iff range text).mpr hedit
  have hpieces := h.pieces_agree.trans hagree
  obtain ⟨place, index, hplace, horigin, byte, -, hindex⟩ :=
    h.consistent.generatedPosition?_of_overwritten hr htext hin
  -- The first byte of the text tells where all of them are.
  have hfirst : 0 < Text.bytes (Piece.replacing range text).text :=
    Text.bytes_pos_of_ne_nil htext
  have hstart : (buffer.pieces.flatMap Piece.origins)[Text.bytes (front.flatMap Piece.text) + 0]? =
      some (.replacing range 0) := by
    rw [hpieces.origins, Piece.origins_middle hfirst]
    rfl
  obtain ⟨-, start, hrun⟩ := h.consistent.replacing_run horigin
  have hat := hrun _ _ horigin
  have hfrom := hrun _ _ hstart
  obtain ⟨hlt, -⟩ := List.getElem?_eq_some_iff.mp hindex
  have hwithin : index < Text.bytes text := by simpa using hlt
  refine ⟨place, rest.flatMap Piece.text, hplace, ?_, by omega, by omega⟩
  have hcode : buffer.finish.code = (front ++ .replacing range text :: rest).flatMap Piece.text :=
    hpieces.text
  rw [hcode, List.flatMap_append, List.flatMap_cons, Piece.text, List.append_assoc]

/-- An overwritten byte is found behind the cells that come before its range. -/
theorem leadsInto_of_order (h : buffer.Records source edits) {range : Span} {text : Text}
    {ahead behind : List Cell} (hedit : .overwrite range text ∈ edits) (htext : text ≠ [])
    (hin : range.contains offset = true)
    (horder : Cellwise.order source edits = ahead ++ (Text.cellsIn source range ++ behind)) :
    buffer.finish.map.LeadsInto buffer.finish.code
      (Cellwise.intro edits ++ (Cellwise.inserted edits .after 0).flatMap Piece.text ++
        (ahead.flatMap (Cellwise.held edits)).flatMap Piece.text ++
        (Cellwise.inserted edits .before range.start).flatMap Piece.text) text offset := by
  have hheld := h.held_range ((h.overwritten_iff range text).mpr hedit)
  have hagree : Agree (Cellwise.pieces source edits)
      ((.made (Cellwise.intro edits) :: Cellwise.inserted edits .after 0 ++
          ahead.flatMap (Cellwise.held edits) ++ Cellwise.inserted edits .before range.start) ++
        .replacing range text :: (Cellwise.inserted edits .after range.stop ++
          behind.flatMap (Cellwise.held edits) ++
          Cellwise.inserted edits .before (Text.bytes source) ++
          [.made (Cellwise.outro edits)])) := by
    have hfront := Agree.refl (.made (Cellwise.intro edits) :: Cellwise.inserted edits .after 0 ++
      ahead.flatMap (Cellwise.held edits))
    have hback := Agree.refl (behind.flatMap (Cellwise.held edits) ++
      Cellwise.inserted edits .before (Text.bytes source) ++ [.made (Cellwise.outro edits)])
    have hall := (hfront.append hheld).append hback
    unfold Cellwise.pieces
    rw [horder, List.flatMap_append, List.flatMap_append]
    simpa only [List.append_assoc, List.cons_append, List.nil_append, List.singleton_append]
      using hall
  have hleads := h.leadsInto_of_agree hedit htext hin hagree
  simpa only [List.cons_append, List.flatMap_cons, List.flatMap_append, Piece.text,
    List.append_assoc] using hleads

end EditBuffer.Records

end TypedComponent
