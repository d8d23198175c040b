import TypedComponent.Proofs.Edit.Origins

/-!
What a builder makes of the pieces that are written to it, whichever they are:
the ranges that they stand for may overlap, go backwards or be as long as the
text in their place. The map answers as a search through all pieces as they were
written, although it holds those that go on on both sides as one, and its
mappings lie one behind the other.
-/

namespace TypedComponent

open PositionMap (Ordered lookUp sourcePosition?_eq_lookUp)

theorem placements_ordered (offset : Nat) (pieces : List Piece) :
    Ordered (placements offset pieces) := by
  induction pieces generalizing offset with
  | nil => exact ⟨by simp [placements], by simp [placements]⟩
  | cons piece rest ih =>
    obtain ⟨hpos, hpairs⟩ := ih (offset + Text.bytes piece.text)
    constructor
    · intro mapping hmem
      rcases List.mem_append.mp hmem with hfirst | hrest
      · obtain ⟨htext, range, -, rfl⟩ := Piece.placedAt_eq_some.mp (Option.mem_toList.mp hfirst)
        exact Nat.lt_add_of_pos_right (Text.bytes_pos_of_ne_nil htext)
      · exact hpos mapping hrest
    · refine List.pairwise_append.mpr ⟨?_, hpairs, ?_⟩
      · cases piece.placedAt offset <;> simp
      · intro earlier hearlier later hlater
        obtain ⟨-, range, -, rfl⟩ := Piece.placedAt_eq_some.mp (Option.mem_toList.mp hearlier)
        exact Edited.start_ge_of_mem_placements hlater

namespace PositionMap

/-- Mappings that are not empty and lie one behind the other begin one after
another. -/
theorem Ordered.starts_increase {mappings : List Mapping} (h : Ordered mappings) :
    mappings.Pairwise fun earlier later => earlier.generated.start < later.generated.start := by
  refine h.2.imp_of_mem ?_
  intro earlier later hearlier _ hstop
  exact Nat.lt_of_lt_of_le (h.1 earlier hearlier) hstop

namespace Builder

theorem foldl_record_generatedLength (builder : Builder) (pieces : List Piece) :
    (pieces.foldl Piece.record builder).generatedLength =
      builder.generatedLength + Text.bytes (pieces.flatMap Piece.text) := by
  induction pieces generalizing builder with
  | nil => rfl
  | cons piece rest ih =>
    rw [List.foldl_cons, ih, Piece.record_generatedLength, List.flatMap_cons, Text.bytes_append,
      Nat.add_assoc]

/-- In both directions the map finds what a search from the front through the
pieces finds, none of them joined and no two of them at one place of the
generated text. Its own mappings are not empty, begin one after another and do
not overlap, and the builder has counted all that was written. -/
theorem build_lookUp (pieces : List Piece) :
    let builder := pieces.foldl Piece.record empty
    let map := builder.build
    let written := placements 0 pieces
    (∀ generated, map.sourcePosition? generated =
      lookUp Mapping.generated Mapping.source written generated) ∧
    (∀ source, map.generatedPosition? source =
      lookUp Mapping.source Mapping.generated written source) ∧
    Ordered written ∧ Ordered map.mappings ∧
    (map.mappings.Pairwise fun earlier later =>
      earlier.generated.start < later.generated.start) ∧
    builder.generatedLength = Text.bytes (pieces.flatMap Piece.text) := by
  intro builder map written
  have hrun : builder.Represents written := foldl_record_represents empty_represents pieces
  have hlength := foldl_record_generatedLength empty pieces
  rw [show empty.generatedLength = 0 from rfl, Nat.zero_add] at hlength
  refine ⟨?_, hrun.forth, placements_ordered 0 pieces, hrun.ordered,
    hrun.ordered.starts_increase, hlength⟩
  intro generated
  exact (sourcePosition?_eq_lookUp hrun.ordered generated).trans (hrun.back generated)

end Builder

end PositionMap

end TypedComponent
