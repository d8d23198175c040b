import TypedComponent.Proofs.PositionMap.Lookup

/-!
Where each byte of an edited text comes from. A list of pieces says it byte by
byte, and the position map that is built from the pieces says the same to
whoever asks it.
-/

namespace TypedComponent

/-- The origin of one byte of edited text. -/
inductive Origin where
  /-- Brought in by an edit. -/
  | made
  /-- The source byte at `offset`. -/
  | copied (offset : Nat)
  /-- Byte number `index` of the text in place of a source range. -/
  | replacing (range : Span) (index : Nat)
deriving DecidableEq, Repr

/-- The source offset that a byte is attributed to. The text in place of a
range goes through the range and stays at its last byte. -/
def Origin.source? : Origin → Option Nat
  | made => none
  | copied offset => some offset
  | replacing range index => some (range.start + min index (range.length - 1))

namespace Piece

/-- The part of the source that a piece stands for. -/
def range? : Piece → Option Span
  | made _ => none
  | source start text => some ⟨start, start + Text.bytes text⟩
  | replacing range _ => some range

/-- The origin of a byte of a piece by its number. -/
def originAt : Piece → Nat → Origin
  | made _, _ => .made
  | source start _, index => .copied (start + index)
  | replacing range _, index => .replacing range index

def origins (piece : Piece) : List Origin :=
  (List.range (Text.bytes piece.text)).map piece.originAt

@[simp] theorem length_origins (piece : Piece) :
    piece.origins.length = Text.bytes piece.text := by simp [origins]

theorem origins_getElem? {piece : Piece} {index : Nat} (h : index < Text.bytes piece.text) :
    piece.origins[index]? = some (piece.originAt index) := by
  simp [origins, h]

/-- The mapping that a piece written at `offset` leaves. -/
def placedAt (piece : Piece) (offset : Nat) : Option Mapping :=
  if piece.text = [] then none
  else piece.range?.map fun range => ⟨⟨offset, offset + Text.bytes piece.text⟩, range⟩

theorem placedAt_eq_some {piece : Piece} {offset : Nat} {mapping : Mapping} :
    piece.placedAt offset = some mapping ↔ piece.text ≠ [] ∧ ∃ range, piece.range? = some range ∧
      mapping = ⟨⟨offset, offset + Text.bytes piece.text⟩, range⟩ := by
  unfold placedAt
  by_cases htext : piece.text = []
  · simp [htext]
  · cases hrange : piece.range? <;> simp [htext, eq_comm]

/-- Whether a piece leaves a mapping from a source offset. -/
def Covers (piece : Piece) (offset : Nat) : Prop :=
  piece.text ≠ [] ∧ ∃ range, piece.range? = some range ∧ range.contains offset = true

theorem record_generatedLength (builder : PositionMap.Builder) (piece : Piece) :
    (piece.record builder).generatedLength =
      builder.generatedLength + Text.bytes piece.text := by
  have hreplacing (source : Span) (text : Text) :
      (builder.addReplacing source text).generatedLength =
        builder.generatedLength + Text.bytes text := by
    unfold PositionMap.Builder.addReplacing
    by_cases htext : text = []
    · simp [htext]
    · cases hlast : builder.reversed with
      | nil => simp [htext]
      | cons last earlier =>
        simp only [if_neg htext]
        split <;> rfl
  cases piece with
  | made text => rfl
  | source start text => exact hreplacing _ _
  | replacing range text => exact hreplacing _ _

end Piece

/-- The mappings that pieces written from `offset` on leave. -/
def placements (offset : Nat) : List Piece → List Mapping
  | [] => []
  | piece :: rest =>
    (piece.placedAt offset).toList ++ placements (offset + Text.bytes piece.text) rest

theorem placements_append (offset : Nat) (front rest : List Piece) :
    placements offset (front ++ rest) =
      placements offset front ++
        placements (offset + Text.bytes (front.flatMap Piece.text)) rest := by
  induction front generalizing offset with
  | nil => simp [placements]
  | cons piece front ih => simp [placements, ih, Nat.add_assoc]

namespace PositionMap.Builder

theorem addReplacing_represents {builder : Builder} {written : List Mapping}
    (h : builder.Represents written) (source : Span) (text : Text) :
    (builder.addReplacing source text).Represents
      (written ++ if text = [] then [] else [builder.writtenBy source text]) := by
  by_cases htext : text = []
  · simpa [addReplacing, htext] using h
  · have hpos := Text.bytes_pos_of_ne_nil htext
    have hpush := push_represents h source hpos
    simp only [addReplacing, if_neg htext]
    cases hlast : builder.reversed with
    | nil =>
      rw [hlast] at hpush
      exact hpush
    | cons last earlier =>
      by_cases hcont : continues last (builder.writtenBy source text).generated source = true
      · have hjoin := join_represents h hlast source hpos hcont
        simp only [writtenBy] at hcont hjoin ⊢
        rw [if_pos hcont]
        exact hjoin
      · rw [hlast] at hpush
        simp only [writtenBy] at hcont hpush ⊢
        rw [if_neg hcont]
        exact hpush

theorem record_represents {builder : Builder} {written : List Mapping}
    (h : builder.Represents written) (piece : Piece) :
    (piece.record builder).Represents
      (written ++ (piece.placedAt builder.generatedLength).toList) := by
  cases piece with
  | made text =>
    have hnone : (Piece.made text).placedAt builder.generatedLength = none := by
      simp [Piece.placedAt, Piece.range?]
    rw [hnone]
    simpa [Piece.record] using addGenerated_represents h text
  | source start text =>
    have hadd := addReplacing_represents h ⟨start, start + Text.bytes text⟩ text
    by_cases htext : text = [] <;>
      simpa [Piece.record, addSource, Piece.placedAt, Piece.range?, Piece.text, writtenBy,
        htext] using hadd
  | replacing range text =>
    have hadd := addReplacing_represents h range text
    by_cases htext : text = [] <;>
      simpa [Piece.record, Piece.placedAt, Piece.range?, Piece.text, writtenBy, htext] using hadd

/-- A whole run of the builder answers as the pieces that went into it. -/
theorem foldl_record_represents {builder : Builder} {written : List Mapping}
    (h : builder.Represents written) (pieces : List Piece) :
    (pieces.foldl Piece.record builder).Represents
      (written ++ placements builder.generatedLength pieces) := by
  induction pieces generalizing builder written with
  | nil => simpa [placements] using h
  | cons piece rest ih =>
    have hstep := record_represents h piece
    have hrest := ih hstep
    rw [Piece.record_generatedLength, List.append_assoc] at hrest
    exact hrest

end PositionMap.Builder

namespace Edited

open PositionMap (lookUp lookUp_append lookUp_none_of_before)

theorem map_sourcePosition? (pieces : List Piece) (offset : Nat) :
    (ofPieces pieces).map.sourcePosition? offset =
      lookUp Mapping.generated Mapping.source (placements 0 pieces) offset := by
  have hrun := PositionMap.Builder.foldl_record_represents
    PositionMap.Builder.empty_represents pieces
  rw [ofPieces, PositionMap.Builder.build, PositionMap.sourcePosition?_eq_lookUp hrun.ordered]
  exact hrun.back offset

theorem map_generatedPosition? (pieces : List Piece) (offset : Nat) :
    (ofPieces pieces).map.generatedPosition? offset =
      lookUp Mapping.source Mapping.generated (placements 0 pieces) offset := by
  have hrun := PositionMap.Builder.foldl_record_represents
    PositionMap.Builder.empty_represents pieces
  exact hrun.forth offset

theorem start_ge_of_mem_placements {offset : Nat} {pieces : List Piece} {mapping : Mapping}
    (h : mapping ∈ placements offset pieces) : offset ≤ mapping.generated.start := by
  induction pieces generalizing offset with
  | nil => simp [placements] at h
  | cons piece rest ih =>
    rcases List.mem_append.mp h with hfirst | hrest
    · obtain ⟨-, range, -, rfl⟩ := Piece.placedAt_eq_some.mp (Option.mem_toList.mp hfirst)
      exact Nat.le_refl _
    · have hle := ih hrest
      omega

/-- A search through the pieces reads the origin of the byte. -/
theorem lookUp_placements (pieces : List Piece) (offset index : Nat) :
    lookUp Mapping.generated Mapping.source (placements offset pieces) (offset + index) =
      ((pieces.flatMap Piece.origins)[index]?).bind Origin.source? := by
  induction pieces generalizing offset index with
  | nil => rfl
  | cons piece rest ih =>
    rw [placements, lookUp_append, List.flatMap_cons]
    by_cases hin : index < Text.bytes piece.text
    · have hrest : lookUp Mapping.generated Mapping.source
          (placements (offset + Text.bytes piece.text) rest) (offset + index) = none := by
        apply lookUp_none_of_before
        intro mapping hmem
        have hle := start_ge_of_mem_placements hmem
        omega
      have htext : piece.text ≠ [] := by
        intro hnil
        simp [hnil] at hin
      rw [hrest, Option.or_none, List.getElem?_append_left (by simpa using hin),
        Piece.origins_getElem? hin]
      cases piece with
      | made text => simp [Piece.placedAt, Piece.range?, Piece.originAt, Origin.source?, lookUp]
      | source start text =>
        simp only [Piece.text] at htext hin
        have hbound : min index (Text.bytes text - 1) = index := by omega
        simp [Piece.placedAt, Piece.range?, Piece.text, Piece.originAt, Origin.source?, lookUp,
          htext, Span.contains, hin, Mapping.carry, Span.length, hbound]
      | replacing range text =>
        simp only [Piece.text] at htext hin
        simp [Piece.placedAt, Piece.range?, Piece.text, Piece.originAt, Origin.source?, lookUp,
          htext, Span.contains, hin, Mapping.carry]
    · have hfirst : lookUp Mapping.generated Mapping.source
          (piece.placedAt offset).toList (offset + index) = none := by
        simp only [lookUp, Option.map_eq_none_iff, List.find?_eq_none, Option.mem_toList]
        intro mapping hmem
        obtain ⟨-, range, -, rfl⟩ := Piece.placedAt_eq_some.mp hmem
        rw [Span.contains_iff]
        dsimp only
        omega
      obtain ⟨more, rfl⟩ : ∃ more, index = Text.bytes piece.text + more :=
        ⟨index - Text.bytes piece.text, by omega⟩
      rw [hfirst, Option.none_or, ← Nat.add_assoc, ih,
        List.getElem?_append_right (by simp), Piece.length_origins, Nat.add_sub_cancel_left]

/-- The map attributes every byte to its origin. -/
theorem sourcePosition?_ofPieces (pieces : List Piece) (offset : Nat) :
    (ofPieces pieces).map.sourcePosition? offset =
      ((pieces.flatMap Piece.origins)[offset]?).bind Origin.source? := by
  rw [map_sourcePosition?, ← lookUp_placements pieces 0 offset, Nat.zero_add]

theorem lookUp_placements_none {pieces : List Piece} {offset source : Nat}
    (h : ∀ piece ∈ pieces, ¬ piece.Covers source) :
    lookUp Mapping.source Mapping.generated (placements offset pieces) source = none := by
  induction pieces generalizing offset with
  | nil => rfl
  | cons piece rest ih =>
    have hrest : ∀ q ∈ rest, ¬ q.Covers source := fun q hq => h q (by simp [hq])
    rw [placements, lookUp_append, ih hrest, Option.or_none]
    simp only [lookUp, Option.map_eq_none_iff, List.find?_eq_none, Option.mem_toList]
    intro mapping hmem hcontains
    obtain ⟨htext, range, hrange, rfl⟩ := Piece.placedAt_eq_some.mp hmem
    exact h piece (by simp) ⟨htext, range, hrange, hcontains⟩

/-- A source offset that no piece stands for has no place in the edited text. -/
theorem generatedPosition?_none {pieces : List Piece} {source : Nat}
    (h : ∀ piece ∈ pieces, ¬ piece.Covers source) :
    (ofPieces pieces).map.generatedPosition? source = none := by
  rw [map_generatedPosition?, lookUp_placements_none h]

/-- The first piece that stands for a source offset says where it went. -/
theorem generatedPosition?_of_first {before after : List Piece} {piece : Piece} {range : Span}
    {source : Nat} (hrange : piece.range? = some range) (htext : piece.text ≠ [])
    (hsource : range.contains source = true) (hbefore : ∀ q ∈ before, ¬ q.Covers source) :
    (ofPieces (before ++ piece :: after)).map.generatedPosition? source =
      some (Text.bytes (before.flatMap Piece.text) +
        min (source - range.start) (Text.bytes piece.text - 1)) := by
  rw [map_generatedPosition?, placements_append, lookUp_append, lookUp_placements_none hbefore,
    Option.none_or, placements, lookUp_append]
  simp [Piece.placedAt, htext, hrange, lookUp, hsource, Mapping.carry, Span.length]

end Edited

end TypedComponent
