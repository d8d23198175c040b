import Mathlib.Data.List.Basic
import TypedComponent.Proofs.Edit.Relocation

/-!
The text that edits come to, read off by kind of edit. Where nothing is
overwritten a character is written unless a removal covers it, after the texts
that are inserted in front of it.
-/

namespace TypedComponent

/-- A text without the characters that begin in one of the spans. -/
def Text.without (text : Text) (spans : List Span) : Text :=
  ((Text.cells text).filter fun cell => !spans.any (·.contains cell.offset)).map Cell.char

/-- The texts that go to an offset. -/
def textsAt (placed : List (Nat × Text)) (offset : Nat) : Text :=
  (placed.filter (·.1 = offset)).flatMap Prod.snd

/-- A text with spans cut out and texts put in front of what begins at their
offsets, or at the end. -/
def Text.spliced (text : Text) (spans : List Span) (placed : List (Nat × Text)) : Text :=
  ((Text.cells text).flatMap fun cell =>
      textsAt placed cell.offset ++
        if spans.any (·.contains cell.offset) then [] else [cell.char]) ++
    textsAt placed (Text.bytes text)

/-- The characters of a text with spans cut out and texts put in front of what
begins at their offsets. What goes to the end is left out. -/
def Text.splicedChars (text : Text) (spans : List Span) (placed : List (Nat × Text)) : Text :=
  (Text.cells text).flatMap fun cell =>
    textsAt placed cell.offset ++
      if spans.any (·.contains cell.offset) then [] else [cell.char]

theorem Text.spliced_eq (text : Text) (spans : List Span) (placed : List (Nat × Text)) :
    Text.spliced text spans placed =
      Text.splicedChars text spans placed ++ textsAt placed (Text.bytes text) := rfl

theorem textsAt_eq_nil {placed : List (Nat × Text)} {offset : Nat}
    (h : ∀ found ∈ placed, found.1 ≠ offset) : textsAt placed offset = [] := by
  have hnone : placed.filter (·.1 = offset) = [] := by
    rw [List.filter_eq_nil_iff]
    intro found hfound
    simpa using h found hfound
  rw [textsAt, hnone, List.flatMap_nil]

theorem textsAt_append (front rest : List (Nat × Text)) (offset : Nat) :
    textsAt (front ++ rest) offset = textsAt front offset ++ textsAt rest offset := by
  unfold textsAt
  rw [List.filter_append, List.flatMap_append]

theorem textsAt_shifted (placed : List (Nat × Text)) (offset start : Nat) :
    textsAt (placed.map fun found => (found.1 + start, found.2)) (offset + start) =
      textsAt placed offset := by
  unfold textsAt
  rw [List.filter_map, List.flatMap_map]
  congr 2
  funext found
  simp

theorem Text.cellsFrom_eq_map (start : Nat) (text : Text) :
    Text.cellsFrom start text =
      (Text.cells text).map fun cell => ⟨cell.offset + start, cell.char⟩ := by
  have hshift (offset : Nat) : Text.cellsFrom (offset + start) text =
      (Text.cellsFrom offset text).map fun cell => ⟨cell.offset + start, cell.char⟩ := by
    induction text generalizing offset with
    | nil => rfl
    | cons c rest ih =>
      have hnext : offset + start + c.utf8Size = offset + c.utf8Size + start := by omega
      rw [Text.cellsFrom, Text.cellsFrom, hnext, ih, List.map_cons]
  have hzero := hshift 0
  rwa [Nat.zero_add] at hzero

theorem flatMap_ite_eq_filter (p : Cell → Bool) (cells : List Cell) :
    (cells.flatMap fun cell => if p cell then [] else [cell.char]) =
      (cells.filter fun cell => !p cell).map Cell.char := by
  induction cells with
  | nil => rfl
  | cons cell rest ih =>
    rw [List.flatMap_cons, ih, List.filter_cons]
    cases p cell <;> rfl

namespace Edit

def removed? : Edit → Option Span
  | remove range => some range
  | _ => none

theorem mem_removed {edits : List Edit} {range : Span} :
    range ∈ edits.filterMap removed? ↔ .remove range ∈ edits := by
  rw [List.mem_filterMap]
  constructor
  · rintro ⟨edit, hedit, hremoved⟩
    cases edit with
    | remove other =>
      cases hremoved
      exact hedit
    | _ => cases hremoved
  · exact fun hedit => ⟨_, hedit, rfl⟩

/-- What an edit puts in front of the character at an offset. -/
def placed? : Edit → Option (Nat × Text)
  | insertBefore offset text => some (offset, text)
  | _ => none

/-- An edit inserts nothing that stays with the character before it. -/
def InsertsAhead : Edit → Prop
  | insertAfter _ _ => False
  | _ => True

/-- An edit cuts something out, or puts a text in front of what follows. -/
def Splices : Edit → Prop
  | remove _ | insertBefore _ _ => True
  | _ => False

end Edit

namespace Cellwise

variable {edits : List Edit}

theorem any_removes (edits : List Edit) (offset : Nat) :
    edits.any (Edit.removes offset) =
      (edits.filterMap Edit.removed?).any (·.contains offset) := by
  induction edits with
  | nil => rfl
  | cons edit rest ih =>
    rw [List.any_cons, ih]
    cases edit <;> rfl

theorem inserted_before_text (edits : List Edit) (offset : Nat) :
    (inserted edits .before offset).flatMap Piece.text =
      textsAt (edits.filterMap Edit.placed?) offset := by
  induction edits with
  | nil => rfl
  | cons edit rest ih =>
    have hother (hinserted : edit.inserted? .before offset = none)
        (hplaced : edit.placed? = none) :
        (inserted (edit :: rest) .before offset).flatMap Piece.text =
          textsAt ((edit :: rest).filterMap Edit.placed?) offset := by
      rw [inserted, List.filterMap_cons_none hinserted, List.filterMap_cons_none hplaced]
      exact ih
    cases edit with
    | insertBefore place text =>
      have hplaced : (Edit.insertBefore place text).placed? = some (place, text) := rfl
      rw [inserted, List.filterMap_cons_some hplaced, textsAt]
      by_cases hhere : place = offset
      · have hinserted : (Edit.insertBefore place text).inserted? .before offset = some text := by
          simp [Edit.inserted?, hhere]
        rw [List.filterMap_cons_some hinserted, List.filter_cons_of_pos (by simpa using hhere),
          List.map_cons, List.flatMap_cons, List.flatMap_cons]
        exact congrArg (text ++ ·) ih
      · have hinserted : (Edit.insertBefore place text).inserted? .before offset = none := by
          simp [Edit.inserted?, hhere]
        rw [List.filterMap_cons_none hinserted, List.filter_cons_of_neg (by simpa using hhere)]
        exact ih
    | insertAfter place text => exact hother (by simp [Edit.inserted?]) rfl
    | _ => exact hother rfl rfl

theorem inserted_after (hahead : ∀ edit ∈ edits, edit.InsertsAhead) (offset : Nat) :
    inserted edits .after offset = [] := by
  have hnone : edits.filterMap (Edit.inserted? .after offset) = [] := by
    rw [List.filterMap_eq_nil_iff]
    intro edit hedit
    have hkind := hahead edit hedit
    cases edit with
    | insertBefore place text => simp [Edit.inserted?]
    | insertAfter place text => exact hkind.elim
    | _ => rfl
  rw [inserted, hnone, List.map_nil]

theorem content_text {cell : Cell}
    (hover : ∀ range text, .overwrite range text ∈ edits → range.contains cell.offset = false) :
    (content edits cell).flatMap Piece.text =
      if (edits.filterMap Edit.removed?).any (·.contains cell.offset) then []
      else [cell.char] := by
  have hnone : edits.findSome? (Edit.overwritten? cell.offset) = none := by
    rw [List.findSome?_eq_none_iff]
    intro edit hedit
    cases edit with
    | overwrite range text => simp [Edit.overwritten?, hover range text hedit]
    | _ => rfl
  rw [content, hnone, any_removes]
  split <;> rfl

theorem held_text {cell : Cell} (hahead : ∀ edit ∈ edits, edit.InsertsAhead)
    (hover : ∀ range text, .overwrite range text ∈ edits → range.contains cell.offset = false) :
    (held edits cell).flatMap Piece.text =
      textsAt (edits.filterMap Edit.placed?) cell.offset ++
        if (edits.filterMap Edit.removed?).any (·.contains cell.offset) then []
        else [cell.char] := by
  rw [held, inserted_after hahead, List.append_nil, List.flatMap_append,
    inserted_before_text, content_text hover]

/-- Cells where nothing is inserted or overwritten are written without those
that are removed. -/
theorem held_without {cells : List Cell} (hahead : ∀ edit ∈ edits, edit.InsertsAhead)
    (hplaced : ∀ cell ∈ cells, ∀ found ∈ edits.filterMap Edit.placed?, found.1 ≠ cell.offset)
    (hover : ∀ cell ∈ cells, ∀ range text, .overwrite range text ∈ edits →
      range.contains cell.offset = false) :
    (cells.flatMap (held edits)).flatMap Piece.text =
      (cells.filter fun cell =>
        !(edits.filterMap Edit.removed?).any (·.contains cell.offset)).map Cell.char := by
  rw [List.flatMap_assoc, ← flatMap_ite_eq_filter]
  apply List.flatMap_congr
  intro cell hcell
  rw [held_text hahead (hover cell hcell), textsAt_eq_nil (hplaced cell hcell), List.nil_append]

/-- Edits that only cut and put texts in front of what follows. -/
theorem spliced_text (source : Text) (hsplices : ∀ edit ∈ edits, edit.Splices) :
    (pieces source edits).flatMap Piece.text =
      Text.spliced source (edits.filterMap Edit.removed?) (edits.filterMap Edit.placed?) := by
  have hahead : ∀ edit ∈ edits, edit.InsertsAhead := by
    intro edit hedit
    have hkind := hsplices edit hedit
    cases edit with
    | insertAfter => exact hkind.elim
    | _ => exact True.intro
  have hover (range : Span) (text : Text) : .overwrite range text ∉ edits :=
    fun hedit => hsplices _ hedit
  have hothers : ∀ edit ∈ edits, edit.relocation? = none ∧ edit.prepended? = none ∧
      edit.appended? = none := by
    intro edit hedit
    have hkind := hsplices edit hedit
    cases edit with
    | remove | insertBefore => exact ⟨rfl, rfl, rfl⟩
    | insertAfter | overwrite | move | prepend | append => exact hkind.elim
  have horder : order source edits = Text.cells source := by
    rw [order, List.filterMap_eq_nil_iff.mpr fun edit hedit => (hothers edit hedit).1,
      List.foldl_nil]
  have hintro : intro edits = [] := by
    rw [intro, List.filterMap_eq_nil_iff.mpr fun edit hedit => (hothers edit hedit).2.1]
    rfl
  have houtro : outro edits = [] := by
    rw [outro, List.filterMap_eq_nil_iff.mpr fun edit hedit => (hothers edit hedit).2.2]
    rfl
  have hheld : ((Text.cells source).flatMap (held edits)).flatMap Piece.text =
      (Text.cells source).flatMap fun cell =>
        textsAt (edits.filterMap Edit.placed?) cell.offset ++
          if (edits.filterMap Edit.removed?).any (·.contains cell.offset) then []
          else [cell.char] := by
    rw [List.flatMap_assoc]
    apply List.flatMap_congr
    intro cell _
    exact held_text hahead fun range text hedit => absurd hedit (hover range text)
  rw [pieces, horder, hintro, houtro, inserted_after hahead, Text.spliced, ← hheld,
    ← inserted_before_text]
  simp [Piece.text]

/-- A text placed at the start comes first, also in front of an empty source. -/
theorem held_placed_first (source : Text) {text : Text}
    (hahead : ∀ edit ∈ edits, edit.InsertsAhead)
    (hplaced : edits.filterMap Edit.placed? = [(0, text)])
    (hover : ∀ range text, .overwrite range text ∉ edits) :
    ((Text.cells source).flatMap (held edits)).flatMap Piece.text ++
        textsAt [(0, text)] (Text.bytes source) =
      text ++ Text.without source (edits.filterMap Edit.removed?) := by
  have hfirst : textsAt [(0, text)] 0 = text := by simp [textsAt]
  cases source with
  | nil =>
    rw [Text.bytes_nil, hfirst]
    simp [Text.cells, Text.without]
  | cons c rest =>
    have hpos := c.utf8Size_pos
    have hend : textsAt [(0, text)] (Text.bytes (c :: rest)) = [] := by
      apply textsAt_eq_nil
      intro found hfound
      rw [List.mem_singleton.mp hfound, Text.bytes_cons]
      dsimp only
      omega
    have hlater : ∀ cell ∈ Text.cellsFrom (0 + c.utf8Size) rest,
        ∀ found ∈ edits.filterMap Edit.placed?, found.1 ≠ cell.offset := by
      intro cell hcell found hfound
      have hgt := Text.offset_gt_of_mem_cellsFrom hcell
      rw [hplaced] at hfound
      rw [List.mem_singleton.mp hfound]
      exact Nat.ne_of_lt hgt
    rw [Text.without, Text.cells, Text.cellsFrom, List.flatMap_cons, List.flatMap_append,
      held_without hahead hlater fun _ _ range text hedit => absurd hedit (hover range text),
      held_text hahead fun range text hedit => absurd hedit (hover range text), hplaced, hfirst,
      hend, List.append_nil, List.filter_cons, List.append_assoc]
    cases (edits.filterMap Edit.removed?).any (·.contains 0) <;> rfl

/-- Moving a span to the front puts its cells before all others. -/
theorem relocate_front {source : Text} {span : Span}
    (hstart : Text.isBoundary source span.start = true)
    (hstop : Text.isBoundary source span.stop = true) (hle : span.start ≤ span.stop)
    (hpos : 0 < span.start) :
    relocate (Text.cells source) ⟨span, 0⟩ =
      Text.cellsIn source span ++ (Text.cellsIn source ⟨0, span.start⟩ ++
        Text.cellsIn source ⟨span.stop, Text.bytes source⟩) := by
  have hzero := Text.isBoundary_zero source
  have hbytes := Text.isBoundary_bytes source
  have hlength := Text.le_bytes_of_isBoundary hstop
  have hcells := Text.cells_around hstart hstop hle
  have hinside : ∀ cell ∈ Text.cellsIn source span, span.contains cell.offset = true :=
    fun _ hcell => Text.contains_of_mem_cellsIn hstart hstop hle hcell
  have houtside (other : Span) (hplace : Text.isBoundary source other.start = true)
      (hend : Text.isBoundary source other.stop = true) (hother : other.start ≤ other.stop)
      (happart : other.Apart span) :
      ∀ cell ∈ Text.cellsIn source other, span.contains cell.offset = false :=
    fun _ hcell =>
      happart.contains_eq_false (Text.contains_of_mem_cellsIn hplace hend hother hcell)
  have hahead := houtside ⟨0, span.start⟩ hzero hstart (Nat.zero_le _)
    (.inl (Nat.le_refl _))
  have hbehind := houtside ⟨span.stop, Text.bytes source⟩ hstop hbytes hlength
    (.inr (Nat.le_refl _))
  have hmoved : (Text.cells source).filter (span.contains ·.offset) = Text.cellsIn source span := by
    rw [hcells, List.filter_append, List.filter_append, List.filter_eq_self.mpr hinside,
      List.filter_eq_nil_iff.mpr fun cell hcell => by simp [hahead cell hcell],
      List.filter_eq_nil_iff.mpr fun cell hcell => by simp [hbehind cell hcell],
      List.nil_append, List.append_nil]
  have hothers : (Text.cells source).filter (!span.contains ·.offset) =
      Text.cellsIn source ⟨0, span.start⟩ ++
        Text.cellsIn source ⟨span.stop, Text.bytes source⟩ := by
    rw [hcells, List.filter_append, List.filter_append,
      List.filter_eq_self.mpr fun cell hcell => by simp [hahead cell hcell],
      List.filter_eq_nil_iff.mpr fun cell hcell => by simp [hinside cell hcell],
      List.filter_eq_self.mpr fun cell hcell => by simp [hbehind cell hcell], List.nil_append]
  -- The span begins further on, so that the first character stays where it is.
  obtain ⟨c, rest, hslice, -⟩ :
      ∃ c rest, Text.slice source ⟨0, span.start⟩ = c :: rest ∧
        0 + Text.bytes (c :: rest) = span.start := Text.exists_first hzero hstart hpos
  have hfirst : Text.cellsIn source ⟨0, span.start⟩ =
      ⟨0, c⟩ :: Text.cellsFrom (0 + c.utf8Size) rest := by
    rw [Text.cellsIn, hslice]
    rfl
  simp only [relocate]
  rw [hmoved, hothers, hfirst, List.cons_append, List.takeWhile_cons_of_neg (by simp),
    List.dropWhile_cons_of_neg (by simp), List.nil_append]

end Cellwise

end TypedComponent
