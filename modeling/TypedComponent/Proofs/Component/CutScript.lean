import TypedComponent.Proofs.Component.Acceptance

/-!
The text of a script whose exports are cut out. Every statement is left as it is
behind the word that exported it, a clause is left out, and what stands between
statements stays.
-/

namespace TypedComponent

open Script (Statement)

namespace Text

theorem map_char_cellsFrom (offset : Nat) (text : Text) :
    (cellsFrom offset text).map Cell.char = text := by
  induction text generalizing offset with
  | nil => rfl
  | cons c rest ih => rw [cellsFrom, List.map_cons, ih]

theorem map_char_cellsIn (text : Text) (span : Span) :
    (cellsIn text span).map Cell.char = slice text span :=
  map_char_cellsFrom _ _

theorem offset_of_mem_cellsIn {text : Text} {first last : Nat} {cell : Cell}
    (hfirst : isBoundary text first = true) (hlast : isBoundary text last = true)
    (hle : first ≤ last) (h : cell ∈ cellsIn text ⟨first, last⟩) :
    first ≤ cell.offset ∧ cell.offset < last := by
  have hspan : (⟨first, last⟩ : Span).contains cell.offset = true :=
    contains_of_mem_cellsIn hfirst hlast hle h
  exact (Span.contains_iff _ _).mp hspan

/-- A stretch that no span reaches into is kept as a whole. -/
theorem filter_kept {text : Text} {stretch : Span} {spans : List Span}
    (h : ∀ cell ∈ cellsIn text stretch, spans.any (·.contains cell.offset) = false) :
    ((cellsIn text stretch).filter fun cell => !spans.any (·.contains cell.offset)).map Cell.char =
      slice text stretch := by
  rw [List.filter_eq_self.mpr fun cell hcell => by rw [h cell hcell]; rfl, map_char_cellsIn]

end Text

namespace Cellwise

/-- Edits that only remove leave the text without what they remove. -/
theorem removed_text (source : Text) (ranges : List Span) :
    (pieces source (ranges.map Edit.remove)).flatMap Piece.text = Text.without source ranges := by
  have hsplices : ∀ edit ∈ ranges.map Edit.remove, edit.Splices :=
    List.forall_mem_map.mpr fun _ _ => True.intro
  have hplaced : (ranges.map Edit.remove).filterMap Edit.placed? = [] := by
    simp [List.filterMap_map, Function.comp_def, Edit.placed?]
  have hremoved : (ranges.map Edit.remove).filterMap Edit.removed? = ranges := by
    simp [List.filterMap_map, Function.comp_def, Edit.removed?]
  rw [spliced_text source hsplices, hplaced, hremoved, Text.without, ← flatMap_ite_eq_filter]
  simp [Text.spliced, textsAt]

end Cellwise

namespace Component

/-- Where a statement begins without what made it an export. -/
def bodyStart (statement : Statement) : Nat :=
  match exportPart? statement with
  | some part => part.stop
  | none => statement.span.start

/-- A script from an offset on, with its statements as they are without what made
them exports, and everything that stands between them. -/
def unexported (content : Text) (offset : Nat) : List Statement → Text
  | [] => Text.slice content ⟨offset, Text.bytes content⟩
  | statement :: rest =>
    Text.slice content ⟨offset, statement.span.start⟩ ++
      Text.slice content ⟨bodyStart statement, statement.span.stop⟩ ++
        unexported content statement.span.stop rest

section Body

variable {content : Text} {statement : Statement} {rest : List Statement}
  (h : LaidOut content (statement :: rest))

include h

theorem bodyStart_place :
    Text.isBoundary content (bodyStart statement) = true ∧
      statement.span.start ≤ bodyStart statement ∧ bodyStart statement ≤ statement.span.stop := by
  have hspan := h.liesIn statement List.mem_cons_self
  unfold bodyStart
  cases hpart : exportPart? statement with
  | none => exact ⟨hspan.start_place, Nat.le_refl _, hspan.start_le⟩
  | some part =>
    have hlies := h.part_liesIn statement List.mem_cons_self part hpart
    have hstart := h.part_start statement List.mem_cons_self part hpart
    have hstop := h.part_stop statement List.mem_cons_self part hpart
    exact ⟨hlies.stop_place, by rw [← hstart]; exact hlies.start_le, hstop⟩

/-- What is cut out of the statements from one on is in front of its body, or
behind it. -/
theorem any_exportPart? (offset : Nat) :
    ((statement :: rest).filterMap exportPart?).any (·.contains offset) =
      (decide (statement.span.start ≤ offset ∧ offset < bodyStart statement) ||
        (rest.filterMap exportPart?).any (·.contains offset)) := by
  rw [List.filterMap_cons]
  unfold bodyStart
  cases hpart : exportPart? statement with
  | none =>
    have hnone : decide (statement.span.start ≤ offset ∧ offset < statement.span.start) = false := by
      rw [decide_eq_false_iff_not]
      omega
    rw [hnone, Bool.false_or]
  | some part =>
    have hstart := h.part_start statement List.mem_cons_self part hpart
    rw [List.any_cons, Bool.eq_iff_iff, Bool.or_eq_true, Bool.or_eq_true, Span.contains_iff,
      decide_eq_true_iff, hstart]

/-- The parts of later statements are behind this one. -/
theorem rest_any_eq_false {offset : Nat} (hoffset : offset < statement.span.stop) :
    (rest.filterMap exportPart?).any (·.contains offset) = false := by
  rw [List.any_eq_false]
  intro part hpart
  obtain ⟨other, hother, hcut⟩ := List.mem_filterMap.mp hpart
  have hbefore := List.rel_of_pairwise_cons h.ordered hother
  have hstart := h.part_start other (List.mem_cons_of_mem _ hother) part hcut
  rw [Span.contains_iff]
  omega

theorem any_before {offset : Nat} (hoffset : offset < statement.span.start) :
    ((statement :: rest).filterMap exportPart?).any (·.contains offset) = false := by
  have hle := (h.liesIn statement List.mem_cons_self).start_le
  rw [any_exportPart? h, rest_any_eq_false h (by omega), Bool.or_false, decide_eq_false_iff_not]
  omega

theorem any_cut {offset : Nat} (hstart : statement.span.start ≤ offset)
    (hbody : offset < bodyStart statement) :
    ((statement :: rest).filterMap exportPart?).any (·.contains offset) = true := by
  rw [any_exportPart? h, Bool.or_eq_true, decide_eq_true_iff]
  exact .inl ⟨hstart, hbody⟩

theorem any_body {offset : Nat} (hbody : bodyStart statement ≤ offset)
    (hstop : offset < statement.span.stop) :
    ((statement :: rest).filterMap exportPart?).any (·.contains offset) = false := by
  rw [any_exportPart? h, rest_any_eq_false h hstop, Bool.or_false, decide_eq_false_iff_not]
  omega

theorem any_behind {offset : Nat} (hbehind : statement.span.stop ≤ offset) :
    ((statement :: rest).filterMap exportPart?).any (·.contains offset) =
      (rest.filterMap exportPart?).any (·.contains offset) := by
  have hbody := (bodyStart_place h).2.2
  have hnot : decide (statement.span.start ≤ offset ∧ offset < bodyStart statement) = false := by
    rw [decide_eq_false_iff_not]
    omega
  rw [any_exportPart? h, hnot, Bool.false_or]

/-- What is left of a statement is its body. -/
theorem filter_statement :
    ((Text.cellsIn content ⟨statement.span.start, statement.span.stop⟩).filter fun cell =>
      !((statement :: rest).filterMap exportPart?).any (·.contains cell.offset)).map Cell.char =
        Text.slice content ⟨bodyStart statement, statement.span.stop⟩ := by
  obtain ⟨hplace, hstart, hstop⟩ := bodyStart_place h
  have hspan := h.liesIn statement List.mem_cons_self
  have hcut : (Text.cellsIn content ⟨statement.span.start, bodyStart statement⟩).filter
      (fun cell => !((statement :: rest).filterMap exportPart?).any (·.contains cell.offset)) =
        [] := by
    rw [List.filter_eq_nil_iff]
    intro cell hcell
    obtain ⟨hfrom, hupto⟩ := Text.offset_of_mem_cellsIn hspan.start_place hplace hstart hcell
    simp [any_cut h hfrom hupto]
  have hbody := Text.filter_kept fun cell hcell =>
    have hbounds := Text.offset_of_mem_cellsIn hplace hspan.stop_place hstop hcell
    any_body h hbounds.1 hbounds.2
  rw [← Text.cellsIn_append hspan.start_place hplace hspan.stop_place hstart hstop,
    List.filter_append, hcut, List.nil_append, hbody]

end Body

/-- Leaving out the parts of all statements leaves each of them its body. -/
theorem filter_exportPart? {content : Text} {statements : List Statement}
    (h : LaidOut content statements) {offset : Nat} (hplace : Text.isBoundary content offset = true)
    (hoffset : ∀ s ∈ statements, offset ≤ s.span.start) :
    ((Text.cellsIn content ⟨offset, Text.bytes content⟩).filter fun cell =>
      !(statements.filterMap exportPart?).any (·.contains cell.offset)).map Cell.char =
        unexported content offset statements := by
  induction statements generalizing offset with
  | nil => exact Text.filter_kept fun _ _ => rfl
  | cons statement rest ih =>
    have hspan := h.liesIn statement List.mem_cons_self
    have hle := hspan.start_le
    have hbefore := hoffset statement List.mem_cons_self
    have hlast := Text.le_bytes_of_isBoundary hspan.stop_place
    have hend := Text.isBoundary_bytes content
    have hrest := ih (h.sublist (List.sublist_cons_self _ _)) hspan.stop_place
      fun s hs => List.rel_of_pairwise_cons h.ordered hs
    have hfront := Text.filter_kept fun cell hcell => any_before h
      (Text.offset_of_mem_cellsIn hplace hspan.start_place hbefore hcell).2
    have hbehind : (Text.cellsIn content ⟨statement.span.stop, Text.bytes content⟩).filter
        (fun cell => !((statement :: rest).filterMap exportPart?).any (·.contains cell.offset)) =
          (Text.cellsIn content ⟨statement.span.stop, Text.bytes content⟩).filter
            fun cell => !(rest.filterMap exportPart?).any (·.contains cell.offset) :=
      List.filter_congr fun cell hcell => congrArg (!·) (any_behind h
        (Text.offset_of_mem_cellsIn hspan.stop_place hend hlast hcell).1)
    rw [← Text.cellsIn_append hplace hspan.start_place hend hbefore (by omega),
      ← Text.cellsIn_append hspan.start_place hspan.stop_place hend hspan.start_le hlast,
      List.filter_append, List.filter_append, List.map_append, List.map_append, hfront,
      filter_statement h, hbehind, hrest, unexported, List.append_assoc]

/-- The text that is left when the exports are cut out of a script of its own. -/
theorem cutExports_text {content : Text} {statements : List Statement} {buffer : EditBuffer}
    {surface : Surface} (hlaid : LaidOut content statements)
    (hcut : cutExports (.ofText content) statements 0 = (buffer, .ok surface)) :
    buffer.finish.code = unexported content 0 statements := by
  obtain ⟨hrecords, -⟩ := cutExports_records (EditBuffer.ofText_records content) hcut
  have hedits : [] ++ exportCuts 0 statements =
      (statements.filterMap exportPart?).map Edit.remove := rfl
  rw [hedits] at hrecords
  have hcode : buffer.finish.code = _ := hrecords.pieces_agree.text
  rw [hcode, Cellwise.removed_text, Text.without, ← Text.cellsIn_whole]
  exact filter_exportPart? hlaid (Text.isBoundary_zero content) fun _ _ => Nat.zero_le _

end Component

end TypedComponent
