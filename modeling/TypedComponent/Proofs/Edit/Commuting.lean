import Mathlib.Data.List.Sort
import TypedComponent.Proofs.Edit.Harmony
import TypedComponent.Proofs.Edit.Relocation

/-!
Accepted edits in another order. What a removal leaves in a buffer depends on
the removals before it, since one can absorb others; what they leave together
does not, for they end as the largest of the removed ranges. So the replaced
ranges are the same in every order, the cuts are the same, and what is written
depends on the order of calls only among moves, among texts put in front,
among texts put behind and among insertions at one side of one offset.
-/

namespace TypedComponent

namespace Edit

/-- The same edits in an order that keeps the moves, the texts in front, the
texts behind, and the insertions at one side of one offset in line. A move that
goes nowhere may stand anywhere. -/
structure Reordered (first second : List Edit) : Prop where
  perm : first.Perm second
  moves : first.filterMap relocation? = second.filterMap relocation?
  prepended : first.filterMap prepended? = second.filterMap prepended?
  appended : first.filterMap appended? = second.filterMap appended?
  inserted : ∀ side offset,
    first.filterMap (inserted? side offset) = second.filterMap (inserted? side offset)

end Edit

namespace EditBuffer

variable {source : Text} {edits : List Edit} {buffer next : EditBuffer}

/-- Every range that edits remove lies in one that the buffer leaves out. -/
def LeavesOut (edits : List Edit) (buffer : EditBuffer) : Prop :=
  ∀ range, Edit.remove range ∈ edits → range.start < range.stop →
    ∃ r ∈ buffer.replacements, r.text = none ∧ r.range.containsSpan range = true

theorem LeavesOut.of_replacements (h : buffer.LeavesOut edits) {edit : Edit}
    (hkept : ∀ r ∈ buffer.replacements, r ∈ next.replacements)
    (hedit : ∀ range, edit ≠ .remove range) : next.LeavesOut (edits ++ [edit]) := by
  intro range hrange hlt
  rcases List.mem_append.mp hrange with hold | hnew
  · obtain ⟨r, hr, hnone, hin⟩ := h range hold hlt
    exact ⟨r, hkept r hr, hnone, hin⟩
  · exact absurd (List.mem_singleton.mp hnew).symm (hedit range)

/-- A removal that is absorbed lies in the removal that absorbs it. -/
theorem remove_leavesOut {range : Span} (h : buffer.LeavesOut edits)
    (hok : buffer.remove range = .ok next) : next.LeavesOut (edits ++ [.remove range]) := by
  intro other hother hlt
  obtain ⟨-, -, -, ⟨rfl, hcovered⟩ | ⟨-, rfl, habsorbed, -⟩⟩ := remove_ok hok
  · rcases List.mem_append.mp hother with hold | hnew
    · exact h other hold hlt
    · cases List.mem_singleton.mp hnew
      rcases hcovered with hempty | hcovered
      · omega
      · exact hcovered
  · have hnewest : (⟨range, none⟩ : Replacement) ∈
        (buffer.replacements.filter fun r => !r.range.overlaps range) ++ [⟨range, none⟩] := by
      simp
    rcases List.mem_append.mp hother with hold | hnew
    · obtain ⟨r, hr, hnone, hin⟩ := h other hold hlt
      by_cases hmeets : r.range.overlaps range = true
      · have hinside := (habsorbed r hr hmeets).2
        rw [Span.containsSpan_iff] at hin hinside
        refine ⟨_, hnewest, rfl, ?_⟩
        rw [Span.containsSpan_iff]
        dsimp only
        omega
      · exact ⟨r, List.mem_append_left _ (List.mem_filter.mpr ⟨hr, by simpa using hmeets⟩),
          hnone, hin⟩
    · cases List.mem_singleton.mp hnew
      exact ⟨_, hnewest, rfl, (Span.containsSpan_iff _ _).mpr ⟨Nat.le_refl _, Nat.le_refl _⟩⟩

theorem apply_leavesOut {edit : Edit} (h : buffer.LeavesOut edits)
    (hok : buffer.apply edit = .ok next) : next.LeavesOut (edits ++ [edit]) := by
  cases edit with
  | insertBefore offset text =>
    obtain ⟨-, -, rfl⟩ := insert_ok.mp hok
    refine h.of_replacements (fun r hr => ?_) (fun range => nofun)
    split <;> exact hr
  | insertAfter offset text =>
    obtain ⟨-, -, rfl⟩ := insert_ok.mp hok
    refine h.of_replacements (fun r hr => ?_) (fun range => nofun)
    split <;> exact hr
  | remove range => exact remove_leavesOut h hok
  | overwrite range text =>
    obtain ⟨-, -, -, -, -, -, -, rfl⟩ := overwrite_ok.mp hok
    exact h.of_replacements (fun r hr => List.mem_append_left _ hr) (fun range => nofun)
  | move range destination =>
    obtain ⟨-, -, -, -, ⟨-, rfl⟩ | ⟨-, -, -, -, rfl⟩⟩ := moveRange_ok.mp hok <;>
      exact h.of_replacements (fun r hr => hr) (fun range => nofun)
  | prepend text =>
    cases hok
    exact h.of_replacements (fun r hr => hr) (fun range => nofun)
  | append text =>
    cases hok
    exact h.of_replacements (fun r hr => hr) (fun range => nofun)

/-- Everything that a buffer tells of the edits it has accepted. -/
structure Keeps (source : Text) (edits : List Edit) (buffer : EditBuffer) : Prop where
  records : buffer.Records source edits
  removesOnly : buffer.RemovesOnly edits
  leavesOut : buffer.LeavesOut edits

theorem applyAll_keeps {last : EditBuffer} (hok : (ofText source).applyAll edits = .ok last) :
    last.Keeps source edits := by
  have hstart : (ofText source).Keeps source [] :=
    ⟨ofText_records source, fun _ => nofun, fun _ => nofun⟩
  exact applyUntil_induction (P := fun edits buffer => buffer.Keeps source edits)
    (fun h hedit => ⟨apply_records h.records hedit, apply_removesOnly h.removesOnly hedit,
      apply_leavesOut h.leavesOut hedit⟩) hstart (applyUntil_of_applyAll hok)

/-- The replaced ranges of a buffer that holds the edits of another, in any
order, are replaced there too: a removal that is not absorbed here lies in one
there, and that in one here, which can only be the first. -/
theorem Keeps.replacement_mem {other : EditBuffer} {others : List Edit}
    (h : buffer.Keeps source edits) (hother : other.Keeps source others)
    (hsame : ∀ edit, edit ∈ edits ↔ edit ∈ others) {r : Replacement}
    (hr : r ∈ buffer.replacements) : r ∈ other.replacements := by
  have hconsistent := h.records.consistent
  have hlt := hconsistent.replacement_nonempty r hr
  obtain ⟨range, text⟩ := r
  cases text with
  | some text =>
    rw [hother.records.overwritten_iff, ← hsame, ← h.records.overwritten_iff]
    exact hr
  | none =>
    obtain ⟨outer, houter, hremoved, hin⟩ :=
      hother.leavesOut range ((hsame _).mp (h.removesOnly range hr)) hlt
    obtain ⟨outerRange, outerText⟩ := outer
    cases hremoved
    have houterLt := hother.records.consistent.replacement_nonempty _ houter
    obtain ⟨back, hback, -, hinBack⟩ :=
      h.leavesOut outerRange ((hsame _).mpr (hother.removesOnly outerRange houter)) houterLt
    rw [Span.containsSpan_iff] at hin hinBack
    have hstart : range.contains range.start = true :=
      (Span.contains_iff _ _).mpr ⟨Nat.le_refl _, hlt⟩
    have hstartBack : back.range.contains range.start = true :=
      (Span.contains_iff _ _).mpr (by dsimp only at hlt hin; omega)
    have heq : back = ⟨range, none⟩ := hconsistent.eq_of_contains hback hr hstartBack hstart
    subst heq
    have hrange : outerRange = range := by
      cases range
      cases outerRange
      simp only [Span.mk.injEq] at *
      omega
    rwa [hrange] at houter

/-- At most one replacement covers a segment, so it does not matter in which
order they are searched. -/
theorem Consistent.find?_eq {other : EditBuffer} (h : buffer.Consistent)
    (hsame : ∀ r, r ∈ buffer.replacements ↔ r ∈ other.replacements) {segment : Span}
    (hlt : segment.start < segment.stop) :
    buffer.replacements.find? (·.range.containsSpan segment) =
      other.replacements.find? (·.range.containsSpan segment) := by
  cases hfind : other.replacements.find? (·.range.containsSpan segment) with
  | none =>
    rw [List.find?_eq_none] at hfind ⊢
    exact fun r hr => hfind r ((hsame r).mp hr)
  | some r =>
    have hr := (hsame r).mpr (List.mem_of_find?_eq_some hfind)
    have hin := List.find?_some hfind
    have hstart {r : Replacement} (hin : r.range.containsSpan segment = true) :
        r.range.contains segment.start = true := by
      rw [Span.containsSpan_iff] at hin
      rw [Span.contains_iff]
      omega
    cases hown : buffer.replacements.find? (·.range.containsSpan segment) with
    | none => exact absurd hin (List.find?_eq_none.mp hown r hr)
    | some own =>
      have hownIn := List.find?_some hown
      rw [h.eq_of_contains (List.mem_of_find?_eq_some hown) hr (hstart hownIn) (hstart hin)]

/-- What an edit records at one side of an offset, which is nothing if it inserts
nothing. -/
theorem insertion?_text (edit : Edit) (side : Side) (offset : Nat) :
    (edit.insertion?.filter fun i => i.side = side && i.offset == offset).map (·.text) =
      (edit.inserted? side offset).filter (· ≠ []) := by
  have hone (own : Side) (place : Nat) (text : Text) :
      (((if text = [] then none else some ⟨place, own, text⟩ : Option Insertion).filter
          fun i => i.side = side && i.offset == offset).map (·.text)) =
        (if side = own ∧ place = offset then some text else none).filter (· ≠ []) := by
    by_cases htext : text = []
    · rw [if_pos htext, htext]
      split <;> rfl
    · rw [if_neg htext]
      by_cases hhere : side = own ∧ place = offset
      · obtain ⟨rfl, rfl⟩ := hhere
        simp [Option.filter, htext]
      · rw [if_neg hhere, not_and] at *
        by_cases hside : own = side
        · simp [hside, hhere hside.symm]
        · simp [hside]
  cases edit with
  | insertBefore place text => exact hone .before place text
  | insertAfter place text => exact hone .after place text
  | _ => rfl

theorem Records.insertedAt_eq (h : buffer.Records source edits) (side : Side) (offset : Nat) :
    buffer.insertedAt side offset =
      ((edits.filterMap (Edit.inserted? side offset)).filter (· ≠ [])).map .made := by
  have htexts : ((edits.filterMap Edit.insertion?).filter
      fun i => i.side = side && i.offset == offset).map (·.text) =
        (edits.filterMap (Edit.inserted? side offset)).filter (· ≠ []) := by
    rw [List.filter_filterMap, List.map_filterMap, List.filter_filterMap]
    exact List.filterMap_congr fun edit _ => insertion?_text edit side offset
  rw [insertedAt, h.insertions_eq, ← htexts, List.map_map]
  rfl

/-- Two buffers with the same records, up to an order that nothing is read off. -/
structure Alike (buffer other : EditBuffer) : Prop where
  source_eq : buffer.source = other.source
  intro_eq : buffer.intro = other.intro
  outro_eq : buffer.outro = other.outro
  insertedAt_eq : ∀ side offset, buffer.insertedAt side offset = other.insertedAt side offset
  insertion_mem : ∀ i, i ∈ buffer.insertions ↔ i ∈ other.insertions
  replacement_mem : ∀ r, r ∈ buffer.replacements ↔ r ∈ other.replacements
  moves_eq : buffer.moves = other.moves

theorem Keeps.alike {other : EditBuffer} {others : List Edit} (h : buffer.Keeps source edits)
    (hother : other.Keeps source others) (hsame : Edit.Reordered edits others) :
    buffer.Alike other where
  source_eq := h.records.source_eq.trans hother.records.source_eq.symm
  intro_eq := by
    rw [h.records.intro_eq, hother.records.intro_eq, Cellwise.intro, hsame.prepended]
    rfl
  outro_eq := by
    rw [h.records.outro_eq, hother.records.outro_eq, Cellwise.outro, hsame.appended]
    rfl
  insertedAt_eq := by
    intro side offset
    rw [h.records.insertedAt_eq, hother.records.insertedAt_eq, hsame.inserted]
  insertion_mem := by
    intro i
    rw [h.records.insertions_eq, hother.records.insertions_eq]
    exact (hsame.perm.filterMap _).mem_iff
  replacement_mem := fun r =>
    ⟨h.replacement_mem hother fun _ => hsame.perm.mem_iff,
      hother.replacement_mem h fun _ => hsame.perm.mem_iff.symm⟩
  moves_eq := by rw [h.records.moves_eq, hother.records.moves_eq, hsame.moves]

namespace Alike

variable {other : EditBuffer}

theorem length_eq (h : buffer.Alike other) : buffer.length = other.length := by
  rw [length, length, h.source_eq]

/-- The cuts are in order, so they are known by what is among them. -/
theorem cuts_eq (h : buffer.Alike other) : buffer.cuts = other.cuts := by
  apply buffer.cuts_sorted.eq_of_mem_iff other.cuts_sorted
  intro cut
  simp only [mem_cuts, h.length_eq, h.insertion_mem, h.replacement_mem, h.moves_eq]

theorem order_eq (h : buffer.Alike other) : buffer.order = other.order := by
  rw [order, order, segments, segments, h.cuts_eq, h.moves_eq]

theorem segmentPieces_eq (h : buffer.Alike other) (hconsistent : buffer.Consistent)
    {segment : Span} (hlt : segment.start < segment.stop) :
    buffer.segmentPieces segment = other.segmentPieces segment := by
  have hfind := hconsistent.find?_eq h.replacement_mem hlt
  rw [segmentPieces, segmentPieces, content, content, hfind, h.source_eq, h.insertedAt_eq,
    h.insertedAt_eq]

theorem pieces_eq (h : buffer.Alike other) (hconsistent : buffer.Consistent) :
    buffer.pieces = other.pieces := by
  have horder : buffer.order.flatMap buffer.segmentPieces =
      other.order.flatMap other.segmentPieces := by
    rw [← h.order_eq]
    apply List.flatMap_congr
    intro segment hsegment
    exact h.segmentPieces_eq hconsistent (isSegment_of_mem_order hsegment).nonempty
  rw [pieces, pieces, horder, h.intro_eq, h.outro_eq, h.insertedAt_eq, h.insertedAt_eq,
    h.length_eq]

end Alike

/-- Edits that are all accepted in two orders, which differ only where the order
does not count, come to the same text with the same map. -/
theorem finish_eq_of_reordered {source : Text} {first second : List Edit}
    {buffer other : EditBuffer} (hsame : Edit.Reordered first second)
    (hfirst : (ofText source).applyAll first = .ok buffer)
    (hsecond : (ofText source).applyAll second = .ok other) : buffer.finish = other.finish := by
  have h := applyAll_keeps hfirst
  have halike := h.alike (applyAll_keeps hsecond) hsame
  rw [finish, finish, halike.pieces_eq h.records.consistent]

/-- One removal absorbs the other or is absorbed by it, and the insertions
change places. -/
theorem finish_absorbed_either_way :
    ∃ buffer other,
      (ofText "abcdef".toList).applyAll
        [.remove ⟨1, 2⟩, .insertAfter 6 ['y'], .remove ⟨0, 3⟩, .insertBefore 4 ['x']] =
          .ok buffer ∧
      (ofText "abcdef".toList).applyAll
        [.remove ⟨0, 3⟩, .insertBefore 4 ['x'], .insertAfter 6 ['y'], .remove ⟨1, 2⟩] =
          .ok other ∧
      buffer.finish = other.finish := by
  have hsame : Edit.Reordered
      [.remove ⟨1, 2⟩, .insertAfter 6 ['y'], .remove ⟨0, 3⟩, .insertBefore 4 ['x']]
      [.remove ⟨0, 3⟩, .insertBefore 4 ['x'], .insertAfter 6 ['y'], .remove ⟨1, 2⟩] :=
    { perm := by decide
      moves := rfl
      prepended := rfl
      appended := rfl
      inserted := fun side _ => by cases side <;> rfl }
  have hfirst : (ofText "abcdef".toList).applyAll
      [.remove ⟨1, 2⟩, .insertAfter 6 ['y'], .remove ⟨0, 3⟩, .insertBefore 4 ['x']] =
        .ok ⟨"abcdef".toList, [], [], [⟨6, .after, ['y']⟩, ⟨4, .before, ['x']⟩],
          [⟨⟨0, 3⟩, none⟩], []⟩ := rfl
  have hsecond : (ofText "abcdef".toList).applyAll
      [.remove ⟨0, 3⟩, .insertBefore 4 ['x'], .insertAfter 6 ['y'], .remove ⟨1, 2⟩] =
        .ok ⟨"abcdef".toList, [], [], [⟨4, .before, ['x']⟩, ⟨6, .after, ['y']⟩],
          [⟨⟨0, 3⟩, none⟩], []⟩ := rfl
  exact ⟨_, _, hfirst, hsecond, finish_eq_of_reordered hsame hfirst hsecond⟩

end EditBuffer

end TypedComponent
