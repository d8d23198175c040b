import TypedComponent.Proofs.Edit.Commuting
import TypedComponent.Proofs.Edit.Positions

/-!
What is removed stays removed. A removal is recorded until a larger one absorbs
it, so from the call on one record covers its range. As long as it does, removing
any of the range again changes nothing, what would put text into the range is
refused, and no byte of it has a place in the edited text.
-/

namespace TypedComponent

namespace EditBuffer

variable {source : Text} {edits : List Edit} {buffer : EditBuffer} {range : Span}

theorem run_leavesOut (h : buffer.LeavesOut edits) (later : List Edit) :
    (buffer.run later).LeavesOut (edits ++ buffer.accepted later) :=
  run_induction (P := LeavesOut) apply_leavesOut h later

/-- Nothing is recorded for a range inside a removal: the records in front of
that removal lie apart from it. -/
theorem absorb?_of_covered {replacements : List Replacement} {r : Replacement}
    (happart : replacements.Pairwise fun a b => a.range.Apart b.range) (hr : r ∈ replacements)
    (hnone : r.text = none) (hcovers : r.range.containsSpan range = true)
    (hlt : range.start < range.stop) : absorb? range replacements = .ok none := by
  have hbounds := (Span.containsSpan_iff _ _).mp hcovers
  induction replacements with
  | nil => cases hr
  | cons earlier rest ih =>
    obtain ⟨hearlier, hrest⟩ := List.pairwise_cons.mp happart
    rw [absorb?]
    rcases List.mem_cons.mp hr with rfl | hlater
    · have hmeets : r.range.overlaps range = true := by
        rw [Span.overlaps_iff]
        omega
      rw [if_pos hmeets, hnone, hcovers]
      rfl
    · have hmisses : earlier.range.overlaps range = false := by
        rw [Span.overlaps_eq_false]
        have hends := hearlier r hlater
        unfold Span.Apart at hends ⊢
        omega
      rw [hmisses, ih hrest hlater]
      rfl

section Covered

variable {r : Replacement}

/-- Removing removed text changes nothing. -/
theorem Consistent.remove_covered (h : buffer.Consistent) (hr : r ∈ buffer.replacements)
    (hnone : r.text = none) (hcovers : r.range.containsSpan range = true)
    (hstart : buffer.IsPlace range.start) (hstop : buffer.IsPlace range.stop)
    (hle : range.start ≤ range.stop) : buffer.remove range = .ok buffer := by
  have hchecked : buffer.checkRange range = .ok () := checkRange_ok.mpr ⟨hstart, hstop, hle⟩
  unfold remove
  rw [hchecked]
  cases hempty : range.isEmpty with
  | true => rfl
  | false =>
    have hne : range.start ≠ range.stop := by simpa [Span.isEmpty] using hempty
    rw [absorb?_of_covered h.replacements_apart hr hnone hcovers (by omega)]
    rfl

theorem insert_refused (hr : r ∈ buffer.replacements) {offset : Nat}
    (hin : r.range.containsInner offset = true) (side : Side) (text : Text) :
    ∃ refusal, buffer.insert offset side text = .error refusal := by
  cases hok : buffer.insert offset side text with
  | error refusal => exact ⟨refusal, rfl⟩
  | ok next =>
    obtain ⟨-, houtside, -⟩ := insert_ok.mp hok
    rw [houtside r hr] at hin
    cases hin

theorem overwrite_refused (hr : r ∈ buffer.replacements)
    (hmeets : r.range.overlaps range = true) (text : Text) :
    ∃ refusal, buffer.overwrite range text = .error refusal := by
  cases hok : buffer.overwrite range text with
  | error refusal => exact ⟨refusal, rfl⟩
  | ok next =>
    obtain ⟨-, -, -, happart, -⟩ := overwrite_ok.mp hok
    rw [happart r hr] at hmeets
    cases hmeets

end Covered

/-- Once a range has been removed, whatever edits are tried later: removing any
part of it again leaves the buffer as it is, so its text and map too, inserting
strictly inside and overwriting any of it are refused, and the map has no place
for its bytes. -/
theorem remove_run (source : Text) (earlier later : List Edit) {range : Span} {next : EditBuffer}
    (hok : ((ofText source).run earlier).remove range = .ok next)
    (hlt : range.start < range.stop) :
    let buffer := next.run later
    (∀ inner : Span, range.containsSpan inner = true → inner.start ≤ inner.stop →
      Text.isBoundary source inner.start = true → Text.isBoundary source inner.stop = true →
      buffer.remove inner = .ok buffer) ∧
    (∀ offset text, range.containsInner offset = true →
      (∃ refusal, buffer.insertBefore offset text = .error refusal) ∧
        ∃ refusal, buffer.insertAfter offset text = .error refusal) ∧
    (∀ other text, other.overlaps range = true →
      ∃ refusal, buffer.overwrite other text = .error refusal) ∧
    ∀ offset, range.contains offset = true →
      buffer.finish.map.generatedPosition? offset = none := by
  intro buffer
  have hnothing : ((ofText source).run earlier).LeavesOut [] := nofun
  have hremoved : next.LeavesOut [.remove range] := remove_leavesOut hnothing hok
  have hrecords := run_records (remove_records (run_records (ofText_records source) earlier) hok)
    later
  obtain ⟨r, hr, hnone, hcovers⟩ :=
    run_leavesOut hremoved later range (List.mem_append_left _ List.mem_cons_self) hlt
  have hconsistent : buffer.Consistent := hrecords.consistent
  have hbounds := (Span.containsSpan_iff _ _).mp hcovers
  refine ⟨?_, ?_, ?_, ?_⟩
  · intro inner hinner hle hstart hstop
    have hinside := (Span.containsSpan_iff _ _).mp hinner
    rw [← hrecords.source_eq] at hstart hstop
    exact hconsistent.remove_covered hr hnone ((Span.containsSpan_iff _ _).mpr (by omega)) hstart
      hstop hle
  · intro offset text hin
    have hstrict : r.range.containsInner offset = true := by
      rw [Span.containsInner_iff] at hin ⊢
      omega
    exact ⟨insert_refused hr hstrict .before text, insert_refused hr hstrict .after text⟩
  · intro other text hmeets
    refine overwrite_refused hr ?_ text
    rw [Span.overlaps_iff] at hmeets ⊢
    omega
  · intro offset hin
    refine hconsistent.generatedPosition?_of_removed hr hnone ?_
    rw [Span.contains_iff] at hin ⊢
    omega

/-- A removal that a larger one absorbs, and that is then moved with it. -/
theorem remove_run_absorbed :
    let next : EditBuffer :=
      { ofText ['a', 'b', 'c', 'd', 'e', 'f'] with replacements := [⟨⟨1, 3⟩, none⟩] }
    let buffer := next.run [.remove ⟨0, 5⟩, .overwrite ⟨2, 4⟩ ['x'], .move ⟨0, 5⟩ 6]
    ((ofText ['a', 'b', 'c', 'd', 'e', 'f']).run []).remove ⟨1, 3⟩ = .ok next ∧ 1 < 3 ∧
      buffer.remove ⟨1, 2⟩ = .ok buffer ∧
      (∃ refusal, buffer.insertBefore 2 ['y'] = .error refusal) ∧
      (∃ refusal, buffer.overwrite ⟨0, 2⟩ ['y'] = .error refusal) ∧
      buffer.finish.map.generatedPosition? 1 = none := by
  intro next buffer
  have hok : ((ofText ['a', 'b', 'c', 'd', 'e', 'f']).run []).remove ⟨1, 3⟩ = .ok next := rfl
  obtain ⟨hagain, hinsert, hoverwrite, hplace⟩ :=
    remove_run ['a', 'b', 'c', 'd', 'e', 'f'] []
      [.remove ⟨0, 5⟩, .overwrite ⟨2, 4⟩ ['x'], .move ⟨0, 5⟩ 6] hok (by decide)
  exact ⟨hok, by decide, hagain ⟨1, 2⟩ rfl (by decide) rfl rfl, (hinsert 2 ['y'] rfl).1,
    hoverwrite ⟨0, 2⟩ ['y'] rfl, hplace 1 rfl⟩

end EditBuffer

end TypedComponent
