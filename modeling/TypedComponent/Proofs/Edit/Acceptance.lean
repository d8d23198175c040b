import TypedComponent.Edit.Buffer
import TypedComponent.Proofs.Text.Cells

/-!
When an edit is accepted, and what it then leaves in the buffer. There is one
statement for each edit, and nothing after this module opens the checks again.
-/

namespace TypedComponent

theorem Except.bind_eq_ok {ε α β : Type} {x : Except ε α} {f : α → Except ε β} {result : β} :
    (x >>= f) = .ok result ↔ ∃ a, x = .ok a ∧ f a = .ok result := by
  cases x with
  | error e => simp [bind, Except.bind]
  | ok a => simp [bind, Except.bind]

theorem Except.bind_eq_error {ε α β : Type} {x : Except ε α} {f : α → Except ε β} {error : ε} :
    (x >>= f) = .error error ↔ x = .error error ∨ ∃ a, x = .ok a ∧ f a = .error error := by
  cases x with
  | error e => simp [bind, Except.bind]
  | ok a => simp [bind, Except.bind]

theorem none_of_find? {α : Type} {p : α → Bool} {l : List α} (h : l.find? p = none) :
    ∀ a ∈ l, p a = false := by
  simpa [List.find?_eq_none] using h

theorem not_none_of_find? {α : Type} {p : α → Bool} {l : List α} {found : α}
    (h : l.find? p = some found) : ¬ ∀ a ∈ l, p a = false := by
  intro hnone
  have hp := List.find?_some h
  rw [hnone found (List.mem_of_find?_eq_some h)] at hp
  cases hp

theorem Span.containsSpan_iff (span inner : Span) :
    span.containsSpan inner = true ↔ span.start ≤ inner.start ∧ inner.stop ≤ span.stop := by
  simp [Span.containsSpan]

theorem Span.overlaps_iff (a b : Span) :
    a.overlaps b = true ↔ a.start < b.stop ∧ b.start < a.stop := by
  simp [Span.overlaps]

namespace EditBuffer

/-- Whether an offset of the source lies between characters. -/
def IsPlace (buffer : EditBuffer) (offset : Nat) : Prop :=
  Text.isBoundary buffer.source offset = true

theorem checkOffset_ok {buffer : EditBuffer} {offset : Nat} {u : Unit} :
    buffer.checkOffset offset = .ok u ↔ buffer.IsPlace offset := by
  unfold checkOffset IsPlace length
  by_cases hbound : Text.bytes buffer.source < offset
  · rw [if_pos hbound]
    constructor
    · intro h
      cases h
    · intro h
      have hle := Text.le_bytes_of_isBoundary h
      omega
  · rw [if_neg hbound]
    by_cases hplace : Text.isBoundary buffer.source offset = true <;> simp [hplace]

theorem checkRange_ok {buffer : EditBuffer} {range : Span} {u : Unit} :
    buffer.checkRange range = .ok u ↔
      buffer.IsPlace range.start ∧ buffer.IsPlace range.stop ∧ range.start ≤ range.stop := by
  simp only [checkRange, Except.bind_eq_ok, checkOffset_ok, exists_const]
  by_cases hlt : range.stop < range.start
  · rw [if_pos hlt]
    simp only [reduceCtorEq, and_false, false_iff]
    omega
  · rw [if_neg hlt]
    simp only [and_true]
    constructor
    · rintro ⟨hstart, hstop⟩
      exact ⟨hstart, hstop, by omega⟩
    · rintro ⟨hstart, hstop, -⟩
      exact ⟨hstart, hstop⟩

theorem checkNothingInside_ok {buffer : EditBuffer} {range : Span} {u : Unit} :
    buffer.checkNothingInside range = .ok u ↔
      (∀ i ∈ buffer.insertions, range.containsInner i.offset = false) ∧
        ∀ m ∈ buffer.moves, range.containsInner m.destination = false := by
  unfold checkNothingInside
  cases hi : buffer.insertions.find? (range.containsInner ·.offset) with
  | some insertion => simp [not_none_of_find? hi]
  | none =>
    have hinsertions := none_of_find? hi
    cases hm : buffer.moves.find? (range.containsInner ·.destination) with
    | some move => simp [not_none_of_find? hm]
    | none => exact ⟨fun _ => ⟨hinsertions, none_of_find? hm⟩, fun _ => rfl⟩

theorem insert_ok {buffer next : EditBuffer} {offset : Nat} {side : Side} {text : Text} :
    buffer.insert offset side text = .ok next ↔
      buffer.IsPlace offset ∧
      (∀ r ∈ buffer.replacements, r.range.containsInner offset = false) ∧
      next = if text = [] then buffer
        else { buffer with insertions := buffer.insertions ++ [⟨offset, side, text⟩] } := by
  simp only [insert, Except.bind_eq_ok, checkOffset_ok, exists_const]
  refine and_congr_right fun _ => ?_
  cases hr : buffer.replacements.find? (·.range.containsInner offset) with
  | some earlier => simp [not_none_of_find? hr]
  | none =>
    have hnone := none_of_find? hr
    by_cases htext : text = []
    · simp only [if_pos htext, Except.ok.injEq]
      exact ⟨fun h => ⟨hnone, h.symm⟩, fun h => h.2.symm⟩
    · simp only [if_neg htext, Except.ok.injEq]
      exact ⟨fun h => ⟨hnone, h.symm⟩, fun h => h.2.symm⟩

/-- An earlier removal covers the range, or all that the range meets are
removals inside it, and these are absorbed. -/
theorem absorb?_ok {range : Span} {replacements : List Replacement}
    {outcome : Option (List Replacement)} (h : absorb? range replacements = .ok outcome) :
    (outcome = none ∧
      ∃ r ∈ replacements, r.text = none ∧ r.range.containsSpan range = true) ∨
    (outcome = some (replacements.filter fun r => !r.range.overlaps range) ∧
      ∀ r ∈ replacements, r.range.overlaps range = true →
        r.text = none ∧ range.containsSpan r.range = true) := by
  induction replacements generalizing outcome with
  | nil =>
    simp only [absorb?, Except.ok.injEq] at h
    exact .inr ⟨h.symm, by simp⟩
  | cons earlier rest ih =>
    simp only [absorb?] at h
    by_cases hoverlap : earlier.range.overlaps range = true
    · rw [if_pos hoverlap] at h
      by_cases hcover : (earlier.text.isNone && earlier.range.containsSpan range) = true
      · rw [if_pos hcover] at h
        rw [Bool.and_eq_true, Option.isNone_iff_eq_none] at hcover
        exact .inl ⟨by cases h; rfl, earlier, by simp, hcover⟩
      · rw [if_neg hcover] at h
        by_cases hinside : (earlier.text.isNone && range.containsSpan earlier.range) = true
        · rw [if_pos hinside] at h
          rw [Bool.and_eq_true, Option.isNone_iff_eq_none] at hinside
          rcases ih h with ⟨hnone, r, hr, hcovers⟩ | ⟨hsome, hall⟩
          · exact .inl ⟨hnone, r, by simp [hr], hcovers⟩
          · refine .inr ⟨by simp [hsome, hoverlap], ?_⟩
            intro r hr hmeets
            rcases List.mem_cons.mp hr with rfl | hrest
            · exact hinside
            · exact hall r hrest hmeets
        · rw [if_neg hinside] at h
          cases h
    · rw [if_neg hoverlap] at h
      cases hrest : absorb? range rest with
      | error e =>
        rw [hrest] at h
        cases h
      | ok kept =>
        rw [hrest] at h
        simp only [Except.map, Except.ok.injEq] at h
        subst h
        rcases ih hrest with ⟨rfl, r, hr, hcovers⟩ | ⟨rfl, hall⟩
        · exact .inl ⟨rfl, r, by simp [hr], hcovers⟩
        · refine .inr ⟨by simp [hoverlap], ?_⟩
          intro r hr hmeets
          rcases List.mem_cons.mp hr with rfl | hin
          · exact absurd hmeets hoverlap
          · exact hall r hin hmeets

/-- Removing changes nothing, if there is nothing or an earlier removal covers
the range, or it is recorded in place of the removals it absorbs. -/
theorem remove_ok {buffer next : EditBuffer} {range : Span} (h : buffer.remove range = .ok next) :
    buffer.IsPlace range.start ∧ buffer.IsPlace range.stop ∧ range.start ≤ range.stop ∧
    ((next = buffer ∧ (range.start = range.stop ∨
        ∃ r ∈ buffer.replacements, r.text = none ∧ r.range.containsSpan range = true)) ∨
      (range.start < range.stop ∧
        next = { buffer with
          replacements := (buffer.replacements.filter fun r => !r.range.overlaps range) ++
            [⟨range, none⟩] } ∧
        (∀ r ∈ buffer.replacements, r.range.overlaps range = true →
          r.text = none ∧ range.containsSpan r.range = true) ∧
        (∀ i ∈ buffer.insertions, range.containsInner i.offset = false) ∧
        (∀ m ∈ buffer.moves, range.containsInner m.destination = false) ∧
        ∀ m ∈ buffer.moves, m.range.crosses range = false)) := by
  simp only [remove, Except.bind_eq_ok, checkRange_ok, exists_const] at h
  obtain ⟨⟨hstart, hstop, hle⟩, h⟩ := h
  refine ⟨hstart, hstop, hle, ?_⟩
  by_cases hempty : range.isEmpty = true
  · rw [if_pos hempty] at h
    simp only [Span.isEmpty, beq_iff_eq] at hempty
    exact .inl ⟨by cases h; rfl, .inl hempty⟩
  · rw [if_neg hempty] at h
    simp only [Span.isEmpty, beq_iff_eq] at hempty
    obtain ⟨outcome, habsorb, h⟩ := Except.bind_eq_ok.mp h
    rcases absorb?_ok habsorb with ⟨rfl, r, hr, hcovers⟩ | ⟨rfl, hall⟩
    · exact .inl ⟨by cases h; rfl, .inr ⟨r, hr, hcovers⟩⟩
    · obtain ⟨_, hinside, h⟩ := Except.bind_eq_ok.mp h
      obtain ⟨hinsertions, hdestinations⟩ := checkNothingInside_ok.mp hinside
      cases hm : buffer.moves.find? (·.range.crosses range) with
      | some move =>
        rw [hm] at h
        cases h
      | none =>
        rw [hm] at h
        simp only [Except.ok.injEq] at h
        exact .inr ⟨by omega, h.symm, hall, hinsertions, hdestinations, none_of_find? hm⟩

theorem overwrite_ok {buffer next : EditBuffer} {range : Span} {text : Text} :
    buffer.overwrite range text = .ok next ↔
      buffer.IsPlace range.start ∧ buffer.IsPlace range.stop ∧ range.start < range.stop ∧
      (∀ r ∈ buffer.replacements, r.range.overlaps range = false) ∧
      (∀ i ∈ buffer.insertions, range.containsInner i.offset = false) ∧
      (∀ m ∈ buffer.moves, range.containsInner m.destination = false) ∧
      (∀ m ∈ buffer.moves, m.range.overlaps range = true →
        m.range.containsSpan range = true) ∧
      next = { buffer with replacements := buffer.replacements ++ [⟨range, some text⟩] } := by
  simp only [overwrite, Except.bind_eq_ok, checkRange_ok, exists_const]
  by_cases hempty : range.isEmpty = true
  · rw [if_pos hempty]
    simp only [Span.isEmpty, beq_iff_eq] at hempty
    constructor
    · rintro ⟨-, h⟩
      cases h
    · rintro ⟨-, -, hlt, -⟩
      omega
  · rw [if_neg hempty]
    simp only [Span.isEmpty, beq_iff_eq] at hempty
    cases hr : buffer.replacements.find? (·.range.overlaps range) with
    | some earlier =>
      constructor
      · rintro ⟨-, h⟩
        cases h
      · rintro ⟨-, -, -, hnone, -⟩
        exact absurd hnone (not_none_of_find? hr)
    | none =>
      simp only [Except.bind_eq_ok, checkNothingInside_ok, exists_const]
      cases hm : buffer.moves.find? fun move =>
          move.range.overlaps range && !move.range.containsSpan range with
      | some move =>
        constructor
        · rintro ⟨-, -, h⟩
          cases h
        · rintro ⟨-, -, -, -, -, -, hall, -⟩
          refine absurd ?_ (not_none_of_find? hm)
          simpa using hall
      | none =>
        have hmoves : ∀ m ∈ buffer.moves, m.range.overlaps range = true →
            m.range.containsSpan range = true := by
          simpa using none_of_find? hm
        simp only [Except.ok.injEq]
        constructor
        · rintro ⟨⟨hstart, hstop, hle⟩, ⟨hinsertions, hdestinations⟩, rfl⟩
          exact ⟨hstart, hstop, by omega, none_of_find? hr, hinsertions, hdestinations, hmoves,
            rfl⟩
        · rintro ⟨hstart, hstop, hlt, -, hinsertions, hdestinations, -, rfl⟩
          exact ⟨⟨hstart, hstop, by omega⟩, ⟨hinsertions, hdestinations⟩, rfl⟩

theorem moveConflict?_eq_none {range : Span} {destination : Nat} {earlier : Replacement} :
    moveConflict? range destination earlier = none ↔
      earlier.range.containsInner destination = false ∧
        (earlier.range.overlaps range = true → range.containsSpan earlier.range = true) := by
  unfold moveConflict?
  by_cases hinside : earlier.range.containsInner destination = true
  · simp [hinside]
  · by_cases hmeets : (earlier.range.overlaps range && !range.containsSpan earlier.range) = true
    · rw [if_neg hinside, if_pos hmeets]
      simp_all
    · rw [if_neg hinside, if_neg hmeets]
      simp_all

/-- A move to an end of its range changes nothing, and so does a move of
nothing. -/
def Stays (range : Span) (destination : Nat) : Prop :=
  range.start = range.stop ∨ destination = range.start ∨ destination = range.stop

theorem moveRange_ok {buffer next : EditBuffer} {range : Span} {destination : Nat} :
    buffer.moveRange range destination = .ok next ↔
      buffer.IsPlace range.start ∧ buffer.IsPlace range.stop ∧ range.start ≤ range.stop ∧
      buffer.IsPlace destination ∧
      ((Stays range destination ∧ next = buffer) ∨
        (¬ Stays range destination ∧ range.containsInner destination = false ∧
          (∀ m ∈ buffer.moves, m.range.overlaps range = false) ∧
          (∀ r ∈ buffer.replacements, r.range.containsInner destination = false ∧
            (r.range.overlaps range = true → range.containsSpan r.range = true)) ∧
          next = { buffer with moves := buffer.moves ++ [⟨range, destination⟩] })) := by
  simp only [moveRange, Except.bind_eq_ok, checkRange_ok, checkOffset_ok, exists_const, and_assoc]
  refine and_congr_right fun _ => and_congr_right fun _ => and_congr_right fun _ =>
    and_congr_right fun _ => ?_
  by_cases hs : (range.isEmpty || destination == range.start || destination == range.stop) = true
  · have hstays : Stays range destination := by simpa [Stays, Span.isEmpty, or_assoc] using hs
    rw [if_pos hs]
    constructor
    · intro h
      exact .inl ⟨hstays, by cases h; rfl⟩
    · rintro (⟨-, rfl⟩ | ⟨hmoves, -⟩)
      · rfl
      · exact absurd hstays hmoves
  · have hstays : ¬ Stays range destination := by simpa [Stays, Span.isEmpty, or_assoc] using hs
    rw [if_neg hs]
    by_cases hinner : range.containsInner destination = true
    · rw [if_pos hinner]
      constructor
      · intro h
        cases h
      · rintro (⟨hstay, -⟩ | ⟨-, houter, -⟩)
        · exact absurd hstay hstays
        · rw [hinner] at houter
          cases houter
    · rw [if_neg hinner]
      cases hm : buffer.moves.find? (·.range.overlaps range) with
      | some move =>
        constructor
        · intro h
          cases h
        · rintro (⟨hstay, -⟩ | ⟨-, -, hnone, -⟩)
          · exact absurd hstay hstays
          · exact absurd hnone (not_none_of_find? hm)
      | none =>
        cases hr : buffer.replacements.findSome? (moveConflict? range destination) with
        | some error =>
          obtain ⟨r, hmem, hconflict⟩ := List.exists_of_findSome?_eq_some hr
          constructor
          · intro h
            cases h
          · rintro (⟨hstay, -⟩ | ⟨-, -, -, hall, -⟩)
            · exact absurd hstay hstays
            · rw [moveConflict?_eq_none.mpr (hall r hmem)] at hconflict
              cases hconflict
        | none =>
          have hall : ∀ r ∈ buffer.replacements, r.range.containsInner destination = false ∧
              (r.range.overlaps range = true → range.containsSpan r.range = true) := by
            intro r hmem
            exact moveConflict?_eq_none.mp (List.findSome?_eq_none_iff.mp hr r hmem)
          constructor
          · intro h
            exact .inr ⟨hstays, by simpa using hinner, none_of_find? hm, hall, by cases h; rfl⟩
          · rintro (⟨hstay, -⟩ | ⟨-, -, -, -, rfl⟩)
            · exact absurd hstay hstays
            · rfl

end EditBuffer

end TypedComponent
