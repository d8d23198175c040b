import TypedComponent.Proofs.Edit.Acceptance

/-!
What holds of the records of every buffer that edits have led to. Each edit is
checked against the records only, so these are what the checks keep up: ranges
that are replaced do not meet each other, nor do ranges that are moved, nothing
points into a replaced range, and of a replaced and a moved range that meet one
lies inside the other.
-/

namespace TypedComponent

/-- One span ends where the other begins, or before. -/
def Span.Apart (a b : Span) : Prop := a.stop ≤ b.start ∨ b.stop ≤ a.start

theorem Span.Apart.symm {a b : Span} (h : a.Apart b) : b.Apart a := Or.symm h

theorem Span.Apart.contains_eq_false {a b : Span} (h : a.Apart b) {offset : Nat}
    (hin : a.contains offset = true) : b.contains offset = false := by
  rw [Span.contains_iff] at hin
  rw [← Bool.not_eq_true, Span.contains_iff]
  unfold Span.Apart at h
  omega

theorem Span.overlaps_eq_false (a b : Span) : a.overlaps b = false ↔ a.Apart b := by
  rw [← Bool.not_eq_true, Span.overlaps_iff, Span.Apart]
  omega

theorem Span.containsInner_eq_false (span : Span) (offset : Nat) :
    span.containsInner offset = false ↔ offset ≤ span.start ∨ span.stop ≤ offset := by
  rw [← Bool.not_eq_true, Span.containsInner_iff]
  omega

theorem Span.crosses_eq_false (a b : Span) :
    a.crosses b = false ↔
      a.Apart b ∨ a.containsSpan b = true ∨ b.containsSpan a = true := by
  rw [← Span.overlaps_eq_false]
  cases hmeet : a.overlaps b <;> cases hin : a.containsSpan b <;>
    cases hout : b.containsSpan a <;> simp [Span.crosses, hmeet, hin, hout]

namespace EditBuffer

structure Consistent (buffer : EditBuffer) : Prop where
  insertion_place : ∀ i ∈ buffer.insertions, buffer.IsPlace i.offset
  replacement_place : ∀ r ∈ buffer.replacements,
    buffer.IsPlace r.range.start ∧ buffer.IsPlace r.range.stop
  replacement_nonempty : ∀ r ∈ buffer.replacements, r.range.start < r.range.stop
  replacements_apart : buffer.replacements.Pairwise fun a b => a.range.Apart b.range
  move_place : ∀ m ∈ buffer.moves,
    buffer.IsPlace m.range.start ∧ buffer.IsPlace m.range.stop ∧ buffer.IsPlace m.destination
  move_nonempty : ∀ m ∈ buffer.moves, m.range.start < m.range.stop
  /-- A move goes elsewhere: neither into its range nor to an end of it. -/
  move_away : ∀ m ∈ buffer.moves,
    m.destination < m.range.start ∨ m.range.stop < m.destination
  moves_apart : buffer.moves.Pairwise fun a b => a.range.Apart b.range
  insertion_outside : ∀ i ∈ buffer.insertions, ∀ r ∈ buffer.replacements,
    r.range.containsInner i.offset = false
  destination_outside : ∀ m ∈ buffer.moves, ∀ r ∈ buffer.replacements,
    r.range.containsInner m.destination = false
  /-- Only removed text can hold all of a moved range. -/
  moved_whole : ∀ m ∈ buffer.moves, ∀ r ∈ buffer.replacements,
    m.range.Apart r.range ∨ m.range.containsSpan r.range = true ∨
      (r.text = none ∧ r.range.containsSpan m.range = true)

theorem ofText_consistent (source : Text) : (ofText source).Consistent := by
  constructor <;> simp [ofText]

section Steps

variable {buffer next : EditBuffer}

theorem insert_consistent {offset : Nat} {side : Side} {text : Text} (h : buffer.Consistent)
    (hok : buffer.insert offset side text = .ok next) : next.Consistent := by
  obtain ⟨hplace, houtside, rfl⟩ := insert_ok.mp hok
  by_cases htext : text = []
  · simpa [htext] using h
  · rw [if_neg htext]
    exact { h with
      insertion_place := by
        intro i hi
        rcases List.mem_append.mp hi with hold | hnew
        · exact h.insertion_place i hold
        · rw [List.mem_singleton.mp hnew]
          exact hplace
      insertion_outside := by
        intro i hi r hr
        rcases List.mem_append.mp hi with hold | hnew
        · exact h.insertion_outside i hold r hr
        · rw [List.mem_singleton.mp hnew]
          exact houtside r hr }

/-- A range that nothing points into and that no kept replacement and no move
crosses can be recorded as replaced. -/
theorem replace_consistent {kept : List Replacement} {replacement : Replacement}
    (h : buffer.Consistent) (hkept : kept.Sublist buffer.replacements)
    (hstart : buffer.IsPlace replacement.range.start)
    (hstop : buffer.IsPlace replacement.range.stop)
    (hlt : replacement.range.start < replacement.range.stop)
    (happart : ∀ r ∈ kept, r.range.Apart replacement.range)
    (hinsertions : ∀ i ∈ buffer.insertions, replacement.range.containsInner i.offset = false)
    (hdestinations : ∀ m ∈ buffer.moves,
      replacement.range.containsInner m.destination = false)
    (hmoves : ∀ m ∈ buffer.moves, m.range.Apart replacement.range ∨
      m.range.containsSpan replacement.range = true ∨
        (replacement.text = none ∧ replacement.range.containsSpan m.range = true)) :
    Consistent { buffer with replacements := kept ++ [replacement] } := by
  have hcases : ∀ r ∈ kept ++ [replacement], r ∈ buffer.replacements ∨ r = replacement := by
    intro r hr
    rcases List.mem_append.mp hr with hold | hnew
    · exact .inl (hkept.subset hold)
    · exact .inr (List.mem_singleton.mp hnew)
  exact { h with
    replacement_place := by
      intro r hr
      rcases hcases r hr with hold | rfl
      · exact h.replacement_place r hold
      · exact ⟨hstart, hstop⟩
    replacement_nonempty := by
      intro r hr
      rcases hcases r hr with hold | rfl
      · exact h.replacement_nonempty r hold
      · exact hlt
    replacements_apart := by
      rw [List.pairwise_append]
      refine ⟨h.replacements_apart.sublist hkept, by simp, ?_⟩
      intro r hr new hnew
      rw [List.mem_singleton.mp hnew]
      exact happart r hr
    insertion_outside := by
      intro i hi r hr
      rcases hcases r hr with hold | rfl
      · exact h.insertion_outside i hi r hold
      · exact hinsertions i hi
    destination_outside := by
      intro m hm r hr
      rcases hcases r hr with hold | rfl
      · exact h.destination_outside m hm r hold
      · exact hdestinations m hm
    moved_whole := by
      intro m hm r hr
      rcases hcases r hr with hold | rfl
      · exact h.moved_whole m hm r hold
      · exact hmoves m hm }

theorem remove_consistent {range : Span} (h : buffer.Consistent)
    (hok : buffer.remove range = .ok next) : next.Consistent := by
  obtain ⟨hstart, hstop, -, hcases⟩ := remove_ok hok
  rcases hcases with ⟨rfl, -⟩ | ⟨hlt, rfl, -, hinsertions, hdestinations, hmoves⟩
  · exact h
  · refine replace_consistent h List.filter_sublist hstart hstop hlt ?_ hinsertions
      hdestinations ?_
    · intro r hr
      have hapart := (List.mem_filter.mp hr).2
      rw [Bool.not_eq_true', Span.overlaps_eq_false] at hapart
      exact hapart
    · intro m hm
      rcases (Span.crosses_eq_false _ _).mp (hmoves m hm) with hapart | hin | hout
      · exact .inl hapart
      · exact .inr (.inl hin)
      · exact .inr (.inr ⟨rfl, hout⟩)

theorem overwrite_consistent {range : Span} {text : Text} (h : buffer.Consistent)
    (hok : buffer.overwrite range text = .ok next) : next.Consistent := by
  obtain ⟨hstart, hstop, hlt, hapart, hinsertions, hdestinations, hmoves, rfl⟩ :=
    overwrite_ok.mp hok
  refine replace_consistent h (List.Sublist.refl _) hstart hstop hlt ?_ hinsertions
    hdestinations ?_
  · intro r hr
    exact (Span.overlaps_eq_false _ _).mp (hapart r hr)
  · intro m hm
    by_cases hmeet : m.range.overlaps range = true
    · exact .inr (.inl (hmoves m hm hmeet))
    · rw [Bool.not_eq_true, Span.overlaps_eq_false] at hmeet
      exact .inl hmeet

theorem moveRange_consistent {range : Span} {destination : Nat} (h : buffer.Consistent)
    (hok : buffer.moveRange range destination = .ok next) : next.Consistent := by
  obtain ⟨hstart, hstop, hle, hdestination, hcases⟩ := moveRange_ok.mp hok
  rcases hcases with ⟨-, rfl⟩ | ⟨hstays, hinner, hapart, hreplaced, rfl⟩
  · exact h
  · rw [Span.containsInner_eq_false] at hinner
    simp only [Stays, not_or] at hstays
    have hmem : ∀ m ∈ buffer.moves ++ [⟨range, destination⟩],
        m ∈ buffer.moves ∨ m = ⟨range, destination⟩ := by
      intro m hm
      simpa using hm
    exact { h with
      move_place := by
        intro m hm
        rcases hmem m hm with hold | rfl
        · exact h.move_place m hold
        · exact ⟨hstart, hstop, hdestination⟩
      move_nonempty := by
        intro m hm
        rcases hmem m hm with hold | rfl
        · exact h.move_nonempty m hold
        · dsimp only
          omega
      move_away := by
        intro m hm
        rcases hmem m hm with hold | rfl
        · exact h.move_away m hold
        · dsimp only
          omega
      moves_apart := by
        rw [List.pairwise_append]
        refine ⟨h.moves_apart, by simp, ?_⟩
        intro m hm new hnew
        rw [List.mem_singleton.mp hnew]
        exact (Span.overlaps_eq_false _ _).mp (hapart m hm)
      destination_outside := by
        intro m hm r hr
        rcases hmem m hm with hold | rfl
        · exact h.destination_outside m hold r hr
        · exact (hreplaced r hr).1
      moved_whole := by
        intro m hm r hr
        rcases hmem m hm with hold | rfl
        · exact h.moved_whole m hold r hr
        · by_cases hmeet : r.range.overlaps range = true
          · exact .inr (.inl ((hreplaced r hr).2 hmeet))
          · rw [Bool.not_eq_true, Span.overlaps_eq_false] at hmeet
            exact .inl hmeet.symm }

/-- No accepted edit breaks the consistency of the records. -/
theorem apply_consistent {edit : Edit} (h : buffer.Consistent)
    (hok : buffer.apply edit = .ok next) : next.Consistent := by
  cases edit with
  | insertBefore offset text => exact insert_consistent h hok
  | insertAfter offset text => exact insert_consistent h hok
  | remove range => exact remove_consistent h hok
  | overwrite range text => exact overwrite_consistent h hok
  | move range destination => exact moveRange_consistent h hok
  | prepend text =>
    cases hok
    exact { h with }
  | append text =>
    cases hok
    exact { h with }

end Steps

end EditBuffer

end TypedComponent
