import TypedComponent.Proofs.Edit.Cellwise
import TypedComponent.Proofs.Edit.Consistent

/-!
The records of a buffer tell which edits it has accepted. Insertions, moves and
overwritings are all there, in the order of their calls; of the removals there
is what they cover together, since one can absorb others.
-/

namespace TypedComponent

/-- What an edit records as an insertion. Inserting nothing records nothing. -/
def Edit.insertion? : Edit → Option Insertion
  | insertBefore offset text => if text = [] then none else some ⟨offset, .before, text⟩
  | insertAfter offset text => if text = [] then none else some ⟨offset, .after, text⟩
  | _ => none

namespace EditBuffer

/-- The buffer holds a source and the records of the edits that it accepted. -/
structure Records (source : Text) (edits : List Edit) (buffer : EditBuffer) : Prop where
  source_eq : buffer.source = source
  intro_eq : buffer.intro = Cellwise.intro edits
  outro_eq : buffer.outro = Cellwise.outro edits
  insertions_eq : buffer.insertions = edits.filterMap Edit.insertion?
  moves_eq : buffer.moves = edits.filterMap Edit.relocation?
  removed_iff : ∀ offset,
    (∃ r ∈ buffer.replacements, r.text = none ∧ r.range.contains offset = true) ↔
      edits.any (Edit.removes offset) = true
  overwritten_iff : ∀ range text,
    ⟨range, some text⟩ ∈ buffer.replacements ↔ Edit.overwrite range text ∈ edits
  consistent : buffer.Consistent

theorem ofText_records (source : Text) : (ofText source).Records source [] where
  source_eq := rfl
  intro_eq := rfl
  outro_eq := rfl
  insertions_eq := rfl
  moves_eq := rfl
  removed_iff := by simp [ofText]
  overwritten_iff := by simp [ofText]
  consistent := ofText_consistent source

section Steps

variable {source : Text} {edits : List Edit} {buffer next : EditBuffer}

/-- An edit that neither removes nor overwrites leaves the replacements to the
edits before it. -/
theorem removed_iff_of_other (h : buffer.Records source edits) {edit : Edit}
    (hedit : ∀ offset, edit.removes offset = false) (offset : Nat) :
    (∃ r ∈ buffer.replacements, r.text = none ∧ r.range.contains offset = true) ↔
      (edits ++ [edit]).any (Edit.removes offset) = true := by
  rw [h.removed_iff, List.any_append]
  simp [hedit]

theorem overwritten_iff_of_other (h : buffer.Records source edits) {edit : Edit}
    (hedit : ∀ range text, edit ≠ .overwrite range text) (range : Span) (text : Text) :
    ⟨range, some text⟩ ∈ buffer.replacements ↔
      Edit.overwrite range text ∈ edits ++ [edit] := by
  rw [h.overwritten_iff, List.mem_append, List.mem_singleton]
  constructor
  · exact .inl
  · rintro (hold | hnew)
    · exact hold
    · exact absurd hnew.symm (hedit range text)

theorem insert_records {offset : Nat} {side : Side} {text : Text} {edit : Edit}
    (h : buffer.Records source edits) (hok : buffer.insert offset side text = .ok next)
    (hedit : edit.insertion? = if text = [] then none else some ⟨offset, side, text⟩)
    (hkind : edit = .insertBefore offset text ∨ edit = .insertAfter offset text) :
    next.Records source (edits ++ [edit]) := by
  have hconsistent := insert_consistent h.consistent hok
  obtain ⟨-, -, hnext⟩ := insert_ok.mp hok
  have hfields : next.source = buffer.source ∧ next.intro = buffer.intro ∧
      next.outro = buffer.outro ∧ next.moves = buffer.moves ∧
      next.replacements = buffer.replacements := by
    rw [hnext]
    split <;> exact ⟨rfl, rfl, rfl, rfl, rfl⟩
  obtain ⟨hsource, hintro, houtro, hmoves, hreplacements⟩ := hfields
  exact {
    source_eq := hsource.trans h.source_eq
    intro_eq := by
      rw [hintro, h.intro_eq]
      rcases hkind with rfl | rfl <;> simp [Cellwise.intro, Edit.prepended?]
    outro_eq := by
      rw [houtro, h.outro_eq]
      rcases hkind with rfl | rfl <;> simp [Cellwise.outro, Edit.appended?]
    insertions_eq := by
      rw [hnext, List.filterMap_append, ← h.insertions_eq]
      by_cases htext : text = [] <;> simp [htext, hedit]
    moves_eq := by
      rw [hmoves, h.moves_eq]
      rcases hkind with rfl | rfl <;> simp [Edit.relocation?]
    removed_iff := by
      rw [hreplacements]
      rcases hkind with rfl | rfl <;> exact removed_iff_of_other h fun _ => rfl
    overwritten_iff := by
      rw [hreplacements]
      rcases hkind with rfl | rfl <;> exact overwritten_iff_of_other h (by simp)
    consistent := hconsistent }

theorem remove_covers {range : Span} (hok : buffer.remove range = .ok next) (offset : Nat) :
    (∃ r ∈ next.replacements, r.text = none ∧ r.range.contains offset = true) ↔
      (∃ r ∈ buffer.replacements, r.text = none ∧ r.range.contains offset = true) ∨
        range.contains offset = true := by
  obtain ⟨-, -, -, ⟨rfl, hcovered⟩ | ⟨hlt, rfl, habsorbed, -⟩⟩ := remove_ok hok
  · refine ⟨.inl, ?_⟩
    rintro (hold | hin)
    · exact hold
    · rw [Span.contains_iff] at hin
      rcases hcovered with hempty | ⟨r, hr, hnone, hcovers⟩
      · omega
      · rw [Span.containsSpan_iff] at hcovers
        exact ⟨r, hr, hnone, by rw [Span.contains_iff]; omega⟩
  · constructor
    · rintro ⟨r, hr, hnone, hin⟩
      rcases List.mem_append.mp hr with hold | hnew
      · exact .inl ⟨r, (List.mem_filter.mp hold).1, hnone, hin⟩
      · rw [List.mem_singleton.mp hnew] at hin
        exact .inr hin
    · rintro (⟨r, hr, hnone, hin⟩ | hin)
      · by_cases hmeets : r.range.overlaps range = true
        · have hinside := (habsorbed r hr hmeets).2
          rw [Span.containsSpan_iff] at hinside
          rw [Span.contains_iff] at hin
          refine ⟨⟨range, none⟩, by simp, rfl, ?_⟩
          rw [Span.contains_iff]
          dsimp only
          omega
        · exact ⟨r, List.mem_append_left _ (List.mem_filter.mpr ⟨hr, by simpa using hmeets⟩),
            hnone, hin⟩
      · exact ⟨⟨range, none⟩, by simp, rfl, hin⟩

theorem remove_keeps_overwritten {range : Span} (hok : buffer.remove range = .ok next)
    (other : Span) (text : Text) :
    ⟨other, some text⟩ ∈ next.replacements ↔ ⟨other, some text⟩ ∈ buffer.replacements := by
  obtain ⟨-, -, -, ⟨rfl, -⟩ | ⟨-, rfl, habsorbed, -⟩⟩ := remove_ok hok
  · exact Iff.rfl
  · simp only [List.mem_append, List.mem_filter, List.mem_singleton, Replacement.mk.injEq,
      reduceCtorEq, and_false, or_false, and_iff_left_iff_imp, Bool.not_eq_true']
    intro hr
    rw [← Bool.not_eq_true]
    intro hmeets
    have hnone := (habsorbed _ hr hmeets).1
    cases hnone

theorem remove_records {range : Span} (h : buffer.Records source edits)
    (hok : buffer.remove range = .ok next) : next.Records source (edits ++ [.remove range]) := by
  have hfields : next.source = buffer.source ∧ next.intro = buffer.intro ∧
      next.outro = buffer.outro ∧ next.insertions = buffer.insertions ∧
      next.moves = buffer.moves := by
    obtain ⟨-, -, -, ⟨rfl, -⟩ | ⟨-, rfl, -⟩⟩ := remove_ok hok <;>
      exact ⟨rfl, rfl, rfl, rfl, rfl⟩
  obtain ⟨hsource, hintro, houtro, hinsertions, hmoves⟩ := hfields
  exact {
    source_eq := hsource.trans h.source_eq
    intro_eq := by
      rw [hintro, h.intro_eq]
      simp [Cellwise.intro, Edit.prepended?]
    outro_eq := by
      rw [houtro, h.outro_eq]
      simp [Cellwise.outro, Edit.appended?]
    insertions_eq := by
      rw [hinsertions, h.insertions_eq]
      simp [Edit.insertion?]
    moves_eq := by
      rw [hmoves, h.moves_eq]
      simp [Edit.relocation?]
    removed_iff := by
      intro offset
      rw [remove_covers hok, h.removed_iff, List.any_append]
      simp [Edit.removes]
    overwritten_iff := by
      intro other text
      rw [remove_keeps_overwritten hok, h.overwritten_iff]
      simp
    consistent := remove_consistent h.consistent hok }

theorem overwrite_records {range : Span} {text : Text} (h : buffer.Records source edits)
    (hok : buffer.overwrite range text = .ok next) :
    next.Records source (edits ++ [.overwrite range text]) := by
  have hconsistent := overwrite_consistent h.consistent hok
  obtain ⟨-, -, -, -, -, -, -, rfl⟩ := overwrite_ok.mp hok
  exact {
    source_eq := h.source_eq
    intro_eq := by
      rw [h.intro_eq]
      simp [Cellwise.intro, Edit.prepended?]
    outro_eq := by
      rw [h.outro_eq]
      simp [Cellwise.outro, Edit.appended?]
    insertions_eq := by
      rw [h.insertions_eq]
      simp [Edit.insertion?]
    moves_eq := by
      rw [h.moves_eq]
      simp [Edit.relocation?]
    removed_iff := by
      intro offset
      rw [List.any_append, Bool.or_eq_true, ← h.removed_iff]
      simp [Edit.removes]
    overwritten_iff := by
      intro other written
      rw [List.mem_append, List.mem_append, h.overwritten_iff]
      simp
    consistent := hconsistent }

theorem moveRange_records {range : Span} {destination : Nat} (h : buffer.Records source edits)
    (hok : buffer.moveRange range destination = .ok next) :
    next.Records source (edits ++ [.move range destination]) := by
  have hconsistent := moveRange_consistent h.consistent hok
  obtain ⟨-, -, -, -, hcases⟩ := moveRange_ok.mp hok
  have hfields : next.source = buffer.source ∧ next.intro = buffer.intro ∧
      next.outro = buffer.outro ∧ next.insertions = buffer.insertions ∧
      next.replacements = buffer.replacements := by
    rcases hcases with ⟨-, rfl⟩ | ⟨-, -, -, -, rfl⟩ <;> exact ⟨rfl, rfl, rfl, rfl, rfl⟩
  obtain ⟨hsource, hintro, houtro, hinsertions, hreplacements⟩ := hfields
  exact {
    source_eq := hsource.trans h.source_eq
    intro_eq := by
      rw [hintro, h.intro_eq]
      simp [Cellwise.intro, Edit.prepended?]
    outro_eq := by
      rw [houtro, h.outro_eq]
      simp [Cellwise.outro, Edit.appended?]
    insertions_eq := by
      rw [hinsertions, h.insertions_eq]
      simp [Edit.insertion?]
    moves_eq := by
      rw [List.filterMap_append, ← h.moves_eq]
      rcases hcases with ⟨hstays, rfl⟩ | ⟨hstays, -, -, -, rfl⟩
      · rw [Stays] at hstays
        simp [Edit.relocation?, hstays]
      · rw [Stays] at hstays
        simp [Edit.relocation?, hstays]
    removed_iff := by
      rw [hreplacements]
      exact removed_iff_of_other h fun _ => rfl
    overwritten_iff := by
      rw [hreplacements]
      exact overwritten_iff_of_other h (by simp)
    consistent := hconsistent }

theorem apply_records {edit : Edit} (h : buffer.Records source edits)
    (hok : buffer.apply edit = .ok next) : next.Records source (edits ++ [edit]) := by
  cases edit with
  | insertBefore offset text => exact insert_records h hok rfl (.inl rfl)
  | insertAfter offset text => exact insert_records h hok rfl (.inr rfl)
  | remove range => exact remove_records h hok
  | overwrite range text => exact overwrite_records h hok
  | move range destination => exact moveRange_records h hok
  | prepend text =>
    have hconsistent := apply_consistent h.consistent hok
    cases hok
    exact { h with
      intro_eq := by simp [EditBuffer.prepend, h.intro_eq, Cellwise.intro, Edit.prepended?]
      outro_eq := by simp [EditBuffer.prepend, h.outro_eq, Cellwise.outro, Edit.appended?]
      insertions_eq := by simp [EditBuffer.prepend, h.insertions_eq, Edit.insertion?]
      moves_eq := by simp [EditBuffer.prepend, h.moves_eq, Edit.relocation?]
      removed_iff := removed_iff_of_other h fun _ => rfl
      overwritten_iff := overwritten_iff_of_other h (by simp)
      consistent := hconsistent }
  | append text =>
    have hconsistent := apply_consistent h.consistent hok
    cases hok
    exact { h with
      intro_eq := by simp [EditBuffer.append, h.intro_eq, Cellwise.intro, Edit.prepended?]
      outro_eq := by simp [EditBuffer.append, h.outro_eq, Cellwise.outro, Edit.appended?]
      insertions_eq := by simp [EditBuffer.append, h.insertions_eq, Edit.insertion?]
      moves_eq := by simp [EditBuffer.append, h.moves_eq, Edit.relocation?]
      removed_iff := removed_iff_of_other h fun _ => rfl
      overwritten_iff := overwritten_iff_of_other h (by simp)
      consistent := hconsistent }

end Steps

/-- What every accepted edit keeps up holds after a list of them. -/
theorem applyUntil_induction {P : List Edit → EditBuffer → Prop}
    (hstep : ∀ {earlier buffer edit next}, P earlier buffer → buffer.apply edit = .ok next →
      P (earlier ++ [edit]) next)
    {earlier edits : List Edit} {buffer last : EditBuffer} (h : P earlier buffer)
    (hok : buffer.applyUntil edits = (last, none)) : P (earlier ++ edits) last := by
  induction edits generalizing buffer earlier with
  | nil =>
    cases hok
    rwa [List.append_nil]
  | cons edit rest ih =>
    rw [applyUntil] at hok
    cases happly : buffer.apply edit with
    | error refusal =>
      rw [happly] at hok
      cases hok
    | ok next =>
      rw [happly] at hok
      have hrest := ih (hstep h happly) hok
      rwa [List.append_assoc] at hrest

theorem applyUntil_records {source : Text} {earlier edits : List Edit} {buffer last : EditBuffer}
    (h : buffer.Records source earlier) (hok : buffer.applyUntil edits = (last, none)) :
    last.Records source (earlier ++ edits) :=
  applyUntil_induction (P := fun edits buffer => buffer.Records source edits) apply_records h hok

theorem applyUntil_of_applyAll {edits : List Edit} {buffer last : EditBuffer}
    (hok : buffer.applyAll edits = .ok last) : buffer.applyUntil edits = (last, none) := by
  unfold applyAll at hok
  split at hok
  next hrun =>
    cases hok
    exact hrun
  next => cases hok

/-- What every accepted edit keeps up holds after a run, refused edits skipped. -/
theorem run_induction {P : List Edit → EditBuffer → Prop}
    (hstep : ∀ {earlier buffer edit next}, P earlier buffer → buffer.apply edit = .ok next →
      P (earlier ++ [edit]) next)
    {earlier : List Edit} {buffer : EditBuffer} (h : P earlier buffer) (edits : List Edit) :
    P (earlier ++ buffer.accepted edits) (buffer.run edits) := by
  induction edits generalizing buffer earlier with
  | nil => simpa [run, accepted] using h
  | cons edit rest ih =>
    cases hok : buffer.apply edit with
    | error refusal =>
      have hrest := ih h
      simpa [run, accepted, applyOrKeep, hok] using hrest
    | ok next =>
      have hrest := ih (hstep h hok)
      simpa [run, accepted, applyOrKeep, hok] using hrest

/-- After a run the records tell of the accepted edits, in order. -/
theorem run_records {source : Text} {earlier : List Edit} {buffer : EditBuffer}
    (h : buffer.Records source earlier) (edits : List Edit) :
    (buffer.run edits).Records source (earlier ++ buffer.accepted edits) :=
  run_induction (P := fun edits buffer => buffer.Records source edits) apply_records h edits

end EditBuffer

end TypedComponent
