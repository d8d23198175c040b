import TypedComponent.Proofs.Edit.Consistent
import TypedComponent.Proofs.Text.Swap

/-!
The same edits of two texts that differ in one stretch. Every check of an edit
compares offsets, and offsets outside of the stretch compare in both texts
alike. So a buffer of one text accepts an edit if and only if the buffer of the
other accepts it at its place there, as long as no edit points strictly into
the stretch.
-/

namespace TypedComponent

/-- Two computations that either both fail, or give results that are related. -/
inductive Except.Alongside {ε δ α β : Type} (R : α → β → Prop) : Except ε α → Except δ β → Prop
  | ok {a : α} {b : β} (related : R a b) : Alongside R (.ok a) (.ok b)
  | error (refusal : ε) (other : δ) : Alongside R (.error refusal) (.error other)

namespace Except.Alongside

variable {ε δ α β γ κ : Type} {R : α → β → Prop} {S : γ → κ → Prop} {x : Except ε α}
  {y : Except δ β}

theorem bind {f : α → Except ε γ} {g : β → Except δ κ} (h : Alongside R x y)
    (hnext : ∀ a b, R a b → Alongside S (f a) (g b)) : Alongside S (x >>= f) (y >>= g) := by
  cases h with
  | ok related => exact hnext _ _ related
  | error refusal other => exact .error refusal other

theorem mono {Q : α → β → Prop} (h : Alongside R x y) (himp : ∀ a b, R a b → Q a b) :
    Alongside Q x y := by
  cases h with
  | ok related => exact .ok (himp _ _ related)
  | error refusal other => exact .error refusal other

theorem map {f : α → γ} {g : β → κ} (h : Alongside R x y) (hnext : ∀ a b, R a b → S (f a) (g b)) :
    Alongside S (x.map f) (y.map g) := by
  cases h with
  | ok related => exact .ok (hnext _ _ related)
  | error refusal other => exact .error refusal other

theorem mapError {ε' δ' : Type} (f : ε → ε') (g : δ → δ') (h : Alongside R x y) :
    Alongside R (x.mapError f) (y.mapError g) := by
  cases h with
  | ok related => exact .ok related
  | error refusal other => exact .error (f refusal) (g other)

/-- A check succeeds when another one does. -/
theorem of_iff {x : Except ε Unit} {y : Except δ Unit} (h : x = .ok () ↔ y = .ok ()) :
    Alongside (fun _ _ => True) x y := by
  cases x with
  | ok =>
    rw [h.mp rfl]
    exact .ok trivial
  | error refusal =>
    cases y with
    | ok => cases h.mpr rfl
    | error other => exact .error refusal other

end Except.Alongside

/-- Searching renumbered values is searching the values. -/
theorem List.find?_of_map {α β : Type} {f : α → β} {p : β → Bool} {q : α → Bool} {l : List α}
    (h : ∀ a ∈ l, p (f a) = q a) : (l.map f).find? p = (l.find? q).map f := by
  induction l with
  | nil => rfl
  | cons a rest ih =>
    have hrest := ih fun b hb => h b (List.mem_cons_of_mem a hb)
    rw [List.map_cons, List.find?_cons, List.find?_cons, h a List.mem_cons_self, hrest]
    cases q a <;> rfl

section Renumbering

variable (place : Nat → Nat)

def Insertion.renumbered (insertion : Insertion) : Insertion :=
  ⟨place insertion.offset, insertion.side, insertion.text⟩

def Replacement.renumbered (replacement : Replacement) : Replacement :=
  ⟨replacement.range.renumbered place, replacement.text⟩

def Move.renumbered (move : Move) : Move :=
  ⟨move.range.renumbered place, place move.destination⟩

def Edit.renumbered : Edit → Edit
  | insertBefore offset text => .insertBefore (place offset) text
  | insertAfter offset text => .insertAfter (place offset) text
  | remove range => .remove (range.renumbered place)
  | overwrite range text => .overwrite (range.renumbered place) text
  | move range destination => .move (range.renumbered place) (place destination)
  | prepend text => .prepend text
  | append text => .append text

end Renumbering

namespace Swap

/-- The span begins and ends outside of the stretch. -/
def Spares (swap : Swap) (span : Span) : Prop :=
  swap.Outside span.start ∧ swap.Outside span.stop

section Spans

variable {swap : Swap} {a b span : Span} {offset : Nat}

theorem isEmpty_renumbered (h : swap.Spares span) :
    (span.renumbered swap.place).isEmpty = span.isEmpty := by
  rw [Bool.eq_iff_iff, Span.isEmpty, Span.isEmpty, beq_iff_eq, beq_iff_eq, Span.renumbered,
    place_eq h.1 h.2]

theorem containsInner_renumbered (h : swap.Spares span) (hoffset : swap.Outside offset) :
    (span.renumbered swap.place).containsInner (swap.place offset) =
      span.containsInner offset := by
  rw [Bool.eq_iff_iff, Span.containsInner_iff, Span.containsInner_iff, Span.renumbered,
    place_lt h.1 hoffset, place_lt hoffset h.2]

theorem containsSpan_renumbered (ha : swap.Spares a) (hb : swap.Spares b) :
    (a.renumbered swap.place).containsSpan (b.renumbered swap.place) = a.containsSpan b := by
  rw [Bool.eq_iff_iff, Span.containsSpan_iff, Span.containsSpan_iff, Span.renumbered,
    Span.renumbered, place_le ha.1 hb.1, place_le hb.2 ha.2]

theorem overlaps_renumbered (ha : swap.Spares a) (hb : swap.Spares b) :
    (a.renumbered swap.place).overlaps (b.renumbered swap.place) = a.overlaps b := by
  rw [Bool.eq_iff_iff, Span.overlaps_iff, Span.overlaps_iff, Span.renumbered,
    Span.renumbered, place_lt ha.1 hb.2, place_lt hb.1 ha.2]

theorem crosses_renumbered (ha : swap.Spares a) (hb : swap.Spares b) :
    (a.renumbered swap.place).crosses (b.renumbered swap.place) = a.crosses b := by
  rw [Span.crosses, Span.crosses, overlaps_renumbered ha hb, containsSpan_renumbered ha hb,
    containsSpan_renumbered hb ha]

end Spans

end Swap

/-- No offset of the edit lies strictly inside of the stretch. -/
def Edit.Outside (swap : Swap) : Edit → Prop
  | insertBefore offset _ | insertAfter offset _ => swap.Outside offset
  | remove range | overwrite range _ => swap.Spares range
  | move range destination => swap.Spares range ∧ swap.Outside destination
  | prepend _ | append _ => True

namespace EditBuffer

/-- Buffers of two texts that hold the same edits, none of which points strictly
into the stretch in which the texts differ. -/
structure Carried (swap : Swap) (buffer other : EditBuffer) : Prop where
  source : buffer.source = swap.first
  other_eq : other = {
    source := swap.second
    intro := buffer.intro
    outro := buffer.outro
    insertions := buffer.insertions.map (·.renumbered swap.place)
    replacements := buffer.replacements.map (·.renumbered swap.place)
    moves := buffer.moves.map (·.renumbered swap.place) }
  insertions : ∀ i ∈ buffer.insertions, swap.Outside i.offset
  replacements : ∀ r ∈ buffer.replacements, swap.Spares r.range
  moves : ∀ m ∈ buffer.moves, swap.Spares m.range ∧ swap.Outside m.destination

theorem ofText_carried (swap : Swap) :
    Carried swap (.ofText swap.first) (.ofText swap.second) where
  source := rfl
  other_eq := rfl
  insertions := by simp [ofText]
  replacements := by simp [ofText]
  moves := by simp [ofText]

section Edits

variable {swap : Swap} {buffer other : EditBuffer} {offset : Nat} {range : Span}

theorem checkOffset_alongside (h : Carried swap buffer other) (hoffset : swap.Outside offset) :
    Except.Alongside (fun _ _ => True) (buffer.checkOffset offset)
      (other.checkOffset (swap.place offset)) := by
  refine .of_iff ?_
  rw [checkOffset_ok, checkOffset_ok, IsPlace, IsPlace, h.source, h.other_eq,
    Swap.isBoundary_place hoffset]

theorem checkRange_alongside (h : Carried swap buffer other) (hrange : swap.Spares range) :
    Except.Alongside (fun _ _ => True) (buffer.checkRange range)
      (other.checkRange (range.renumbered swap.place)) := by
  refine .of_iff ?_
  rw [checkRange_ok, checkRange_ok, IsPlace, IsPlace, IsPlace, IsPlace, h.source, h.other_eq,
    Span.renumbered, Swap.isBoundary_place hrange.1, Swap.isBoundary_place hrange.2,
    Swap.place_le hrange.1 hrange.2]

theorem checkNothingInside_alongside (h : Carried swap buffer other)
    (hrange : swap.Spares range) :
    Except.Alongside (fun _ _ => True) (buffer.checkNothingInside range)
      (other.checkNothingInside (range.renumbered swap.place)) := by
  refine .of_iff ?_
  rw [checkNothingInside_ok, checkNothingInside_ok, h.other_eq]
  simp only [List.forall_mem_map, Insertion.renumbered, Move.renumbered]
  refine and_congr (forall₂_congr fun i hi => ?_) (forall₂_congr fun m hm => ?_)
  · rw [Swap.containsInner_renumbered hrange (h.insertions i hi)]
  · rw [Swap.containsInner_renumbered hrange (h.moves m hm).2]

theorem insert_alongside (h : Carried swap buffer other) (hoffset : swap.Outside offset)
    (side : Side) (text : Text) :
    Except.Alongside (Carried swap) (buffer.insert offset side text)
      (other.insert (swap.place offset) side text) := by
  refine (checkOffset_alongside h hoffset).bind fun _ _ _ => ?_
  have hfind : other.replacements.find? (·.range.containsInner (swap.place offset)) =
      (buffer.replacements.find? (·.range.containsInner offset)).map
        (·.renumbered swap.place) := by
    rw [h.other_eq]
    exact List.find?_of_map fun r hr =>
      Swap.containsInner_renumbered (h.replacements r hr) hoffset
  rw [hfind]
  cases buffer.replacements.find? (·.range.containsInner offset) with
  | some earlier => exact .error _ _
  | none =>
    dsimp only [Option.map_none]
    split
    · exact .ok h
    · refine .ok { h with other_eq := ?_, insertions := ?_ }
      · rw [h.other_eq]
        simp [Insertion.renumbered]
      · intro i hi
        rcases List.mem_append.mp hi with hold | hnew
        · exact h.insertions i hold
        · rw [List.mem_singleton.mp hnew]
          exact hoffset

theorem absorb?_alongside {replacements : List Replacement}
    (h : ∀ r ∈ replacements, swap.Spares r.range) (hrange : swap.Spares range) :
    Except.Alongside
      (fun kept other => other = kept.map (List.map (·.renumbered swap.place)) ∧
        ∀ list ∈ kept, ∀ r ∈ list, r ∈ replacements)
      (absorb? range replacements)
      (absorb? (range.renumbered swap.place) (replacements.map (·.renumbered swap.place))) := by
  induction replacements with
  | nil => exact .ok ⟨rfl, by simp⟩
  | cons earlier rest ih =>
    have hrest := ih fun r hr => h r (List.mem_cons_of_mem earlier hr)
    have hearlier := h earlier List.mem_cons_self
    have hkept {kept : Option (List Replacement)} (hmem : ∀ list ∈ kept, ∀ r ∈ list, r ∈ rest) :
        ∀ list ∈ kept, ∀ r ∈ list, r ∈ earlier :: rest :=
      fun list hlist r hr => List.mem_cons_of_mem earlier (hmem list hlist r hr)
    rw [List.map_cons, absorb?, absorb?]
    simp only [Replacement.renumbered, Swap.overlaps_renumbered hearlier hrange,
      Swap.containsSpan_renumbered hearlier hrange, Swap.containsSpan_renumbered hrange hearlier]
    split
    · split
      · exact .ok ⟨rfl, by simp⟩
      · split
        · exact hrest.mono fun kept other hrelated => ⟨hrelated.1, hkept hrelated.2⟩
        · exact .error _ _
    · refine hrest.map fun kept other hrelated => ?_
      obtain ⟨rfl, hmem⟩ := hrelated
      cases kept with
      | none => exact ⟨rfl, by simp⟩
      | some list =>
        refine ⟨rfl, ?_⟩
        rintro _ ⟨⟩ r hr
        rcases List.mem_cons.mp hr with rfl | hold
        · exact List.mem_cons_self
        · exact hkept hmem list rfl r hold

/-- Records that have been kept, and one more replacement. -/
theorem Carried.replace (h : Carried swap buffer other) {kept : List Replacement}
    (hkept : ∀ r ∈ kept, r ∈ buffer.replacements) (hrange : swap.Spares range)
    (text : Option Text) :
    Carried swap { buffer with replacements := kept ++ [⟨range, text⟩] }
      { other with replacements := kept.map (·.renumbered swap.place) ++
          [⟨range.renumbered swap.place, text⟩] } where
  source := h.source
  other_eq := by
    rw [h.other_eq]
    simp [Replacement.renumbered]
  insertions := h.insertions
  replacements := by
    intro r hr
    rcases List.mem_append.mp hr with hold | hnew
    · exact h.replacements r (hkept r hold)
    · rw [List.mem_singleton.mp hnew]
      exact hrange
  moves := h.moves

theorem remove_alongside (h : Carried swap buffer other) (hrange : swap.Spares range) :
    Except.Alongside (Carried swap) (buffer.remove range)
      (other.remove (range.renumbered swap.place)) := by
  refine (checkRange_alongside h hrange).bind fun _ _ _ => ?_
  rw [Swap.isEmpty_renumbered hrange]
  split
  · exact .ok h
  have habsorb := absorb?_alongside h.replacements hrange
  have hreplacements : other.replacements = buffer.replacements.map (·.renumbered swap.place) := by
    rw [h.other_eq]
  rw [← hreplacements] at habsorb
  refine habsorb.bind fun kept kept' hrelated => ?_
  obtain ⟨rfl, hkept⟩ := hrelated
  cases kept with
  | none => exact .ok h
  | some kept =>
    refine (checkNothingInside_alongside h hrange).bind fun _ _ _ => ?_
    have hfind : other.moves.find? (·.range.crosses (range.renumbered swap.place)) =
        (buffer.moves.find? (·.range.crosses range)).map (·.renumbered swap.place) := by
      rw [h.other_eq]
      exact List.find?_of_map fun m hm => Swap.crosses_renumbered (h.moves m hm).1 hrange
    rw [hfind]
    cases buffer.moves.find? (·.range.crosses range) with
    | some move => exact .error _ _
    | none => exact .ok (h.replace (hkept kept rfl) hrange none)

theorem overwrite_alongside (h : Carried swap buffer other) (hrange : swap.Spares range)
    (text : Text) :
    Except.Alongside (Carried swap) (buffer.overwrite range text)
      (other.overwrite (range.renumbered swap.place) text) := by
  have hreplacements : other.replacements = buffer.replacements.map (·.renumbered swap.place) := by
    rw [h.other_eq]
  refine (checkRange_alongside h hrange).bind fun _ _ _ => ?_
  dsimp only
  rw [Swap.isEmpty_renumbered hrange]
  by_cases hempty : range.isEmpty = true
  · rw [if_pos hempty, if_pos hempty]
    exact .error _ _
  rw [if_neg hempty, if_neg hempty]
  have hfind : other.replacements.find? (·.range.overlaps (range.renumbered swap.place)) =
      (buffer.replacements.find? (·.range.overlaps range)).map (·.renumbered swap.place) := by
    rw [hreplacements]
    exact List.find?_of_map fun r hr => Swap.overlaps_renumbered (h.replacements r hr) hrange
  rw [hfind]
  cases buffer.replacements.find? (·.range.overlaps range) with
  | some earlier => exact .error _ _
  | none =>
    refine (checkNothingInside_alongside h hrange).bind fun _ _ _ => ?_
    have hmoves : other.moves.find? (fun move =>
          move.range.overlaps (range.renumbered swap.place) &&
            !move.range.containsSpan (range.renumbered swap.place)) =
        (buffer.moves.find? fun move =>
          move.range.overlaps range && !move.range.containsSpan range).map
            (·.renumbered swap.place) := by
      rw [h.other_eq]
      refine List.find?_of_map fun m hm => ?_
      simp only [Move.renumbered, Swap.overlaps_renumbered (h.moves m hm).1 hrange,
        Swap.containsSpan_renumbered (h.moves m hm).1 hrange]
    rw [hmoves]
    cases buffer.moves.find? fun move =>
        move.range.overlaps range && !move.range.containsSpan range with
    | some move => exact .error _ _
    | none =>
      rw [hreplacements]
      exact .ok (h.replace (fun r hr => hr) hrange (some text))

theorem moveConflict?_renumbered {r : Replacement} (hr : swap.Spares r.range)
    (hrange : swap.Spares range) (hoffset : swap.Outside offset) :
    moveConflict? (range.renumbered swap.place) (swap.place offset)
        (r.renumbered swap.place) = none ↔ moveConflict? range offset r = none := by
  rw [moveConflict?_eq_none, moveConflict?_eq_none, Replacement.renumbered,
    Swap.containsInner_renumbered hr hoffset, Swap.overlaps_renumbered hr hrange,
    Swap.containsSpan_renumbered hrange hr]

theorem moveRange_alongside (h : Carried swap buffer other) (hrange : swap.Spares range)
    (hoffset : swap.Outside offset) :
    Except.Alongside (Carried swap) (buffer.moveRange range offset)
      (other.moveRange (range.renumbered swap.place) (swap.place offset)) := by
  refine (checkRange_alongside h hrange).bind fun _ _ _ => ?_
  refine (checkOffset_alongside h hoffset).bind fun _ _ _ => ?_
  have hends (a : Nat) (ha : swap.Outside a) :
      (swap.place offset == swap.place a) = (offset == a) := by
    rw [Bool.eq_iff_iff, beq_iff_eq, beq_iff_eq, Swap.place_eq hoffset ha]
  have hstays : ((range.renumbered swap.place).isEmpty ||
        swap.place offset == (range.renumbered swap.place).start ||
        swap.place offset == (range.renumbered swap.place).stop) =
      (range.isEmpty || offset == range.start || offset == range.stop) := by
    rw [Swap.isEmpty_renumbered hrange, Span.renumbered, hends _ hrange.1, hends _ hrange.2]
  have hoverlap : other.moves.find? (·.range.overlaps (range.renumbered swap.place)) =
      (buffer.moves.find? (·.range.overlaps range)).map (·.renumbered swap.place) := by
    rw [h.other_eq]
    exact List.find?_of_map fun m hm => Swap.overlaps_renumbered (h.moves m hm).1 hrange
  have hconflict : other.replacements.findSome?
        (moveConflict? (range.renumbered swap.place) (swap.place offset)) = none ↔
      buffer.replacements.findSome? (moveConflict? range offset) = none := by
    rw [h.other_eq, List.findSome?_eq_none_iff, List.findSome?_eq_none_iff]
    simp only [List.forall_mem_map]
    exact forall₂_congr fun r hr =>
      moveConflict?_renumbered (h.replacements r hr) hrange hoffset
  dsimp only
  rw [hstays, Swap.containsInner_renumbered hrange hoffset, hoverlap]
  by_cases hmoved : (range.isEmpty || offset == range.start || offset == range.stop) = true
  · rw [if_pos hmoved, if_pos hmoved]
    exact .ok h
  rw [if_neg hmoved, if_neg hmoved]
  by_cases hinto : range.containsInner offset = true
  · rw [if_pos hinto, if_pos hinto]
    exact .error _ _
  rw [if_neg hinto, if_neg hinto]
  cases buffer.moves.find? (·.range.overlaps range) with
  | some move => exact .error _ _
  | none =>
    dsimp only [Option.map_none]
    cases hfound : buffer.replacements.findSome? (moveConflict? range offset) with
    | some refusal =>
      cases hother : other.replacements.findSome?
          (moveConflict? (range.renumbered swap.place) (swap.place offset)) with
      | some refusal' => exact .error _ _
      | none => simp [hconflict.mp hother] at hfound
    | none =>
      rw [hconflict.mpr hfound]
      refine .ok { h with other_eq := ?_, moves := ?_ }
      · rw [h.other_eq]
        simp [Move.renumbered]
      · intro m hm
        rcases List.mem_append.mp hm with hold | hnew
        · exact h.moves m hold
        · rw [List.mem_singleton.mp hnew]
          exact ⟨hrange, hoffset⟩

/-- An edit is accepted in both texts or in neither. -/
theorem apply_alongside (h : Carried swap buffer other) {edit : Edit} (hedit : edit.Outside swap) :
    Except.Alongside (Carried swap) (buffer.apply edit)
      (other.apply (edit.renumbered swap.place)) := by
  cases edit with
  | insertBefore offset text => exact insert_alongside h hedit .before text
  | insertAfter offset text => exact insert_alongside h hedit .after text
  | remove range => exact remove_alongside h hedit
  | overwrite range text => exact overwrite_alongside h hedit text
  | move range destination => exact moveRange_alongside h hedit.1 hedit.2
  | prepend text => exact .ok { h with other_eq := by rw [h.other_eq]; rfl }
  | append text => exact .ok { h with other_eq := by rw [h.other_eq]; rfl }

/-- Edits are all accepted in both texts, or refused from the same one on. -/
theorem applyUntil_alongside (h : Carried swap buffer other) {edits : List Edit}
    (hedits : ∀ edit ∈ edits, edit.Outside swap) :
    (∃ last last', buffer.applyUntil edits = (last, none) ∧
        other.applyUntil (edits.map (·.renumbered swap.place)) = (last', none) ∧
        Carried swap last last') ∨
      ∃ last last' refusal refusal', buffer.applyUntil edits = (last, some refusal) ∧
        other.applyUntil (edits.map (·.renumbered swap.place)) = (last', some refusal') := by
  induction edits generalizing buffer other with
  | nil => exact .inl ⟨buffer, other, rfl, rfl, h⟩
  | cons edit rest ih =>
    have hstep := apply_alongside h (hedits edit List.mem_cons_self)
    rw [List.map_cons, applyUntil, applyUntil]
    revert hstep
    generalize buffer.apply edit = result
    generalize other.apply (edit.renumbered swap.place) = result'
    intro hstep
    cases hstep with
    | ok hnext => exact ih hnext fun later hlater => hedits later (List.mem_cons_of_mem edit hlater)
    | error refusal refusal' => exact .inr ⟨_, _, refusal, refusal', rfl, rfl⟩

theorem applyAll_alongside (h : Carried swap buffer other) {edits : List Edit}
    (hedits : ∀ edit ∈ edits, edit.Outside swap) :
    Except.Alongside (Carried swap) (buffer.applyAll edits)
      (other.applyAll (edits.map (·.renumbered swap.place))) := by
  unfold applyAll
  rcases applyUntil_alongside h hedits with ⟨last, last', hrun, hrun', hlast⟩ |
    ⟨last, last', refusal, refusal', hrun, hrun'⟩
  · rw [hrun, hrun']
    exact .ok hlast
  · rw [hrun, hrun']
    exact .error refusal refusal'

end Edits

end EditBuffer

end TypedComponent
