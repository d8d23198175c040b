import Mathlib.Data.List.Basic
import TypedComponent.Proofs.Edit.Records

/-!
Edits that get along. A buffer holds an edit against the edits before it, one by
one, so edits that fit the source and of which any two get along are accepted
all together.
-/

namespace TypedComponent

namespace Edit

/-- The range whose text an edit replaces. -/
def replaced? : Edit → Option Span
  | remove range | overwrite range _ => some range
  | _ => none

/-- The offset at which an edit inserts. -/
def insertedAt? : Edit → Option Nat
  | insertBefore offset _ | insertAfter offset _ => some offset
  | _ => none

/-- The places of an edit lie between characters of the source and in order. -/
def Fits (source : Text) : Edit → Prop
  | insertBefore offset _ | insertAfter offset _ => Text.isBoundary source offset = true
  | remove range =>
    Text.isBoundary source range.start = true ∧ Text.isBoundary source range.stop = true ∧
      range.start ≤ range.stop
  | overwrite range _ =>
    Text.isBoundary source range.start = true ∧ Text.isBoundary source range.stop = true ∧
      range.start < range.stop
  | move range destination =>
    Text.isBoundary source range.start = true ∧ Text.isBoundary source range.stop = true ∧
      range.start ≤ range.stop ∧ Text.isBoundary source destination = true ∧
      range.containsInner destination = false
  | prepend _ | append _ => True

/-- An edit does not point into text that another replaces, and moves all of
that text or nothing of it. -/
structure Spares (own other : Edit) : Prop where
  inserted : ∀ offset ∈ own.insertedAt?, ∀ range ∈ other.replaced?,
    range.containsInner offset = false
  destination : ∀ move ∈ own.relocation?, ∀ range ∈ other.replaced?,
    range.containsInner move.destination = false
  moved : ∀ move ∈ own.relocation?, ∀ range ∈ other.replaced?,
    move.range.Apart range ∨ move.range.containsSpan range = true

/-- Neither of two edits stands in the way of the other. Only a removal may be
made twice. -/
structure GetsAlong (first second : Edit) : Prop where
  spares : first.Spares second
  spared : second.Spares first
  replaced : ∀ range ∈ first.replaced?, ∀ other ∈ second.replaced?,
    range.Apart other ∨ (first = .remove range ∧ second = .remove range)
  moves : ∀ move ∈ first.relocation?, ∀ other ∈ second.relocation?,
    move.range.Apart other.range

theorem GetsAlong.symm {first second : Edit} (h : first.GetsAlong second) :
    second.GetsAlong first where
  spares := h.spared
  spared := h.spares
  replaced := by
    intro range hrange other hother
    rcases h.replaced other hother range hrange with hapart | ⟨rfl, rfl⟩
    · exact .inl hapart.symm
    · cases hrange
      exact .inr ⟨rfl, rfl⟩
  moves := fun move hmove other hother => (h.moves other hother move hmove).symm

/-- The stretch of the source that an edit changes. An insertion changes the empty
stretch at its offset. -/
def stretch? : Edit → Option Span
  | insertBefore offset _ | insertAfter offset _ => some ⟨offset, offset⟩
  | remove range | overwrite range _ => some range
  | move .. | prepend _ | append _ => none

theorem stretch?_of_replaced {edit : Edit} {range : Span} (h : range ∈ edit.replaced?) :
    range ∈ edit.stretch? := by
  cases edit <;> first | exact h | cases h

theorem stretch?_of_insertedAt {edit : Edit} {offset : Nat} (h : offset ∈ edit.insertedAt?) :
    ⟨offset, offset⟩ ∈ edit.stretch? := by
  cases edit <;> cases h <;> rfl

section Stretches

variable {first second : Edit}

theorem spares_of_unreplaced (hreplaced : second.replaced? = none) : first.Spares second := by
  have hnone : ∀ range, range ∉ second.replaced? := by
    intro range hrange
    rw [hreplaced] at hrange
    cases hrange
  exact {
    inserted := fun _ _ range hrange => absurd hrange (hnone range)
    destination := fun _ _ range hrange => absurd hrange (hnone range)
    moved := fun _ _ range hrange => absurd hrange (hnone range) }

/-- What an edit that moves nothing can be in the way of is where it inserts. -/
theorem spares_of_inserted (hmoves : first.relocation? = none)
    (hinserted : ∀ offset ∈ first.insertedAt?, ∀ range ∈ second.replaced?,
      range.containsInner offset = false) : first.Spares second where
  inserted := hinserted
  destination := by
    intro move hmove
    rw [hmoves] at hmove
    cases hmove
  moved := by
    intro move hmove
    rw [hmoves] at hmove
    cases hmove

theorem spares_of_unmarked (hmoves : first.relocation? = none)
    (hinserted : first.insertedAt? = none) : first.Spares second := by
  apply spares_of_inserted hmoves
  intro offset hoffset
  rw [hinserted] at hoffset
  cases hoffset

/-- An edit that only adds to the ends of the code is in no other's way. -/
theorem getsAlong_of_no_stretch (hstretch : second.stretch? = none)
    (hmoves : second.relocation? = none) : first.GetsAlong second := by
  have hreplaced : second.replaced? = none := by
    rw [Option.eq_none_iff_forall_not_mem]
    intro range hrange
    have hmem := stretch?_of_replaced hrange
    rw [hstretch] at hmem
    cases hmem
  have hinserted : second.insertedAt? = none := by
    rw [Option.eq_none_iff_forall_not_mem]
    intro offset hoffset
    have hmem := stretch?_of_insertedAt hoffset
    rw [hstretch] at hmem
    cases hmem
  exact {
    spares := spares_of_unreplaced hreplaced
    spared := spares_of_unmarked hmoves hinserted
    replaced := by
      intro range _ other hother
      rw [hreplaced] at hother
      cases hother
    moves := by
      intro move _ other hother
      rw [hmoves] at hother
      cases hother }

theorem spares_of_apart (hmoves : first.relocation? = none)
    (hapart : ∀ own ∈ first.stretch?, ∀ other ∈ second.stretch?, own.Apart other) :
    first.Spares second := by
  apply spares_of_inserted hmoves
  intro offset hoffset range hrange
  have hclear := hapart _ (stretch?_of_insertedAt hoffset) range (stretch?_of_replaced hrange)
  rw [← Bool.not_eq_true, Span.containsInner_iff]
  unfold Span.Apart at hclear
  dsimp only at hclear
  omega

/-- Edits that move nothing get along if the stretches that they change are apart. -/
theorem getsAlong_of_apart (hfirst : first.relocation? = none) (hsecond : second.relocation? = none)
    (hapart : ∀ own ∈ first.stretch?, ∀ other ∈ second.stretch?, own.Apart other) :
    first.GetsAlong second where
  spares := spares_of_apart hfirst hapart
  spared := spares_of_apart hsecond fun own hown other hother => (hapart other hother own hown).symm
  replaced := fun range hrange other hother =>
    .inl (hapart range (stretch?_of_replaced hrange) other (stretch?_of_replaced hother))
  moves := by
    intro move hmove
    rw [hfirst] at hmove
    cases hmove

theorem remove_getsAlong_self (range : Span) : (remove range).GetsAlong (remove range) :=
  have hspares : (remove range).Spares (remove range) := spares_of_unmarked rfl rfl
  { spares := hspares
    spared := hspares
    replaced := by
      intro own hown other hother
      cases hown
      cases hother
      exact .inr ⟨rfl, rfl⟩
    moves := by
      intro own hown
      cases hown }

/-- A move gets along with an edit that changes text outside the moved range or
inside of it, and nothing around the destination. -/
theorem move_getsAlong {range : Span} {destination : Nat} (hmoves : second.relocation? = none)
    (hdestination : ∀ own ∈ second.stretch?, own.containsInner destination = false)
    (hrange : ∀ own ∈ second.stretch?, range.Apart own ∨ range.containsSpan own = true) :
    (move range destination).GetsAlong second where
  spares :=
    have hmove : ∀ own ∈ (move range destination).relocation?, own = ⟨range, destination⟩ := by
      intro own hown
      simp only [relocation?, Option.mem_def, Option.ite_none_left_eq_some,
        Option.some.injEq] at hown
      exact hown.2.symm
    { inserted := by
        intro offset hoffset
        cases hoffset
      destination := by
        intro own hown other hother
        rw [hmove own hown]
        exact hdestination other (stretch?_of_replaced hother)
      moved := by
        intro own hown other hother
        rw [hmove own hown]
        exact hrange other (stretch?_of_replaced hother) }
  spared := spares_of_unreplaced rfl
  replaced := by
    intro own hown
    cases hown
  moves := by
    intro own _ other hother
    rw [hmoves] at hother
    cases hother

end Stretches

end Edit

namespace EditBuffer

section Acceptance

variable {source : Text} {edits : List Edit} {buffer next : EditBuffer}

/-- What a buffer leaves out are ranges that edits remove. -/
def RemovesOnly (edits : List Edit) (buffer : EditBuffer) : Prop :=
  ∀ range, ⟨range, none⟩ ∈ buffer.replacements → Edit.remove range ∈ edits

theorem apply_removesOnly {edit : Edit} (h : buffer.RemovesOnly edits)
    (hok : buffer.apply edit = .ok next) : next.RemovesOnly (edits ++ [edit]) := by
  have hkeeps (hsame : next.replacements = buffer.replacements) :
      next.RemovesOnly (edits ++ [edit]) := by
    intro range hrange
    rw [hsame] at hrange
    exact List.mem_append_left _ (h range hrange)
  cases edit with
  | insertBefore offset text =>
    obtain ⟨-, -, hnext⟩ := insert_ok.mp hok
    apply hkeeps
    rw [hnext]
    split <;> rfl
  | insertAfter offset text =>
    obtain ⟨-, -, hnext⟩ := insert_ok.mp hok
    apply hkeeps
    rw [hnext]
    split <;> rfl
  | remove range =>
    obtain ⟨-, -, -, ⟨rfl, -⟩ | ⟨-, rfl, -⟩⟩ := remove_ok hok
    · exact hkeeps rfl
    · intro other hother
      rcases List.mem_append.mp hother with hold | hnew
      · exact List.mem_append_left _ (h other (List.mem_filter.mp hold).1)
      · cases List.mem_singleton.mp hnew
        exact List.mem_append_right _ (List.mem_singleton.mpr rfl)
  | overwrite range text =>
    obtain ⟨-, -, -, -, -, -, -, rfl⟩ := overwrite_ok.mp hok
    intro other hother
    rcases List.mem_append.mp hother with hold | hnew
    · exact List.mem_append_left _ (h other hold)
    · cases List.mem_singleton.mp hnew
  | move range destination =>
    obtain ⟨-, -, -, -, hcases⟩ := moveRange_ok.mp hok
    rcases hcases with ⟨-, rfl⟩ | ⟨-, -, -, -, rfl⟩ <;> exact hkeeps rfl
  | prepend text =>
    cases hok
    exact hkeeps rfl
  | append text =>
    cases hok
    exact hkeeps rfl

/-- What a buffer replaces are ranges that edits replace. -/
theorem Records.replaced_of_mem (h : buffer.Records source edits)
    (honly : buffer.RemovesOnly edits) {r : Replacement} (hr : r ∈ buffer.replacements) :
    ∃ edit ∈ edits, edit.replaced? = some r.range ∧
      (edit = .remove r.range → r.text = none) := by
  obtain ⟨range, text⟩ := r
  cases text with
  | none => exact ⟨_, honly range hr, rfl, fun _ => rfl⟩
  | some text => exact ⟨_, (h.overwritten_iff range text).mp hr, rfl, fun heq => nomatch heq⟩

theorem Records.insertedAt_of_mem (h : buffer.Records source edits) {i : Insertion}
    (hi : i ∈ buffer.insertions) : ∃ edit ∈ edits, edit.insertedAt? = some i.offset := by
  rw [h.insertions_eq] at hi
  obtain ⟨edit, hedit, hinsertion⟩ := List.mem_filterMap.mp hi
  refine ⟨edit, hedit, ?_⟩
  cases edit with
  | insertBefore offset text =>
    simp only [Edit.insertion?, Option.ite_none_left_eq_some, Option.some.injEq] at hinsertion
    rw [← hinsertion.2]
    rfl
  | insertAfter offset text =>
    simp only [Edit.insertion?, Option.ite_none_left_eq_some, Option.some.injEq] at hinsertion
    rw [← hinsertion.2]
    rfl
  | _ => cases hinsertion

theorem Records.relocation_of_mem (h : buffer.Records source edits) {m : Move}
    (hm : m ∈ buffer.moves) : ∃ edit ∈ edits, edit.relocation? = some m := by
  rw [h.moves_eq] at hm
  exact List.mem_filterMap.mp hm

/-- Replacements that are apart from a range or remove just that range do not
keep it from being removed. -/
theorem absorb?_of_apart {range : Span} {replacements : List Replacement}
    (h : ∀ r ∈ replacements, r.range.Apart range ∨ (r.text = none ∧ r.range = range)) :
    ∃ outcome, absorb? range replacements = .ok outcome := by
  induction replacements with
  | nil => exact ⟨_, rfl⟩
  | cons earlier rest ih =>
    obtain ⟨outcome, hrest⟩ := ih fun r hr => h r (List.mem_cons_of_mem _ hr)
    rw [absorb?]
    rcases h earlier List.mem_cons_self with hapart | ⟨hnone, hsame⟩
    · rw [(Span.overlaps_eq_false _ _).mpr hapart, hrest]
      exact ⟨_, rfl⟩
    · have hcovers : earlier.range.containsSpan range = true :=
        (Span.containsSpan_iff _ _).mpr (by rw [hsame]; omega)
      rw [hnone, hcovers]
      by_cases hmeets : earlier.range.overlaps range = true
      · rw [if_pos hmeets]
        exact ⟨_, rfl⟩
      · rw [if_neg hmeets, hrest]
        exact ⟨_, rfl⟩

theorem remove_accepts {range : Span} (hstart : buffer.IsPlace range.start)
    (hstop : buffer.IsPlace range.stop) (hle : range.start ≤ range.stop)
    (hreplaced : ∀ r ∈ buffer.replacements,
      r.range.Apart range ∨ (r.text = none ∧ r.range = range))
    (hinsertions : ∀ i ∈ buffer.insertions, range.containsInner i.offset = false)
    (hdestinations : ∀ m ∈ buffer.moves, range.containsInner m.destination = false)
    (hmoves : ∀ m ∈ buffer.moves, m.range.crosses range = false) :
    ∃ next, buffer.remove range = .ok next := by
  have hchecked : buffer.checkRange range = .ok () := checkRange_ok.mpr ⟨hstart, hstop, hle⟩
  have hinside : buffer.checkNothingInside range = .ok () :=
    checkNothingInside_ok.mpr ⟨hinsertions, hdestinations⟩
  obtain ⟨outcome, habsorb⟩ := absorb?_of_apart hreplaced
  have hcrossed : buffer.moves.find? (·.range.crosses range) = none := by
    rw [List.find?_eq_none]
    intro m hm
    simp [hmoves m hm]
  unfold remove
  rw [hchecked, habsorb]
  cases hempty : range.isEmpty with
  | true => exact ⟨buffer, rfl⟩
  | false =>
    cases outcome with
    | none => exact ⟨buffer, rfl⟩
    | some kept =>
      dsimp only [bind, Except.bind]
      rw [hinside, hcrossed]
      exact ⟨_, rfl⟩

theorem Records.isPlace (h : buffer.Records source edits) {offset : Nat}
    (hoffset : Text.isBoundary source offset = true) : buffer.IsPlace offset := by
  unfold IsPlace
  rwa [h.source_eq]

section AlongAll

variable {edit : Edit} {range : Span}

/-- Nothing has been inserted inside the range that an edit replaces. -/
theorem Records.inserted_outside (h : buffer.Records source edits)
    (halong : ∀ earlier ∈ edits, earlier.GetsAlong edit) (hrange : edit.replaced? = some range) :
    ∀ i ∈ buffer.insertions, range.containsInner i.offset = false := by
  intro i hi
  obtain ⟨earlier, hearlier, hat⟩ := h.insertedAt_of_mem hi
  exact (halong earlier hearlier).spares.inserted _ hat _ hrange

/-- Nothing has been moved into the range that an edit replaces. -/
theorem Records.destination_outside (h : buffer.Records source edits)
    (halong : ∀ earlier ∈ edits, earlier.GetsAlong edit) (hrange : edit.replaced? = some range) :
    ∀ m ∈ buffer.moves, range.containsInner m.destination = false := by
  intro m hm
  obtain ⟨earlier, hearlier, hmove⟩ := h.relocation_of_mem hm
  exact (halong earlier hearlier).spares.destination _ hmove _ hrange

/-- All of the range that an edit replaces has been moved, or nothing of it. -/
theorem Records.moved_whole (h : buffer.Records source edits)
    (halong : ∀ earlier ∈ edits, earlier.GetsAlong edit) (hrange : edit.replaced? = some range) :
    ∀ m ∈ buffer.moves, m.range.Apart range ∨ m.range.containsSpan range = true := by
  intro m hm
  obtain ⟨earlier, hearlier, hmove⟩ := h.relocation_of_mem hm
  exact (halong earlier hearlier).spares.moved _ hmove _ hrange

theorem Records.insert_accepts (h : buffer.Records source edits) (honly : buffer.RemovesOnly edits)
    (halong : ∀ earlier ∈ edits, earlier.GetsAlong edit) {offset : Nat} (side : Side) (text : Text)
    (hoffset : Text.isBoundary source offset = true) (hat : edit.insertedAt? = some offset) :
    ∃ next, buffer.insert offset side text = .ok next := by
  refine ⟨_, insert_ok.mpr ⟨h.isPlace hoffset, ?_, rfl⟩⟩
  intro r hr
  obtain ⟨earlier, hearlier, hrange, -⟩ := h.replaced_of_mem honly hr
  exact (halong earlier hearlier).spared.inserted _ hat _ hrange

theorem Records.remove_accepts (h : buffer.Records source edits) (honly : buffer.RemovesOnly edits)
    (hfits : (Edit.remove range).Fits source)
    (halong : ∀ earlier ∈ edits, earlier.GetsAlong (.remove range)) :
    ∃ next, buffer.remove range = .ok next := by
  obtain ⟨hstart, hstop, hle⟩ := hfits
  refine EditBuffer.remove_accepts (h.isPlace hstart) (h.isPlace hstop) hle ?_
    (h.inserted_outside halong rfl) (h.destination_outside halong rfl) ?_
  · intro r hr
    obtain ⟨earlier, hearlier, hrange, hremoval⟩ := h.replaced_of_mem honly hr
    rcases (halong earlier hearlier).replaced _ hrange range rfl with hapart | ⟨rfl, hsame⟩
    · exact .inl hapart
    · cases hsame
      exact .inr ⟨hremoval rfl, rfl⟩
  · intro m hm
    rw [Span.crosses_eq_false]
    rcases h.moved_whole halong rfl m hm with hapart | hwhole
    · exact .inl hapart
    · exact .inr (.inl hwhole)

theorem Records.overwrite_accepts {text : Text} (h : buffer.Records source edits)
    (honly : buffer.RemovesOnly edits) (hfits : (Edit.overwrite range text).Fits source)
    (halong : ∀ earlier ∈ edits, earlier.GetsAlong (.overwrite range text)) :
    ∃ next, buffer.overwrite range text = .ok next := by
  obtain ⟨hstart, hstop, hlt⟩ := hfits
  refine ⟨_, overwrite_ok.mpr ⟨h.isPlace hstart, h.isPlace hstop, hlt, ?_,
    h.inserted_outside halong rfl, h.destination_outside halong rfl, ?_, rfl⟩⟩
  · intro r hr
    obtain ⟨earlier, hearlier, hrange, -⟩ := h.replaced_of_mem honly hr
    rcases (halong earlier hearlier).replaced _ hrange range rfl with hapart | ⟨-, hsame⟩
    · exact (Span.overlaps_eq_false _ _).mpr hapart
    · cases hsame
  · intro m hm hmeets
    rcases h.moved_whole halong rfl m hm with hapart | hwhole
    · rw [(Span.overlaps_eq_false _ _).mpr hapart] at hmeets
      cases hmeets
    · exact hwhole

theorem Records.moveRange_accepts {destination : Nat} (h : buffer.Records source edits)
    (honly : buffer.RemovesOnly edits) (hfits : (Edit.move range destination).Fits source)
    (halong : ∀ earlier ∈ edits, earlier.GetsAlong (.move range destination)) :
    ∃ next, buffer.moveRange range destination = .ok next := by
  obtain ⟨hstart, hstop, hle, hdestination, hinner⟩ := hfits
  by_cases hstays : Stays range destination
  · exact ⟨buffer, moveRange_ok.mpr
      ⟨h.isPlace hstart, h.isPlace hstop, hle, h.isPlace hdestination, .inl ⟨hstays, rfl⟩⟩⟩
  · have hmoves : (Edit.move range destination).relocation? = some ⟨range, destination⟩ :=
      if_neg hstays
    refine ⟨_, moveRange_ok.mpr ⟨h.isPlace hstart, h.isPlace hstop, hle, h.isPlace hdestination,
      .inr ⟨hstays, hinner, ?_, ?_, rfl⟩⟩⟩
    · intro m hm
      obtain ⟨earlier, hearlier, hmove⟩ := h.relocation_of_mem hm
      exact (Span.overlaps_eq_false _ _).mpr
        ((halong earlier hearlier).moves _ hmove _ hmoves)
    · intro r hr
      obtain ⟨earlier, hearlier, hrange, -⟩ := h.replaced_of_mem honly hr
      have hspares := (halong earlier hearlier).spared
      refine ⟨hspares.destination _ hmoves _ hrange, ?_⟩
      intro hmeets
      rcases hspares.moved _ hmoves _ hrange with hapart | hwhole
      · rw [(Span.overlaps_eq_false _ _).mpr hapart.symm] at hmeets
        cases hmeets
      · exact hwhole

/-- An edit that gets along with all edits before it is accepted. -/
theorem Records.accepts (h : buffer.Records source edits) (honly : buffer.RemovesOnly edits)
    (hfits : edit.Fits source) (halong : ∀ earlier ∈ edits, earlier.GetsAlong edit) :
    ∃ next, buffer.apply edit = .ok next := by
  cases edit with
  | insertBefore offset text => exact h.insert_accepts honly halong .before text hfits rfl
  | insertAfter offset text => exact h.insert_accepts honly halong .after text hfits rfl
  | remove range => exact h.remove_accepts honly hfits halong
  | overwrite range text => exact h.overwrite_accepts honly hfits halong
  | move range destination => exact h.moveRange_accepts honly hfits halong
  | prepend text => exact ⟨_, rfl⟩
  | append text => exact ⟨_, rfl⟩

end AlongAll

theorem applyUntil_append {front rest : List Edit} {last : EditBuffer} :
    buffer.applyUntil (front ++ rest) = (last, none) ↔
      ∃ between, buffer.applyUntil front = (between, none) ∧
        between.applyUntil rest = (last, none) := by
  induction front generalizing buffer with
  | nil => simp [applyUntil]
  | cons edit front ih =>
    rw [List.cons_append, applyUntil, applyUntil]
    cases buffer.apply edit with
    | error refusal => simp
    | ok next => exact ih

/-- A buffer takes edits if it accepts all of them. -/
def Takes (buffer : EditBuffer) (edits : List Edit) : Prop :=
  ∃ last, buffer.applyUntil edits = (last, none)

theorem Takes.front {front rest : List Edit} (h : buffer.Takes (front ++ rest)) :
    buffer.Takes front := by
  obtain ⟨last, hlast⟩ := h
  obtain ⟨between, hfront, -⟩ := applyUntil_append.mp hlast
  exact ⟨between, hfront⟩

theorem Takes.rest {front rest : List Edit} {between : EditBuffer}
    (h : buffer.Takes (front ++ rest)) (hfront : buffer.applyUntil front = (between, none)) :
    between.Takes rest := by
  obtain ⟨last, hlast⟩ := h
  obtain ⟨other, hother, hrest⟩ := applyUntil_append.mp hlast
  cases hfront.symm.trans hother
  exact ⟨last, hrest⟩

/-- Edits that fit a source and get along with each other are all accepted. -/
theorem takes_of_getsAlong {edits : List Edit} (hfits : ∀ edit ∈ edits, edit.Fits source)
    (halong : edits.Pairwise Edit.GetsAlong) : (ofText source).Takes edits := by
  have haccepts (earlier rest : List Edit) (buffer : EditBuffer)
      (h : buffer.Records source earlier) (honly : buffer.RemovesOnly earlier)
      (hfits : ∀ edit ∈ rest, edit.Fits source)
      (halong : (earlier ++ rest).Pairwise Edit.GetsAlong) : buffer.Takes rest := by
    induction rest generalizing earlier buffer with
    | nil => exact ⟨buffer, rfl⟩
    | cons edit rest ih =>
      have hearlier : ∀ e ∈ earlier, e.GetsAlong edit := fun e he =>
        (List.pairwise_append.mp halong).2.2 e he edit List.mem_cons_self
      obtain ⟨next, hok⟩ := h.accepts honly (hfits edit List.mem_cons_self) hearlier
      rw [List.append_cons] at halong
      obtain ⟨last, hlast⟩ := ih (earlier ++ [edit]) next (apply_records h hok)
        (apply_removesOnly honly hok) (fun e he => hfits e (List.mem_cons_of_mem _ he)) halong
      refine ⟨last, ?_⟩
      rw [applyUntil, hok]
      exact hlast
  exact haccepts [] edits (ofText source) (ofText_records source)
    (fun _ hrange => absurd hrange List.not_mem_nil) hfits halong

end Acceptance

end EditBuffer

end TypedComponent
