import TypedComponent.Edit.Resolve

/-!
Looking up offsets in a finished map. The builder joins pieces that go on on
both sides, and looks for a generated offset from the end of the mappings that
begin before it. Neither can be seen: both look-ups give what a search from
the front through the pieces as they were written gives.
-/

namespace TypedComponent

namespace PositionMap

/-- The first mapping whose `own` span holds an offset carries it over to its
`other` span. -/
def lookUp (own other : Mapping → Span) (mappings : List Mapping) (offset : Nat) : Option Nat :=
  (mappings.find? fun mapping => (own mapping).contains offset).map fun mapping =>
    Mapping.carry (own mapping) (other mapping) offset

theorem lookUp_append (own other : Mapping → Span) (front rest : List Mapping) (offset : Nat) :
    lookUp own other (front ++ rest) offset =
      (lookUp own other front offset).or (lookUp own other rest offset) := by
  unfold lookUp
  rw [List.find?_append]
  cases front.find? fun mapping => (own mapping).contains offset <;> rfl

theorem lookUp_singleton (own other : Mapping → Span) (mapping : Mapping) (offset : Nat) :
    lookUp own other [mapping] offset =
      if (own mapping).contains offset then
        some (Mapping.carry (own mapping) (other mapping) offset)
      else none := by
  by_cases h : (own mapping).contains offset <;> simp [lookUp, h]

/-- Two mappings that map byte by byte and go on on both sides answer as the
one mapping that takes in both. -/
theorem lookUp_through (own other : Mapping → Span) (last next : Mapping) {merged : Mapping}
    (offset : Nat)
    (hown : own merged = (own last).through (own next))
    (hother : other merged = (other last).through (other next))
    (hownStop : (own last).stop = (own next).start)
    (hotherStop : (other last).stop = (other next).start)
    (hlast : (own last).length = (other last).length)
    (hnext : (own next).length = (other next).length)
    (hlastPos : 0 < (own last).length) (hnextPos : 0 < (own next).length) :
    lookUp own other [merged] offset = lookUp own other [last, next] offset := by
  have hpair : lookUp own other [last, next] offset =
      (lookUp own other [last] offset).or (lookUp own other [next] offset) :=
    lookUp_append own other [last] [next] offset
  rw [hpair]
  simp only [lookUp_singleton, hown, hother, Span.contains_iff, Span.through, Mapping.carry,
    Span.length] at *
  by_cases hin : (own last).start ≤ offset ∧ offset < (own last).stop
  · rw [if_pos (by omega), if_pos hin]
    simp only [Option.some_or, Option.some.injEq]
    omega
  · rw [if_neg hin, Option.none_or]
    by_cases hon : (own next).start ≤ offset ∧ offset < (own next).stop
    · rw [if_pos (by omega), if_pos hon]
      simp only [Option.some.injEq]
      omega
    · rw [if_neg (by omega), if_neg hon]

def Ordered (mappings : List Mapping) : Prop :=
  (∀ mapping ∈ mappings, mapping.generated.start < mapping.generated.stop) ∧
    mappings.Pairwise fun earlier later => earlier.generated.stop ≤ later.generated.start

/-- In ordered mappings nothing is found before the first of them. -/
theorem lookUp_none_of_before {mappings : List Mapping} {offset : Nat}
    (h : ∀ mapping ∈ mappings, offset < mapping.generated.start) :
    lookUp Mapping.generated Mapping.source mappings offset = none := by
  unfold lookUp
  rw [Option.map_eq_none_iff, List.find?_eq_none]
  intro mapping hmem
  have hlt := h mapping hmem
  rw [Span.contains_iff]
  omega

/-- The last mapping that begins at or before an offset is the only one that
can hold it. -/
theorem sourcePosition?_eq_lookUp {mappings : List Mapping} (h : Ordered mappings) (offset : Nat) :
    sourcePosition? ⟨mappings⟩ offset =
      lookUp Mapping.generated Mapping.source mappings offset := by
  induction mappings with
  | nil => rfl
  | cons first rest ih =>
    obtain ⟨hpos, hpairs⟩ := h
    rw [List.pairwise_cons] at hpairs
    have hfirst := hpos first (by simp)
    have hrest : Ordered rest := ⟨fun m hm => hpos m (by simp [hm]), hpairs.2⟩
    by_cases hle : first.generated.start ≤ offset
    · have hcons : lookUp Mapping.generated Mapping.source (first :: rest) offset =
          (lookUp Mapping.generated Mapping.source [first] offset).or
            (lookUp Mapping.generated Mapping.source rest offset) :=
        lookUp_append _ _ [first] rest offset
      rw [hcons, ← ih hrest, lookUp_singleton]
      cases rest with
      | nil => simp [sourcePosition?, hle]
      | cons second more =>
        by_cases hsecond : second.generated.start ≤ offset
        · have hstop := hpairs.1 second (by simp)
          have hout : first.generated.contains offset = false := by
            rw [← Bool.not_eq_true, Span.contains_iff]
            omega
          simp [sourcePosition?, hle, hsecond, hout]
        · simp [sourcePosition?, hle, hsecond]
    · have hbefore : ∀ mapping ∈ first :: rest, offset < mapping.generated.start := by
        intro mapping hmem
        rcases List.mem_cons.mp hmem with rfl | hin
        · omega
        · have hstop := hpairs.1 mapping hin
          omega
      rw [lookUp_none_of_before hbefore]
      simp [sourcePosition?, hle]

namespace Builder

/-- A builder that answers as a list of mappings, none of them joined. -/
structure Represents (builder : Builder) (written : List Mapping) : Prop where
  ordered : Ordered builder.reversed.reverse
  bounded : ∀ mapping ∈ builder.reversed, mapping.generated.stop ≤ builder.generatedLength
  back : ∀ offset, lookUp Mapping.generated Mapping.source builder.reversed.reverse offset =
    lookUp Mapping.generated Mapping.source written offset
  forth : ∀ offset, lookUp Mapping.source Mapping.generated builder.reversed.reverse offset =
    lookUp Mapping.source Mapping.generated written offset

theorem empty_represents : empty.Represents [] where
  ordered := ⟨by simp [empty], by simp [empty]⟩
  bounded := by simp [empty]
  back := fun _ => rfl
  forth := fun _ => rfl

theorem addGenerated_represents {builder : Builder} {written : List Mapping}
    (h : builder.Represents written) (text : Text) :
    (builder.addGenerated text).Represents written where
  ordered := h.ordered
  bounded := by
    intro mapping hmem
    have hbound := h.bounded mapping hmem
    simp only [addGenerated]
    omega
  back := h.back
  forth := h.forth

/-- What `addReplacing` writes before it joins anything. -/
def writtenBy (builder : Builder) (source : Span) (text : Text) : Mapping :=
  ⟨⟨builder.generatedLength, builder.generatedLength + Text.bytes text⟩, source⟩

theorem push_represents {builder : Builder} {written : List Mapping}
    (h : builder.Represents written) (source : Span) {text : Text} (htext : 0 < Text.bytes text) :
    Represents ⟨builder.writtenBy source text :: builder.reversed,
      builder.generatedLength + Text.bytes text⟩ (written ++ [builder.writtenBy source text]) where
  ordered := by
    obtain ⟨hpos, hpairs⟩ := h.ordered
    rw [List.reverse_cons]
    constructor
    · intro mapping hmem
      rcases List.mem_append.mp hmem with hold | hnew
      · exact hpos mapping hold
      · rw [List.mem_singleton.mp hnew]
        simp only [writtenBy]
        omega
    · rw [List.pairwise_append]
      refine ⟨hpairs, by simp, ?_⟩
      intro earlier hearlier later hlater
      rw [List.mem_singleton.mp hlater]
      exact h.bounded earlier (List.mem_reverse.mp hearlier)
  bounded := by
    intro mapping hmem
    rcases List.mem_cons.mp hmem with rfl | hold
    · exact Nat.le_refl _
    · exact Nat.le_trans (h.bounded mapping hold) (Nat.le_add_right _ _)
  back := by
    intro offset
    rw [List.reverse_cons, lookUp_append, lookUp_append, h.back]
  forth := by
    intro offset
    rw [List.reverse_cons, lookUp_append, lookUp_append, h.forth]

theorem join_represents {builder : Builder} {written earlier : List Mapping} {last : Mapping}
    (h : builder.Represents written) (hlast : builder.reversed = last :: earlier) (source : Span)
    {text : Text} (htext : 0 < Text.bytes text)
    (hcont : continues last (builder.writtenBy source text).generated source = true) :
    Represents ⟨⟨last.generated.through (builder.writtenBy source text).generated,
      last.source.through source⟩ :: earlier, builder.generatedLength + Text.bytes text⟩
      (written ++ [builder.writtenBy source text]) := by
  have hpush := push_represents h source htext
  have hlastPos : last.generated.start < last.generated.stop :=
    h.ordered.1 last (by simp [hlast])
  simp only [continues, Mapping.isVerbatim, Bool.and_eq_true, beq_iff_eq] at hcont
  obtain ⟨⟨⟨hverbatim, hlength⟩, hgenerated⟩, hsource⟩ := hcont
  have hnewPos : 0 < (builder.writtenBy source text).generated.length := by
    simp only [writtenBy, Span.length]
    omega
  have hlastLength : 0 < last.generated.length := by
    unfold Span.length
    omega
  have hlists : (last :: earlier).reverse ++ [builder.writtenBy source text] =
      earlier.reverse ++ [last, builder.writtenBy source text] := by simp
  constructor
  · obtain ⟨hpos, hpairs⟩ := hpush.ordered
    rw [List.reverse_cons, hlast, hlists] at hpos hpairs
    rw [List.pairwise_append] at hpairs
    rw [List.reverse_cons]
    constructor
    · intro mapping hmem
      rcases List.mem_append.mp hmem with hold | hnew
      · exact hpos mapping (by simp [hold])
      · rw [List.mem_singleton.mp hnew]
        simp only [Span.through, writtenBy] at hgenerated ⊢
        omega
    · rw [List.pairwise_append]
      refine ⟨hpairs.1, by simp, ?_⟩
      intro before hbefore after hafter
      rw [List.mem_singleton.mp hafter]
      exact hpairs.2.2 before hbefore last (by simp)
  · intro mapping hmem
    rcases List.mem_cons.mp hmem with rfl | hold
    · exact Nat.le_refl _
    · exact hpush.bounded mapping (by simp [hlast, hold])
  · intro offset
    rw [← hpush.back, List.reverse_cons, List.reverse_cons, hlast, hlists, lookUp_append,
      lookUp_append]
    rw [lookUp_through Mapping.generated Mapping.source last (builder.writtenBy source text)
      offset rfl rfl hgenerated hsource hverbatim hlength.symm hlastLength hnewPos]
  · intro offset
    rw [← hpush.forth, List.reverse_cons, List.reverse_cons, hlast, hlists, lookUp_append,
      lookUp_append]
    rw [lookUp_through Mapping.source Mapping.generated last (builder.writtenBy source text)
      offset rfl rfl hsource hgenerated hverbatim.symm hlength (by omega) (hlength ▸ hnewPos)]

end Builder

end PositionMap

end TypedComponent
