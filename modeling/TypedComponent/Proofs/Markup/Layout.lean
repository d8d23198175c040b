import Mathlib.Data.List.Chain
import TypedComponent.Proofs.Markup.Places
import TypedComponent.Proofs.Markup.Progress

/-!
The layout of a document: where its parts lie in the source and to each other.
What holds of one node is said of it alone, with its attributes and children, so
that a whole tree has the layout when each of its nodes has.
-/

namespace TypedComponent

/-- Spans that follow each other from one offset to another, with a gap before
each of them and behind the last. -/
def Span.InLine (gap : Nat → Nat → Prop) : Nat → List Span → Nat → Prop
  | start, [], stop => gap start stop
  | start, first :: others, stop =>
    gap start first.start ∧ first.start ≤ first.stop ∧ InLine gap first.stop others stop

/-- Spans in order, without overlap. -/
abbrev Span.Ordered : Nat → List Span → Nat → Prop := InLine (· ≤ ·)

/-- Spans that leave nothing out. -/
abbrev Span.Tiles : Nat → List Span → Nat → Prop := InLine (· = ·)

namespace Span.InLine

variable {gap : Nat → Nat → Prop} {start middle stop : Nat} {spans : List Span}

theorem mono {other : Nat → Nat → Prop} (hgap : ∀ a b, gap a b → other a b)
    (h : InLine gap start spans stop) : InLine other start spans stop := by
  induction spans generalizing start with
  | nil => exact hgap _ _ h
  | cons first others ih => exact ⟨hgap _ _ h.1, h.2.1, ih h.2.2⟩

theorem extend (htrans : ∀ a b c, gap a b → gap b c → gap a c)
    (h : InLine gap start spans middle) (hgap : gap middle stop) :
    InLine gap start spans stop := by
  induction spans generalizing start with
  | nil => exact htrans _ _ _ h hgap
  | cons first others ih => exact ⟨h.1, h.2.1, ih h.2.2⟩

/-- Another span behind those in line. -/
theorem concat {last : Span} (h : InLine gap start spans last.start)
    (hle : last.start ≤ last.stop) (hgap : gap last.stop stop) :
    InLine gap start (spans ++ [last]) stop := by
  induction spans generalizing start with
  | nil => exact ⟨h, hle, hgap⟩
  | cons first others ih => exact ⟨h.1, h.2.1, ih h.2.2⟩

end Span.InLine

namespace Span.Ordered

variable {start stop : Nat} {spans : List Span}

theorem le (h : Ordered start spans stop) : start ≤ stop := by
  induction spans generalizing start with
  | nil => exact h
  | cons first others ih => exact Nat.le_trans h.1 (Nat.le_trans h.2.1 (ih h.2.2))

theorem start_le (h : Ordered start spans stop) {span : Span} (hspan : span ∈ spans) :
    start ≤ span.start := by
  induction spans generalizing start with
  | nil => cases hspan
  | cons first others ih =>
    rcases List.mem_cons.mp hspan with rfl | hother
    · exact h.1
    · exact Nat.le_trans h.1 (Nat.le_trans h.2.1 (ih h.2.2 hother))

theorem weaken {earlier : Nat} (hle : earlier ≤ start) (h : Ordered start spans stop) :
    Ordered earlier spans stop := by
  cases spans with
  | nil => exact Nat.le_trans hle h
  | cons first others => exact ⟨Nat.le_trans hle h.1, h.2⟩

/-- Of spans in order each ends before the next begins. -/
theorem pairwise (h : Ordered start spans stop) :
    spans.Pairwise fun first second => first.stop ≤ second.start := by
  induction spans generalizing start with
  | nil => exact List.Pairwise.nil
  | cons first others ih =>
    exact List.pairwise_cons.mpr ⟨fun _ hother => start_le h.2.2 hother, ih h.2.2⟩

end Span.Ordered

theorem Text.slice_upTo {source : Text} {start stop : Cursor}
    (hstart : (Cursor.ofText source).Reaches start) (h : start.Reaches stop) :
    Text.slice source (start.upTo stop) = start.textTo stop := by
  obtain ⟨before, hbefore, hoffset⟩ := hstart
  have hsource : source = before ++ start.textTo stop ++ stop.rest := by
    rw [List.append_assoc, ← h.rest_eq]
    exact hbefore
  refine slice_of_append hsource ?_ ?_
  · simpa [Cursor.ofText, Cursor.upTo] using hoffset.symm
  · obtain ⟨passed, hpassed, hstop⟩ := h
    rw [Cursor.Reaches.textTo_eq hpassed hstop]
    simp only [Span.length, Cursor.upTo, hstop]
    omega

theorem Span.OnWay.liesIn {source : Text} {start stop : Cursor} {span : Span}
    (h : span.OnWay start stop) (hstart : (Cursor.ofText source).Reaches start) :
    span.LiesIn source := by
  obtain ⟨a, b, ha, hab, -, rfl⟩ := h
  exact (hstart.trans ha).upTo_liesIn hab

namespace Markup

variable {source : Text}

/-- A span in a text, and inside of it another one. -/
structure Nests (source : Text) (span inner : Span) : Prop where
  outer_liesIn : span.LiesIn source
  inner_liesIn : inner.LiesIn source
  start_le : span.start ≤ inner.start
  stop_le : inner.stop ≤ span.stop

theorem nests_upTo {a b c d : Cursor} (ha : (Cursor.ofText source).Reaches a) (hab : a.Reaches b)
    (hbc : b.Reaches c) (hcd : c.Reaches d) : Nests source (a.upTo d) (b.upTo c) where
  outer_liesIn := ha.upTo_liesIn (hab.trans (hbc.trans hcd))
  inner_liesIn := (ha.trans hab).upTo_liesIn hbc
  start_le := hab.offset_le
  stop_le := hcd.offset_le

namespace Fragment

/-- A text is what it spans, and an expression lies between its braces. -/
def Sound (source : Text) : Fragment → Prop
  | .text span raw => span.LiesIn source ∧ raw = Text.slice source span
  | .expression span inner => Nests source span inner

def isText : Fragment → Bool
  | .text .. => true
  | .expression .. => false

/-- What can follow each other in a value: no two texts. -/
def CanFollow (first second : Fragment) : Prop := (first.isText && second.isText) = false

/-- The fragments of a value: each in its place, without gaps, and never two
texts in a row. -/
structure InValue (source : Text) (start : Nat) (values : List Fragment) (stop : Nat) : Prop where
  sound : ∀ value ∈ values, value.Sound source
  tiles : Span.Tiles start (values.map span) stop
  mixed : values.IsChain CanFollow

theorem Row.inValue {start stop : Cursor} {values : List Fragment}
    (hstart : (Cursor.ofText source).Reaches start) (h : Row start values stop) :
    InValue source start.offset values stop.offset := by
  induction h with
  | nil place => exact ⟨List.forall_mem_nil _, rfl, List.IsChain.nil⟩
  | @text a b c others reaches apart rest ih =>
    obtain ⟨sound, tiles, mixed⟩ := ih (hstart.trans reaches)
    refine ⟨List.forall_mem_cons.mpr ⟨⟨hstart.upTo_liesIn reaches, ?_⟩, sound⟩,
      ⟨rfl, reaches.offset_le, tiles⟩, ?_⟩
    · exact (Text.slice_upTo hstart reaches).symm
    · cases others with
      | nil => exact List.IsChain.singleton _
      | cons next more =>
        refine List.IsChain.cons_cons ?_ mixed
        cases next with
        | text span raw => exact absurd rfl (apart span raw)
        | expression span inner => rfl
  | @expression a inside close after c others braced closing rest ih =>
    have opening := braced.opening
    have inner := braced.inner
    have hafter := (opening.trans inner).trans closing
    obtain ⟨sound, tiles, mixed⟩ := ih (hstart.trans hafter)
    refine ⟨List.forall_mem_cons.mpr ⟨nests_upTo hstart opening inner closing, sound⟩,
      ⟨rfl, hafter.offset_le, tiles⟩, ?_⟩
    cases others with
    | nil => exact List.IsChain.singleton _
    | cons next more => exact List.IsChain.cons_cons rfl mixed

end Fragment

namespace Attribute

/-- An attribute spans its value or its expression. -/
def Sound (source : Text) : Attribute → Prop
  | .named span _ values => span.LiesIn source ∧ ∃ start stop, span.start ≤ start ∧
      Fragment.InValue source start values stop ∧ stop ≤ span.stop
  | .spread span inner => Nests source span inner

theorem Along.sound {start stop : Cursor} {attr : Attribute}
    (hstart : (Cursor.ofText source).Reaches start) (h : attr.Along start stop) :
    attr.Sound source ∧ attr.span = start.upTo stop ∧ start.Reaches stop := by
  cases attr with
  | named span name values =>
    obtain ⟨rfl, first, last, hfirst, hrow, hlast⟩ := h
    have hreach := hfirst.trans (hrow.reaches.trans hlast)
    exact ⟨⟨hstart.upTo_liesIn hreach, first.offset, last.offset, hfirst.offset_le,
      hrow.inValue (hstart.trans hfirst), hlast.offset_le⟩, rfl, hreach⟩
  | spread span inner =>
    obtain ⟨rfl, inside, close, hinside, hclose, hstop, rfl⟩ := h
    exact ⟨nests_upTo hstart hinside hclose hstop, rfl, hinside.trans (hclose.trans hstop)⟩

/-- Nothing but separators between two offsets. -/
def OnlySeparators (source : Text) (start stop : Nat) : Prop :=
  start ≤ stop ∧ ∀ c ∈ Text.slice source ⟨start, stop⟩, isSeparator c = true

theorem Row.sound {errors : List Error} {start stop : Cursor} {attributes : List Attribute}
    (hstart : (Cursor.ofText source).Reaches start) (h : Row errors start attributes stop) :
    (∀ attr ∈ attributes, attr.Sound source) ∧
      Span.Ordered start.offset (attributes.map span) stop.offset ∧
      (errors = [] →
        Span.InLine (OnlySeparators source) start.offset (attributes.map span) stop.offset) := by
  have hgap {a b : Cursor} (ha : (Cursor.ofText source).Reaches a) (h : Spaced errors a b) :
      a.offset ≤ b.offset ∧ (errors = [] → OnlySeparators source a.offset b.offset) := by
    refine ⟨h.1.offset_le, fun hnone => ⟨h.1.offset_le, ?_⟩⟩
    have hslice := Text.slice_upTo ha h.1
    rw [Cursor.upTo] at hslice
    rw [hslice]
    exact h.2 hnone
  induction h with
  | nil gap =>
    obtain ⟨hle, hseparated⟩ := hgap hstart gap
    exact ⟨List.forall_mem_nil _, hle, hseparated⟩
  | cons gap along rest ih =>
    obtain ⟨hle, hseparated⟩ := hgap hstart gap
    have hfirst := hstart.trans gap.1
    obtain ⟨hsound, hspan, hreach⟩ := along.sound hfirst
    obtain ⟨hsounds, hordered, hspaced⟩ := ih (hfirst.trans hreach)
    refine ⟨List.forall_mem_cons.mpr ⟨hsound, hsounds⟩, ?_, fun hnone => ?_⟩
    · rw [List.map_cons, hspan]
      exact ⟨hle, hreach.offset_le, hordered⟩
    · rw [List.map_cons, hspan]
      exact ⟨hseparated hnone, hreach.offset_le, hspaced hnone⟩

end Attribute

/-- Attributes in order inside of a span, and behind them the parts that have
them. -/
structure Arranged (source : Text) (span : Span) (attributes : List Attribute)
    (parts : List Span) : Prop where
  span_liesIn : span.LiesIn source
  attributes_sound : ∀ attr ∈ attributes, attr.Sound source
  ordered : ∃ place, Span.Ordered span.start (attributes.map Attribute.span) place ∧
    Span.Ordered place parts span.stop

/-- The source of an opening tag: the sign and the name, the attributes with
nothing but separators around them, and the sign at the end. -/
def IsOpeningTag (source : Text) (name : Text) (attributes : List Attribute) (span : Span) : Prop :=
  ∃ afterName sign, Text.slice source ⟨span.start, afterName⟩ = '<' :: name ∧
    Span.InLine (Attribute.OnlySeparators source) afterName (attributes.map Attribute.span) sign ∧
    Text.slice source ⟨sign, span.stop⟩ = ['>']

namespace Node

/-- A node spans its attributes and, behind them, its children. -/
def Sound (source : Text) : Node → Prop
  | .element span _ attributes _ children =>
    Arranged source span attributes (children.map Node.span)
  | .text span _ | .comment span => span.LiesIn source
  | .mustache span inner _ => Nests source span inner

/-- An element that can have children has both its tags, and the children fill
all that is between them. -/
def Closed (source : Text) : Node → Prop
  | .element span name attributes selfClosing children =>
    selfClosing = true ∨ isVoid name = true ∨ (isScriptName name || isStyleName name) = true ∨
      ∃ inside ending, IsOpeningTag source name attributes ⟨span.start, inside⟩ ∧
        Span.Tiles inside (children.map Node.span) ending ∧
        IsClosingTag name (Text.slice source ⟨ending, span.stop⟩)
  | _ => True

end Node

end Markup

end TypedComponent
