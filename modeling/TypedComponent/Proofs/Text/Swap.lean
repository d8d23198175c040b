import TypedComponent.Proofs.Markup.Renumbering
import TypedComponent.Proofs.Text.Cells

/-!
Two texts that differ in one stretch. What stands before the stretch and behind
it is the same in both, and every offset that does not lie strictly inside of
the stretch has its place in the second text. Places come in the order of their
offsets, and between two of them the texts are the same unless the stretch lies
between.
-/

namespace TypedComponent

/-- A text with a stretch of it replaced. Neither what is taken out nor what is
put in is empty, so that the ends of the stretch are apart in both texts. -/
structure Swap where
  before : Text
  old : Text
  new : Text
  after : Text
  old_ne : old ≠ []
  new_ne : new ≠ []

namespace Swap

def first (swap : Swap) : Text := swap.before ++ swap.old ++ swap.after

def second (swap : Swap) : Text := swap.before ++ swap.new ++ swap.after

/-- The stretch that is replaced. -/
def span (swap : Swap) : Span :=
  ⟨Text.bytes swap.before, Text.bytes swap.before + Text.bytes swap.old⟩

/-- Where an offset of the first text is in the second. -/
def place (swap : Swap) (offset : Nat) : Nat :=
  if offset ≤ Text.bytes swap.before then offset
  else offset + Text.bytes swap.new - Text.bytes swap.old

/-- The offset is not strictly inside of the stretch. -/
def Outside (swap : Swap) (offset : Nat) : Prop :=
  offset ≤ swap.span.start ∨ swap.span.stop ≤ offset

variable (swap : Swap)

theorem span_lt : swap.span.start < swap.span.stop := by
  have := Text.bytes_pos_of_ne_nil swap.old_ne
  simp only [span]
  omega

theorem place_of_le {offset : Nat} (h : offset ≤ Text.bytes swap.before) :
    swap.place offset = offset := if_pos h

theorem place_behind (count : Nat) :
    swap.place (swap.span.stop + count) =
      Text.bytes swap.before + Text.bytes swap.new + count := by
  have hold := Text.bytes_pos_of_ne_nil swap.old_ne
  have hbehind : ¬ swap.span.stop + count ≤ Text.bytes swap.before := by
    simp only [span]
    omega
  rw [place, if_neg hbehind]
  simp only [span]
  omega

@[simp] theorem place_zero : swap.place 0 = 0 := swap.place_of_le (Nat.zero_le _)

theorem place_start : swap.place swap.span.start = Text.bytes swap.before :=
  swap.place_of_le (Nat.le_refl _)

theorem place_stop : swap.place swap.span.stop = Text.bytes swap.before + Text.bytes swap.new :=
  swap.place_behind 0

theorem place_bytes : swap.place (Text.bytes swap.first) = Text.bytes swap.second := by
  have h := swap.place_behind (Text.bytes swap.after)
  simpa only [span, first, second, Text.bytes_append] using h

theorem outside_zero : swap.Outside 0 := .inl (Nat.zero_le _)

theorem outside_bytes : swap.Outside (Text.bytes swap.first) := by
  refine .inr ?_
  simp only [span, first, Text.bytes_append]
  omega

section Order

variable {swap} {a b : Nat}

theorem place_lt (ha : swap.Outside a) (hb : swap.Outside b) :
    swap.place a < swap.place b ↔ a < b := by
  have hold := Text.bytes_pos_of_ne_nil swap.old_ne
  have hnew := Text.bytes_pos_of_ne_nil swap.new_ne
  simp only [Outside, span] at ha hb
  simp only [place]
  split <;> split <;> omega

theorem place_le (ha : swap.Outside a) (hb : swap.Outside b) :
    swap.place a ≤ swap.place b ↔ a ≤ b := by
  rw [← Nat.not_lt, place_lt hb ha, Nat.not_lt]

theorem place_eq (ha : swap.Outside a) (hb : swap.Outside b) :
    swap.place a = swap.place b ↔ a = b := by
  rw [Nat.eq_iff_le_and_ge, place_le ha hb, place_le hb ha, ← Nat.eq_iff_le_and_ge]

/-- Of offsets that the stretch does not separate, places keep the distance. -/
theorem place_add {count : Nat}
    (h : a + count ≤ swap.span.start ∨ swap.span.stop ≤ a) :
    swap.place (a + count) = swap.place a + count := by
  have hold := Text.bytes_pos_of_ne_nil swap.old_ne
  simp only [span] at h
  simp only [place]
  split <;> split <;> omega

end Order

section Text

variable {swap} {offset : Nat} {span : Span}

/-- A place between characters is one in both texts. -/
theorem isBoundary_place (h : swap.Outside offset) :
    Text.isBoundary swap.second (swap.place offset) = Text.isBoundary swap.first offset := by
  rw [Bool.eq_iff_iff, Text.isBoundary_iff, Text.isBoundary_iff]
  rcases h with hle | hge
  · rw [swap.place_of_le hle]
    have hsplit {middle : Text} :
        (∃ a b, swap.before ++ middle ++ swap.after = a ++ b ∧ Text.bytes a = offset) ↔
          ∃ a b, swap.before = a ++ b ∧ Text.bytes a = offset := by
      constructor
      · rintro ⟨a, b, htext, rfl⟩
        rw [List.append_assoc] at htext
        obtain ⟨m, hm, -⟩ := Text.append_eq_append_of_bytes_le htext.symm hle
        exact ⟨a, m, hm, rfl⟩
      · rintro ⟨a, b, htext, rfl⟩
        exact ⟨a, b ++ (middle ++ swap.after), by simp [htext], rfl⟩
    exact hsplit.trans hsplit.symm
  · obtain ⟨count, rfl⟩ := Nat.exists_eq_add_of_le hge
    rw [swap.place_behind]
    have hsplit {middle : Text} :
        (∃ a b, swap.before ++ middle ++ swap.after = a ++ b ∧
            Text.bytes a = Text.bytes swap.before + Text.bytes middle + count) ↔
          ∃ a b, swap.after = a ++ b ∧ Text.bytes a = count := by
      constructor
      · rintro ⟨a, b, htext, hbytes⟩
        have hle : Text.bytes (swap.before ++ middle) ≤ Text.bytes a := by
          rw [Text.bytes_append]
          omega
        obtain ⟨m, rfl, hm⟩ := Text.append_eq_append_of_bytes_le htext hle
        rw [Text.bytes_append, Text.bytes_append] at hbytes
        exact ⟨m, b, hm, by omega⟩
      · rintro ⟨a, b, htext, rfl⟩
        refine ⟨swap.before ++ middle ++ a, b, by simp [htext], ?_⟩
        rw [Text.bytes_append, Text.bytes_append]
    exact hsplit.trans hsplit.symm

/-- Text beside the stretch is the same in both texts. -/
theorem slice_place (hstart : Text.isBoundary swap.first span.start = true)
    (hstop : Text.isBoundary swap.first span.stop = true) (hle : span.start ≤ span.stop)
    (haside : span.stop ≤ swap.span.start ∨ swap.span.stop ≤ span.start) :
    Text.slice swap.second (span.renumbered swap.place) = Text.slice swap.first span := by
  obtain ⟨a, b, htext, ha, hlength⟩ := Text.exists_slice span hstart hstop hle
  have hwidth : Text.bytes (Text.slice swap.first span) = (span.renumbered swap.place).length := by
    obtain ⟨count, hcount⟩ := Nat.exists_eq_add_of_le hle
    have hplace : swap.place (span.start + count) = swap.place span.start + count :=
      place_add (haside.imp (hcount ▸ ·) id)
    rw [hlength]
    simp only [Span.renumbered, Span.length, hcount, hplace]
    omega
  have hspan : Text.bytes (a ++ Text.slice swap.first span) = span.stop := by
    rw [Text.bytes_append, ha, hlength, Span.length]
    omega
  rcases haside with hbefore | hbehind
  · have hall : a ++ Text.slice swap.first span ++ b =
        swap.before ++ (swap.old ++ swap.after) := by
      rw [← htext, first, List.append_assoc]
    obtain ⟨m, hm, -⟩ := Text.append_eq_append_of_bytes_le hall (hspan ▸ hbefore)
    have hsecond : swap.second =
        a ++ Text.slice swap.first span ++ (m ++ (swap.new ++ swap.after)) := by
      rw [second, hm]
      simp only [List.append_assoc]
    refine Text.slice_of_append hsecond ?_ hwidth
    rw [ha, Span.renumbered, swap.place_of_le (Nat.le_trans hle hbefore)]
  · have hall : swap.before ++ swap.old ++ swap.after =
        a ++ (Text.slice swap.first span ++ b) := by
      rw [← List.append_assoc, ← htext, first]
    have hstretch : Text.bytes (swap.before ++ swap.old) ≤ Text.bytes a := by
      rw [ha, Text.bytes_append]
      exact hbehind
    obtain ⟨m, rfl, hm⟩ := Text.append_eq_append_of_bytes_le hall hstretch
    have hsecond : swap.second =
        swap.before ++ swap.new ++ m ++ Text.slice swap.first span ++ b := by
      rw [second, hm]
      simp only [List.append_assoc]
    refine Text.slice_of_append hsecond ?_ hwidth
    have hoffset : span.start = swap.span.stop + Text.bytes m := by
      rw [← ha, Text.bytes_append, Text.bytes_append]
      rfl
    rw [Span.renumbered, hoffset, swap.place_behind, Text.bytes_append, Text.bytes_append]

end Text

end Swap

end TypedComponent
