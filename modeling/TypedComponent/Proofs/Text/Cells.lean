import TypedComponent.Text.Span

/-!
A text as a list of cells, one for each character, with the offset of its
first byte. Cutting a text at boundaries cuts its cells, so that what is said
of spans of bytes can be said of lists of characters.
-/

namespace TypedComponent

/-- A character of a text and the offset of its first byte. -/
structure Cell where
  offset : Nat
  char : Char
deriving DecidableEq, Repr

/-- The offset after the last byte of the character. -/
def Cell.stop (cell : Cell) : Nat := cell.offset + cell.char.utf8Size

namespace Text

/-- The cells of a text that begins at `offset`. -/
def cellsFrom (offset : Nat) : Text → List Cell
  | [] => []
  | c :: rest => ⟨offset, c⟩ :: cellsFrom (offset + c.utf8Size) rest

def cells (text : Text) : List Cell := cellsFrom 0 text

/-- The cells of the part of a text that a span covers. -/
def cellsIn (text : Text) (span : Span) : List Cell :=
  cellsFrom span.start (slice text span)

@[simp] theorem cellsFrom_nil (offset : Nat) : cellsFrom offset [] = [] := rfl

theorem cellsFrom_append (offset : Nat) (a b : Text) :
    cellsFrom offset (a ++ b) = cellsFrom offset a ++ cellsFrom (offset + bytes a) b := by
  induction a generalizing offset with
  | nil => simp
  | cons c rest ih => simp [cellsFrom, ih, Nat.add_assoc]

theorem stop_gt_offset (cell : Cell) : cell.offset < cell.stop := by
  have hpos := cell.char.utf8Size_pos
  unfold Cell.stop
  omega

theorem bounds_of_mem_cellsFrom {offset : Nat} {text : Text} {cell : Cell}
    (h : cell ∈ cellsFrom offset text) :
    offset ≤ cell.offset ∧ cell.stop ≤ offset + bytes text := by
  induction text generalizing offset with
  | nil => simp at h
  | cons c rest ih =>
    simp only [cellsFrom, List.mem_cons] at h
    simp only [bytes_cons]
    rcases h with rfl | hrest
    · exact ⟨Nat.le_refl _, by simp only [Cell.stop]; omega⟩
    · have hbounds := ih hrest
      omega

theorem offset_gt_of_mem_cellsFrom {offset : Nat} {c : Char} {rest : Text} {cell : Cell}
    (h : cell ∈ cellsFrom (offset + c.utf8Size) rest) : offset < cell.offset := by
  have hbounds := bounds_of_mem_cellsFrom h
  have hpos := c.utf8Size_pos
  omega

/-- A boundary is where the text can be cut in two. -/
theorem isBoundary_iff {text : Text} {offset : Nat} :
    isBoundary text offset = true ↔ ∃ a b, text = a ++ b ∧ bytes a = offset := by
  induction text generalizing offset with
  | nil =>
    cases offset with
    | zero => simp [isBoundary]
    | succ n =>
      simp only [isBoundary, Bool.false_eq_true, false_iff]
      rintro ⟨a, b, hab, hbytes⟩
      have ha : a = [] := (List.append_eq_nil_iff.mp hab.symm).1
      simp [ha] at hbytes
  | cons c rest ih =>
    cases offset with
    | zero =>
      simp only [isBoundary, true_iff]
      exact ⟨[], c :: rest, rfl, rfl⟩
    | succ n =>
      simp only [isBoundary, Bool.and_eq_true, decide_eq_true_eq, ih]
      constructor
      · rintro ⟨hle, a, b, rfl, hbytes⟩
        exact ⟨c :: a, b, rfl, by simp only [bytes_cons]; omega⟩
      · rintro ⟨a, b, hab, hbytes⟩
        cases a with
        | nil => simp at hbytes
        | cons d a =>
          obtain ⟨rfl, rfl⟩ := List.cons_eq_cons.mp hab
          simp only [bytes_cons] at hbytes
          exact ⟨by omega, a, b, rfl, by omega⟩

theorem le_bytes_of_isBoundary {text : Text} {offset : Nat}
    (h : isBoundary text offset = true) : offset ≤ bytes text := by
  obtain ⟨a, b, rfl, hbytes⟩ := isBoundary_iff.mp h
  rw [bytes_append]
  omega

@[simp] theorem isBoundary_bytes (text : Text) : isBoundary text (bytes text) = true :=
  isBoundary_iff.mpr ⟨text, [], by simp, rfl⟩

@[simp] theorem isBoundary_zero (text : Text) : isBoundary text 0 = true := by
  cases text <;> rfl

theorem takeBytes_append (a b : Text) : takeBytes (a ++ b) (bytes a) = a := by
  induction a with
  | nil => simp
  | cons c rest ih =>
    have hpos := c.utf8Size_pos
    obtain ⟨n, hn⟩ : ∃ n, c.utf8Size + bytes rest = n + 1 :=
      ⟨c.utf8Size + bytes rest - 1, by omega⟩
    have hrest : n + 1 - c.utf8Size = bytes rest := by omega
    simp only [List.cons_append, bytes_cons, hn, takeBytes, hrest, ih]

theorem eq_nil_of_bytes_eq_zero {text : Text} (h : bytes text = 0) : text = [] := by
  have hlength := length_le_bytes text
  exact List.length_eq_zero_iff.mp (by omega)

/-- Of two ways to cut a text, the one with the shorter first part can be cut
again to give the other. -/
theorem append_eq_append_of_bytes_le {a b a' b' : Text} (h : a ++ b = a' ++ b')
    (hle : bytes a ≤ bytes a') : ∃ m, a' = a ++ m ∧ b = m ++ b' := by
  rcases List.append_eq_append_iff.mp h with ⟨m, ha, hb⟩ | ⟨m, ha, hb⟩
  · exact ⟨m, ha, hb⟩
  · have hnil : m = [] := by
      rw [ha, bytes_append] at hle
      exact eq_nil_of_bytes_eq_zero (by omega)
    subst hnil
    exact ⟨[], by simpa using ha.symm, by simpa using hb.symm⟩

theorem append_inj_of_bytes {a b a' b' : Text} (h : a ++ b = a' ++ b')
    (hbytes : bytes a = bytes a') : a = a' ∧ b = b' := by
  obtain ⟨m, hfront, hrest⟩ := append_eq_append_of_bytes_le h (Nat.le_of_eq hbytes)
  have hnil : m = [] := by
    rw [hfront, bytes_append] at hbytes
    exact eq_nil_of_bytes_eq_zero (by omega)
  subst hnil
  exact ⟨by simpa using hfront.symm, by simpa using hrest⟩

/-- Two boundaries in order cut a text in three, with the slice in the middle. -/
theorem exists_slice {text : Text} (span : Span) (hstart : isBoundary text span.start = true)
    (hstop : isBoundary text span.stop = true) (hle : span.start ≤ span.stop) :
    ∃ a b, text = a ++ slice text span ++ b ∧ bytes a = span.start ∧
      bytes (slice text span) = span.length := by
  obtain ⟨a, rest, hcut, ha⟩ := isBoundary_iff.mp hstart
  obtain ⟨front, b, hcut', hfront⟩ := isBoundary_iff.mp hstop
  obtain ⟨m, rfl, rfl⟩ := append_eq_append_of_bytes_le (hcut.symm.trans hcut') (by omega)
  have hm : bytes m = span.length := by
    rw [bytes_append] at hfront
    unfold Span.length
    omega
  have hslice : slice text span = m := by
    unfold slice
    rw [hcut, ← ha, dropBytes_append, ← hm, takeBytes_append]
  rw [hslice]
  exact ⟨a, b, hcut', ha, hm⟩

theorem bytes_slice {text : Text} {span : Span} (hstart : isBoundary text span.start = true)
    (hstop : isBoundary text span.stop = true) (hle : span.start ≤ span.stop) :
    bytes (slice text span) = span.length := by
  obtain ⟨_, _, _, _, hbytes⟩ := exists_slice span hstart hstop hle
  exact hbytes

/-- A place between characters of a slice is one of the text. -/
theorem isBoundary_of_slice {text : Text} {span : Span} {offset : Nat}
    (hstart : isBoundary text span.start = true) (hstop : isBoundary text span.stop = true)
    (hle : span.start ≤ span.stop) (h : isBoundary (slice text span) offset = true) :
    isBoundary text (offset + span.start) = true := by
  obtain ⟨a, b, htext, ha, -⟩ := exists_slice span hstart hstop hle
  obtain ⟨p, q, hslice, hp⟩ := isBoundary_iff.mp h
  refine isBoundary_iff.mpr ⟨a ++ p, q ++ b, ?_, ?_⟩
  · rw [← List.append_assoc, List.append_assoc a, ← hslice]
    exact htext
  · rw [bytes_append, ha, hp, Nat.add_comm]

/-- A span that is not empty has a first character, which begins where it begins. -/
theorem exists_first {text : Text} {span : Span} (hstart : isBoundary text span.start = true)
    (hstop : isBoundary text span.stop = true) (hlt : span.start < span.stop) :
    ∃ c rest, slice text span = c :: rest ∧ span.start + bytes (c :: rest) = span.stop := by
  have hbytes := bytes_slice hstart hstop (Nat.le_of_lt hlt)
  unfold Span.length at hbytes
  cases hslice : slice text span with
  | nil =>
    rw [hslice, bytes_nil] at hbytes
    omega
  | cons c rest =>
    rw [hslice] at hbytes
    exact ⟨c, rest, rfl, by omega⟩

theorem slice_of_append {text a m b : Text} {span : Span} (htext : text = a ++ m ++ b)
    (hstart : bytes a = span.start) (hlength : bytes m = span.length) : slice text span = m := by
  unfold slice
  rw [htext, List.append_assoc, ← hstart, dropBytes_append, ← hlength, takeBytes_append]

@[simp] theorem slice_whole (text : Text) : slice text ⟨0, bytes text⟩ = text :=
  slice_of_append (by simp : text = [] ++ text ++ []) rfl (by simp [Span.length])

theorem cellsIn_whole (text : Text) : cellsIn text ⟨0, bytes text⟩ = cells text := by
  simp [cellsIn, cells]

theorem cellsIn_append {text : Text} {a b c : Nat} (ha : isBoundary text a = true)
    (hb : isBoundary text b = true) (hc : isBoundary text c = true) (hab : a ≤ b)
    (hbc : b ≤ c) : cellsIn text ⟨a, b⟩ ++ cellsIn text ⟨b, c⟩ = cellsIn text ⟨a, c⟩ := by
  obtain ⟨p, rest, hleft, hp, hm⟩ := exists_slice ⟨a, b⟩ ha hb hab
  obtain ⟨q, last, hright, hq, hn⟩ := exists_slice ⟨b, c⟩ hb hc hbc
  simp only [Span.length] at hp hm hq hn
  have hsame : (p ++ slice text ⟨a, b⟩) ++ rest = q ++ (slice text ⟨b, c⟩ ++ last) := by
    rw [← hleft, ← List.append_assoc, ← hright]
  have hbytes : bytes (p ++ slice text ⟨a, b⟩) = bytes q := by
    rw [bytes_append]
    omega
  obtain ⟨hfront, -⟩ := append_inj_of_bytes hsame hbytes
  have hwhole : slice text ⟨a, c⟩ = slice text ⟨a, b⟩ ++ slice text ⟨b, c⟩ := by
    apply slice_of_append (a := p) (b := last)
    · rw [← List.append_assoc, hfront]
      exact hright
    · exact hp
    · rw [bytes_append]
      simp only [Span.length]
      omega
  simp only [cellsIn, hwhole, cellsFrom_append]
  congr 2
  omega

theorem cellsIn_eq_nil {text : Text} {span : Span} (h : span.stop ≤ span.start) :
    cellsIn text span = [] := by
  have hzero : span.length = 0 := by unfold Span.length; omega
  simp [cellsIn, slice, hzero]

theorem bounds_of_mem_cellsIn {text : Text} {span : Span} {cell : Cell}
    (hstart : isBoundary text span.start = true) (hstop : isBoundary text span.stop = true)
    (hle : span.start ≤ span.stop) (h : cell ∈ cellsIn text span) :
    span.start ≤ cell.offset ∧ cell.stop ≤ span.stop := by
  have hbounds := bounds_of_mem_cellsFrom h
  rw [bytes_slice hstart hstop hle] at hbounds
  unfold Span.length at hbounds
  omega

theorem cells_around {text : Text} {span : Span} (hstart : isBoundary text span.start = true)
    (hstop : isBoundary text span.stop = true) (hle : span.start ≤ span.stop) :
    cells text = cellsIn text ⟨0, span.start⟩ ++
      (cellsIn text span ++ cellsIn text ⟨span.stop, bytes text⟩) := by
  have hlength := le_bytes_of_isBoundary hstop
  rw [cellsIn_append hstart hstop (isBoundary_bytes text) hle hlength,
    cellsIn_append (isBoundary_zero text) hstart (isBoundary_bytes text) (Nat.zero_le _)
      (Nat.le_trans hle hlength), cellsIn_whole]

theorem contains_of_mem_cellsIn {text : Text} {span : Span} {cell : Cell}
    (hstart : isBoundary text span.start = true) (hstop : isBoundary text span.stop = true)
    (hle : span.start ≤ span.stop) (h : cell ∈ cellsIn text span) :
    span.contains cell.offset = true := by
  have hbounds := bounds_of_mem_cellsIn hstart hstop hle h
  have hend := stop_gt_offset cell
  exact (Span.contains_iff _ _).mpr ⟨hbounds.1, by omega⟩

def utf8 (text : Text) : List UInt8 := text.flatMap String.utf8EncodeChar

theorem utf8_append (a b : Text) : utf8 (a ++ b) = utf8 a ++ utf8 b := List.flatMap_append

@[simp] theorem length_utf8 (text : Text) : (utf8 text).length = bytes text := by
  induction text with
  | nil => rfl
  | cons c rest ih =>
    have hcons : utf8 (c :: rest) = String.utf8EncodeChar c ++ utf8 rest := rfl
    rw [hcons, List.length_append, String.length_utf8EncodeChar, ih, bytes_cons]

theorem utf8_middle (a m b : Text) {index : Nat} (h : index < bytes m) :
    (utf8 (a ++ m ++ b))[bytes a + index]? = (utf8 m)[index]? := by
  rw [utf8_append, utf8_append, List.append_assoc,
    List.getElem?_append_right (by simp), length_utf8, Nat.add_sub_cancel_left,
    List.getElem?_append_left (by simpa using h)]

end Text

/-- A span begins and ends between characters of a text, and in this order. -/
structure Span.LiesIn (text : Text) (span : Span) : Prop where
  start_place : Text.isBoundary text span.start = true
  stop_place : Text.isBoundary text span.stop = true
  start_le : span.start ≤ span.stop

end TypedComponent
