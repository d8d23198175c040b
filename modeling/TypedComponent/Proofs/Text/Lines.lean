import Mathlib.Data.List.GetD
import Mathlib.Data.List.Induction
import TypedComponent.Proofs.Text.Octets
import TypedComponent.Text.Lines

/-!
Offsets and positions name the same places. The lines of a text begin at the
start and after its newlines, which are the same among its characters and among
its bytes, so a place is described by the bytes before it: the newlines there
are its line, and what follows the last of them is its column.
-/

namespace TypedComponent

namespace SearchResult

variable {values : List Nat} {target index insertion : Nat}

/-- What a search may answer: a place where the value is, or one with all the
smaller values before it and all the larger ones after it. -/
def Fits (values : List Nat) (target : Nat) : SearchResult → Prop
  | found index => values[index]? = some target
  | missing insertion => insertion ≤ values.length ∧
      (∀ value ∈ values.take insertion, value < target) ∧
      ∀ value ∈ values.drop insertion, target < value

theorem countP_of_found (hsorted : values.Pairwise (· < ·))
    (h : (found index).Fits values target) : values.countP (· ≤ target) = index + 1 := by
  obtain ⟨hlt, hget⟩ := List.getElem?_eq_some_iff.mp h
  have hsplit : values = values.take index ++ target :: values.drop (index + 1) := by
    rw [← hget, ← List.drop_eq_getElem_cons, List.take_append_drop]
  rw [hsplit, List.pairwise_append, List.pairwise_cons] at hsorted
  obtain ⟨-, ⟨hafter, -⟩, hbefore⟩ := hsorted
  have hall : (values.take index).countP (· ≤ target) = index := by
    rw [List.countP_eq_length.mpr, List.length_take, Nat.min_eq_left (Nat.le_of_lt hlt)]
    exact fun value hvalue =>
      decide_eq_true (Nat.le_of_lt (hbefore value hvalue target List.mem_cons_self))
  have hnone : (values.drop (index + 1)).countP (· ≤ target) = 0 :=
    List.countP_eq_zero.mpr fun value hvalue => by simpa using hafter value hvalue
  rw [hsplit, List.countP_append, List.countP_cons, hall, hnone]
  simp

theorem countP_of_missing (h : (missing insertion).Fits values target) :
    values.countP (· ≤ target) = insertion := by
  obtain ⟨hle, hbefore, hafter⟩ := h
  have hall : (values.take insertion).countP (· ≤ target) = insertion := by
    rw [List.countP_eq_length.mpr, List.length_take, Nat.min_eq_left hle]
    exact fun value hvalue => decide_eq_true (Nat.le_of_lt (hbefore value hvalue))
  have hnone : (values.drop insertion).countP (· ≤ target) = 0 :=
    List.countP_eq_zero.mpr fun value hvalue => by simpa using hafter value hvalue
  calc values.countP (· ≤ target)
      = (values.take insertion ++ values.drop insertion).countP (· ≤ target) := by
        rw [List.take_append_drop]
    _ = insertion := by rw [List.countP_append, hall, hnone, Nat.add_zero]

end SearchResult

namespace Lines

section Search

variable {values : List Nat} {target low high : Nat}

/-- What has been found out when a search goes on from `low` up to `high`: the
values before are too small, and those from `high` on are too large. -/
structure Narrowed (values : List Nat) (target low high : Nat) : Prop where
  ordered : low ≤ high
  inside : high ≤ values.length
  before : ∀ value ∈ values.take low, value < target
  after : ∀ value ∈ values.drop high, target < value

/-- The parts of a sorted list at a place in it, and how they compare with the
value there. -/
theorem exists_parts (hsorted : values.Pairwise (· < ·)) {middle : Nat}
    (hlt : middle < values.length) : ∃ value,
    values.getD middle 0 = value ∧ values[middle]? = some value ∧
      (∀ smaller ∈ values.take (middle + 1), smaller ≤ value) ∧
      ∀ larger ∈ values.drop middle, value ≤ larger := by
  have hsplit : values = values.take middle ++ values[middle] :: values.drop (middle + 1) := by
    rw [← List.drop_eq_getElem_cons, List.take_append_drop]
  have hparts := hsorted
  rw [hsplit, List.pairwise_append, List.pairwise_cons] at hparts
  obtain ⟨-, ⟨hafter, -⟩, hbefore⟩ := hparts
  refine ⟨values[middle], List.getD_eq_getElem _ _ hlt, List.getElem?_eq_getElem hlt,
    fun smaller hsmaller => ?_, fun larger hlarger => ?_⟩
  · rw [List.take_succ_eq_append_getElem hlt, List.mem_append, List.mem_singleton] at hsmaller
    rcases hsmaller with hmem | rfl
    · exact Nat.le_of_lt (hbefore smaller hmem _ List.mem_cons_self)
    · exact Nat.le_refl _
  · rw [List.drop_eq_getElem_cons hlt, List.mem_cons] at hlarger
    rcases hlarger with rfl | hmem
    · exact Nat.le_refl _
    · exact Nat.le_of_lt (hafter larger hmem)

theorem Narrowed.upper (h : Narrowed values target low high) (hsorted : values.Pairwise (· < ·))
    {middle : Nat} (hmiddle : low ≤ middle ∧ middle < high)
    (hvalue : values.getD middle 0 < target) : Narrowed values target (middle + 1) high where
  ordered := hmiddle.2
  inside := h.inside
  before := by
    obtain ⟨value, hget, -, hbefore, -⟩ :=
      exists_parts hsorted (Nat.lt_of_lt_of_le hmiddle.2 h.inside)
    rw [hget] at hvalue
    exact fun smaller hsmaller => Nat.lt_of_le_of_lt (hbefore smaller hsmaller) hvalue
  after := h.after

theorem Narrowed.lower (h : Narrowed values target low high) (hsorted : values.Pairwise (· < ·))
    {middle : Nat} (hmiddle : low ≤ middle ∧ middle < high)
    (hvalue : target < values.getD middle 0) : Narrowed values target low middle where
  ordered := hmiddle.1
  inside := Nat.le_trans (Nat.le_of_lt hmiddle.2) h.inside
  before := h.before
  after := by
    obtain ⟨value, hget, -, -, hafter⟩ :=
      exists_parts hsorted (Nat.lt_of_lt_of_le hmiddle.2 h.inside)
    rw [hget] at hvalue
    exact fun larger hlarger => Nat.lt_of_lt_of_le hvalue (hafter larger hlarger)

theorem searchWithin_fits (hsorted : values.Pairwise (· < ·))
    (h : Narrowed values target low high) :
    (searchWithin values target low high).Fits values target := by
  fun_induction searchWithin values target low high with
  | case1 low high hlt middle value hvalue =>
    have hmiddle : middle < values.length := by
      have := h.inside
      omega
    obtain ⟨found, hget, hfound, -, -⟩ := exists_parts hsorted hmiddle
    rw [SearchResult.Fits, hfound, ← hget]
    exact congrArg some hvalue
  | case2 low high hlt middle value hvalue hless ih =>
    exact ih (h.upper hsorted (by omega) hless)
  | case3 low high hlt middle value hvalue hless ih =>
    exact ih (h.lower hsorted (by omega) (by omega))
  | case4 low high hge =>
    have hsame : low = high := Nat.le_antisymm h.ordered (Nat.not_lt.mp hge)
    exact ⟨hsame ▸ h.inside, h.before, hsame ▸ h.after⟩

theorem search_fits (hsorted : values.Pairwise (· < ·)) (target : Nat) :
    (search values target).Fits values target :=
  searchWithin_fits hsorted ⟨Nat.zero_le _, Nat.le_refl _, by simp, by simp⟩

/-- The line of an offset is the last that begins at or before it. -/
theorem lineAt_add_one {lines : Lines} (hsorted : lines.starts.Pairwise (· < ·))
    (hfirst : 0 ∈ lines.starts) (offset : Nat) :
    lines.lineAt offset + 1 = lines.starts.countP (· ≤ offset) := by
  have hfits := search_fits hsorted offset
  have hpos : 0 < lines.starts.countP (· ≤ offset) :=
    List.countP_pos_iff.mpr ⟨0, hfirst, decide_eq_true (Nat.zero_le offset)⟩
  rw [lineAt]
  cases hsearch : search lines.starts offset with
  | found index =>
    rw [hsearch] at hfits
    rw [SearchResult.countP_of_found hsorted hfits]
  | missing insertion =>
    rw [hsearch] at hfits
    have hcount := SearchResult.countP_of_missing hfits
    show insertion - 1 + 1 = _
    omega

end Search

/-- The offsets just after the newlines of some bytes that begin at `offset`. -/
def endsAfter : Nat → List Char → List Nat
  | _, [] => []
  | offset, byte :: rest =>
    if byte = '\n' then (offset + 1) :: endsAfter (offset + 1) rest
    else endsAfter (offset + 1) rest

section Starts

variable {offset : Nat} {front behind : List Char}

theorem endsAfter_append (offset : Nat) (front behind : List Char) :
    endsAfter offset (front ++ behind) =
      endsAfter offset front ++ endsAfter (offset + front.length) behind := by
  induction front generalizing offset with
  | nil => rfl
  | cons byte rest ih =>
    rw [List.cons_append, endsAfter, endsAfter, ih, List.length_cons,
      Nat.add_right_comm offset 1, Nat.add_assoc offset]
    split
    · rfl
    · rfl

theorem endsAfter_other (offset : Nat) {run : List Char} (hrun : ∀ byte ∈ run, ¬ IsSign byte) :
    endsAfter offset run = [] := by
  induction run generalizing offset with
  | nil => rfl
  | cons byte rest ih =>
    obtain ⟨hbyte, hrest⟩ := List.forall_mem_cons.mp hrun
    rw [endsAfter, if_neg (fun heq : byte = '\n' => hbyte (heq ▸ by decide)), ih _ hrest]

/-- No byte of a longer character is a newline, so the newlines of the bytes are
those of the text. -/
theorem startsAfter_eq (offset : Nat) (text : Text) :
    startsAfter offset text = endsAfter offset text.octets := by
  induction text generalizing offset with
  | nil => rfl
  | cons c rest ih =>
    rw [startsAfter, ih]
    by_cases hc : IsSign c
    · have hsize : c.utf8Size = 1 := by
        have hlength := Text.length_octets [c]
        rw [Text.octets_sign hc] at hlength
        exact hlength.symm
      rw [Text.octets_sign_cons hc, endsAfter, hsize]
    · have hsplit : Text.octets (c :: rest) = Text.octets [c] ++ Text.octets rest :=
        Text.octets_append [c] rest
      rw [hsplit, endsAfter_append, endsAfter_other _ (Text.octets_other hc), Text.length_octets,
        if_neg (fun heq : c = '\n' => hc (heq ▸ by decide)), List.nil_append, Text.bytes_cons]
      rfl

theorem starts_ofText (text : Text) : (ofText text).starts = 0 :: endsAfter 0 text.octets :=
  congrArg _ (startsAfter_eq 0 text)

theorem lt_of_mem_endsAfter {place : Nat} {bytes : List Char}
    (h : place ∈ endsAfter offset bytes) : offset < place ∧ place ≤ offset + bytes.length := by
  induction bytes generalizing offset with
  | nil => cases h
  | cons byte rest ih =>
    have hrest (hmem : place ∈ endsAfter (offset + 1) rest) :
        offset < place ∧ place ≤ offset + (rest.length + 1) := by
      have := ih hmem
      omega
    rw [endsAfter] at h
    rw [List.length_cons]
    split at h
    · rcases List.mem_cons.mp h with rfl | hmem
      · omega
      · exact hrest hmem
    · exact hrest h

theorem endsAfter_sorted (offset : Nat) (bytes : List Char) :
    (endsAfter offset bytes).Pairwise (· < ·) := by
  induction bytes generalizing offset with
  | nil => exact List.Pairwise.nil
  | cons byte rest ih =>
    rw [endsAfter]
    split
    · exact List.pairwise_cons.mpr ⟨fun place hplace => (lt_of_mem_endsAfter hplace).1, ih _⟩
    · exact ih _

theorem starts_sorted (text : Text) : (ofText text).starts.Pairwise (· < ·) := by
  rw [starts_ofText]
  exact List.pairwise_cons.mpr
    ⟨fun place hplace => (lt_of_mem_endsAfter hplace).1, endsAfter_sorted 0 _⟩

theorem length_endsAfter (offset : Nat) (bytes : List Char) :
    (endsAfter offset bytes).length = bytes.count '\n' := by
  induction bytes generalizing offset with
  | nil => rfl
  | cons byte rest ih =>
    rw [endsAfter, List.count_cons, ← ih (offset + 1)]
    by_cases hbyte : byte = '\n' <;> simp [hbyte]

/-- The lines that begin up to a place are the first, and one for each newline
before the place. -/
theorem countP_starts (front behind : List Char) :
    (0 :: endsAfter 0 (front ++ behind)).countP (· ≤ front.length) = front.count '\n' + 1 := by
  have hfront : (endsAfter 0 front).countP (· ≤ front.length) = front.count '\n' := by
    rw [← length_endsAfter 0 front, List.countP_eq_length]
    intro place hplace
    have := (lt_of_mem_endsAfter hplace).2
    exact decide_eq_true (by omega)
  have hbehind : (endsAfter (0 + front.length) behind).countP (· ≤ front.length) = 0 := by
    refine List.countP_eq_zero.mpr fun place hplace => ?_
    have := (lt_of_mem_endsAfter hplace).1
    simp only [decide_eq_true_eq]
    omega
  rw [endsAfter_append, List.countP_cons_of_pos (by simp), List.countP_append, hfront, hbehind]

end Starts

end Lines

namespace Position

variable {front middle run : List Char}

/-- The position behind some bytes: the newlines among them, and what follows
the last of those. -/
def behind (bytes : List Char) : Position :=
  ⟨bytes.count '\n', (bytes.reverse.takeWhile (· ≠ '\n')).length⟩

/-- One position lies before another: on an earlier line, or further left. -/
def Before (a b : Position) : Prop :=
  a.line < b.line ∨ a.line = b.line ∧ a.column < b.column

theorem behind_newline (bytes : List Char) :
    behind (bytes ++ ['\n']) = ⟨bytes.count '\n' + 1, 0⟩ := by
  rw [behind, List.count_append, List.reverse_append]
  rfl

/-- What has no newline stays on the line that it begins on. -/
theorem behind_append (front : List Char) (h : '\n' ∉ run) :
    behind (front ++ run) = ⟨(behind front).line, (behind front).column + run.length⟩ := by
  have hline : (front ++ run).count '\n' = front.count '\n' := by
    rw [List.count_append, List.count_eq_zero.mpr h, Nat.add_zero]
  have hcolumn : ((front ++ run).reverse.takeWhile (· ≠ '\n')).length =
      (front.reverse.takeWhile (· ≠ '\n')).length + run.length := by
    rw [List.reverse_append, List.takeWhile_append_of_pos, List.length_append, List.length_reverse,
      Nat.add_comm]
    intro byte hbyte
    exact decide_eq_true fun heq => h (heq ▸ List.mem_reverse.mp hbyte)
  rw [behind, hline, hcolumn]
  rfl

theorem Before.behind_append (front : List Char) (hmiddle : middle ≠ []) :
    (behind front).Before (behind (front ++ middle)) := by
  by_cases hnewline : '\n' ∈ middle
  · refine .inl ?_
    show front.count '\n' < (front ++ middle).count '\n'
    rw [List.count_append]
    have := List.count_pos_iff.mpr hnewline
    omega
  · refine .inr ?_
    rw [Position.behind_append front hnewline]
    exact ⟨rfl, Nat.lt_add_of_pos_right (List.length_pos_iff.mpr hmiddle)⟩

end Position

namespace Lines

open Position (behind)

/-- The last line that begins among some bytes begins where its column says. -/
theorem startOf_behind (bytes : List Char) :
    ∃ start, (0 :: endsAfter 0 bytes)[(behind bytes).line]? = some start ∧
      start + (behind bytes).column = bytes.length := by
  induction bytes using List.reverseRecOn with
  | nil => exact ⟨0, rfl, rfl⟩
  | append_singleton bytes byte ih =>
    obtain ⟨start, hstart, hcolumn⟩ := ih
    have hcount := length_endsAfter 0 bytes
    rw [endsAfter_append]
    by_cases hbyte : byte = '\n'
    · subst hbyte
      refine ⟨bytes.length + 1, ?_, ?_⟩
      · rw [Position.behind_newline, ← List.cons_append,
          List.getElem?_append_right (by simp [hcount])]
        simp [hcount, endsAfter]
      · rw [Position.behind_newline, List.length_append]
        rfl
    · have hrun : '\n' ∉ [byte] := fun hmem => hbyte (List.mem_singleton.mp hmem).symm
      refine ⟨start, ?_, ?_⟩
      · rw [Position.behind_append bytes hrun]
        simpa [endsAfter, hbyte] using hstart
      · rw [Position.behind_append bytes hrun, List.length_append, ← hcolumn, Nat.add_assoc]

section Correspondence

variable {text : Text} {offset : Nat}

theorem start_behind (h : offset ≤ Text.bytes text) :
    ∃ start, (ofText text).starts[(behind (text.octets.take offset)).line]? = some start ∧
      start + (behind (text.octets.take offset)).column = offset := by
  obtain ⟨start, hstart, hcolumn⟩ := startOf_behind (text.octets.take offset)
  rw [List.length_take, Text.length_octets, Nat.min_eq_left h] at hcolumn
  refine ⟨start, ?_, hcolumn⟩
  have hlt := (List.getElem?_eq_some_iff.mp hstart).1
  have hparts := endsAfter_append 0 (text.octets.take offset) (text.octets.drop offset)
  rw [List.take_append_drop] at hparts
  rw [starts_ofText, hparts, ← List.cons_append, List.getElem?_append_left hlt, hstart]

theorem lineAt_ofText (h : offset ≤ Text.bytes text) :
    (ofText text).lineAt offset = (text.octets.take offset).count '\n' := by
  have hfirst : 0 ∈ (ofText text).starts := List.mem_cons_self
  have hline := lineAt_add_one (starts_sorted text) hfirst offset
  have hcount := countP_starts (text.octets.take offset) (text.octets.drop offset)
  rw [List.take_append_drop, List.length_take, Text.length_octets, Nat.min_eq_left h,
    ← starts_ofText] at hcount
  omega

theorem position?_ofText (h : offset ≤ Text.bytes text) :
    (ofText text).position? offset = some (behind (text.octets.take offset)) := by
  obtain ⟨start, hstart, hcolumn⟩ := start_behind h
  have hline : (ofText text).lineAt offset = (behind (text.octets.take offset)).line :=
    lineAt_ofText h
  have hwithin : ¬ (ofText text).length < offset := Nat.not_lt.mpr h
  simp only [position?, if_neg hwithin, hline, List.getD_eq_getElem?_getD, hstart,
    Option.getD_some]
  rw [← Nat.eq_sub_of_add_eq' hcolumn]

theorem offset?_behind (h : offset ≤ Text.bytes text) :
    (ofText text).offset? (behind (text.octets.take offset)) = some offset := by
  obtain ⟨start, hstart, hcolumn⟩ := start_behind h
  rw [offset?, hstart, Option.map_some, hcolumn]

theorem position?_past (h : Text.bytes text < offset) : (ofText text).position? offset = none :=
  if_pos h

theorem position?_isSome {position : Position}
    (h : (ofText text).position? offset = some position) :
    offset ≤ Text.bytes text := by
  refine Nat.not_lt.mp fun hpast => ?_
  rw [position?_past hpast] at h
  cases h

theorem position?_before {earlier later : Nat} {a b : Position} (hlt : earlier < later)
    (ha : (ofText text).position? earlier = some a)
    (hb : (ofText text).position? later = some b) : a.Before b := by
  have hlater := position?_isSome hb
  rw [position?_ofText (Nat.le_trans (Nat.le_of_lt hlt) hlater)] at ha
  rw [position?_ofText hlater] at hb
  obtain rfl := Option.some.inj ha
  obtain rfl := Option.some.inj hb
  have hsplit : text.octets.take later =
      text.octets.take earlier ++ (text.octets.drop earlier).take (later - earlier) := by
    rw [← List.take_add, Nat.add_sub_cancel' (Nat.le_of_lt hlt)]
  rw [hsplit]
  refine Position.Before.behind_append _ (List.length_pos_iff.mp ?_)
  rw [List.length_take, List.length_drop, Text.length_octets]
  omega

end Correspondence

section Contents

variable {text content : Text} {line : Nat}

theorem length_splitOn (sign : Char) (text : Text) :
    (text.splitOn sign).length = text.count sign + 1 := by
  induction text with
  | nil => rfl
  | cons c rest ih =>
    rw [List.splitOn_cons_eq_if_modifyHead, List.count_cons]
    split
    · rw [List.length_cons, ih]
    · rw [List.length_modifyHead, ih]

/-- A line lies behind the newlines of the lines before it, has none of its own,
and begins at the start of the text or behind a newline. -/
theorem exists_of_splitOn (h : (text.splitOn '\n')[line]? = some content) :
    ∃ front behind, text = front ++ content ++ behind ∧ front.count '\n' = line ∧
      (front = [] ∨ ∃ before, front = before ++ ['\n']) ∧ '\n' ∉ content := by
  induction text generalizing line content with
  | nil =>
    cases line with
    | zero =>
      obtain rfl : [] = content := by simpa using h
      exact ⟨[], [], rfl, rfl, .inl rfl, List.not_mem_nil⟩
    | succ line => simp at h
  | cons c rest ih =>
    rw [List.splitOn_cons_eq_if_modifyHead] at h
    by_cases hc : c = '\n'
    · subst hc
      rw [if_pos (beq_self_eq_true _)] at h
      cases line with
      | zero =>
        obtain rfl : [] = content := by simpa using h
        exact ⟨[], '\n' :: rest, rfl, rfl, .inl rfl, List.not_mem_nil⟩
      | succ line =>
        obtain ⟨front, behind, rfl, hline, hfront, hcontent⟩ :=
          ih (show (rest.splitOn '\n')[line]? = some content from h)
        refine ⟨'\n' :: front, behind, rfl, by simp [hline], .inr ?_, hcontent⟩
        rcases hfront with rfl | ⟨before, rfl⟩
        · exact ⟨[], rfl⟩
        · exact ⟨'\n' :: before, rfl⟩
    · rw [if_neg (by simpa using hc)] at h
      obtain ⟨head, tail, hparts⟩ := List.exists_cons_of_ne_nil (List.splitOn_ne_nil '\n' rest)
      rw [hparts, List.modifyHead_cons] at h
      cases line with
      | zero =>
        obtain rfl : c :: head = content := by simpa using h
        obtain ⟨front, behind, hrest, hline, hfront, hhead⟩ :=
          ih (show (rest.splitOn '\n')[0]? = some head by rw [hparts]; rfl)
        have hempty : front = [] := by
          rcases hfront with hnil | ⟨before, rfl⟩
          · exact hnil
          · simp at hline
        rw [hrest, hempty]
        exact ⟨[], behind, rfl, rfl, .inl rfl, by simp [hhead, Ne.symm hc]⟩
      | succ line =>
        obtain ⟨front, behind, rfl, hline, hfront, hcontent⟩ :=
          ih (show (rest.splitOn '\n')[line + 1]? = some content by rw [hparts]; exact h)
        refine ⟨c :: front, behind, rfl, by simp [hline, hc], .inr ?_, hcontent⟩
        rcases hfront with rfl | ⟨before, rfl⟩
        · simp at hline
        · exact ⟨c :: before, rfl⟩

theorem count_ofText (text : Text) : (ofText text).count = (text.splitOn '\n').length := by
  rw [count, starts_ofText, List.length_cons, length_endsAfter, Text.count_octets (by decide),
    length_splitOn]

/-- Each place of a line, its end included, is the place of one offset. -/
theorem offset?_of_splitOn (h : (text.splitOn '\n')[line]? = some content) {column : Nat}
    (hcolumn : column ≤ Text.bytes content) : ∃ offset, offset ≤ Text.bytes text ∧
      (ofText text).offset? ⟨line, column⟩ = some offset ∧
      (ofText text).position? offset = some ⟨line, column⟩ := by
  obtain ⟨front, rest, rfl, hline, hfront, hcontent⟩ := exists_of_splitOn h
  have hstart : behind front.octets = ⟨line, 0⟩ := by
    rcases hfront with rfl | ⟨before, rfl⟩
    · rw [← hline]
      rfl
    · rw [Text.octets_append, Text.octets_sign (by decide), Position.behind_newline,
        Text.count_octets (by decide), ← hline, List.count_append]
      rfl
  have hrun : '\n' ∉ content.octets.take column := fun hmem =>
    hcontent ((Text.mem_octets (by decide)).mp (List.mem_of_mem_take hmem))
  have htake : (front ++ content ++ rest).octets.take (Text.bytes front + column) =
      front.octets ++ content.octets.take column := by
    rw [List.append_assoc, Text.octets_append, ← Text.length_octets front,
      List.take_length_add_append, Text.octets_append, List.take_append_of_le_length]
    rwa [Text.length_octets]
  have hbehind : behind ((front ++ content ++ rest).octets.take (Text.bytes front + column)) =
      ⟨line, column⟩ := by
    rw [htake, Position.behind_append _ hrun, hstart, List.length_take, Text.length_octets,
      Nat.min_eq_left hcolumn, Nat.zero_add]
  have hwithin : Text.bytes front + column ≤ Text.bytes (front ++ content ++ rest) := by
    simp only [Text.bytes_append]
    omega
  exact ⟨_, hwithin, hbehind ▸ offset?_behind hwithin, hbehind ▸ position?_ofText hwithin⟩

end Contents

/-- Before the start of the first line no offset would have to be put in. -/
theorem insertion_pos {text : Text} {offset insertion : Nat}
    (h : search (ofText text).starts offset = .missing insertion) : 0 < insertion := by
  have hfits := search_fits (starts_sorted text) offset
  rw [h] at hfits
  have hfirst : 0 ∈ (ofText text).starts := List.mem_cons_self
  rw [← SearchResult.countP_of_missing hfits]
  exact List.countP_pos_iff.mpr ⟨0, hfirst, decide_eq_true (Nat.zero_le offset)⟩

/-- Offsets and positions correspond: an offset of a text is at the position
behind the bytes before it, later offsets are at later positions, none past the
end is at any; and each place in a line is at one offset. The search for the
line never ends before the first. -/
theorem positions_correspond (text : Text) :
    (∀ offset ≤ Text.bytes text,
      (ofText text).position? offset = some (behind (text.octets.take offset)) ∧
      (ofText text).offset? (behind (text.octets.take offset)) = some offset) ∧
    (∀ earlier later a b, earlier < later → (ofText text).position? earlier = some a →
      (ofText text).position? later = some b → a.Before b) ∧
    (∀ offset, Text.bytes text < offset → (ofText text).position? offset = none) ∧
    (ofText text).count = (text.splitOn '\n').length ∧
    (∀ line content, (text.splitOn '\n')[line]? = some content →
      ∀ column ≤ Text.bytes content, ∃ offset ≤ Text.bytes text,
        (ofText text).offset? ⟨line, column⟩ = some offset ∧
        (ofText text).position? offset = some ⟨line, column⟩) ∧
    ∀ offset insertion, search (ofText text).starts offset = .missing insertion → 0 < insertion :=
  ⟨fun _ h => ⟨position?_ofText h, offset?_behind h⟩,
    fun _ _ _ _ hlt ha hb => position?_before hlt ha hb,
    fun _ h => position?_past h,
    count_ofText text,
    fun _ _ h _ hcolumn => offset?_of_splitOn h hcolumn,
    fun _ _ h => insertion_pos h⟩

end Lines

end TypedComponent
