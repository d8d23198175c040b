import TypedComponent.Proofs.Component.Sums

/-!
Literals and keys read back. What is written for a text is one literal on one
line, from which the text can be read; a key is such a literal or the name
itself. So names that differ have keys that differ, and entries of a written
object that have different names are different.
-/

namespace TypedComponent

namespace Text

/-- Where a text has quotes that no backslash escapes, given the place of its
first character. -/
def bareQuotes (place : Nat) : Text → List Nat
  | [] => []
  | '\\' :: _ :: rest => bareQuotes (place + 2) rest
  | c :: rest =>
    if c = '"' then place :: bareQuotes (place + 1) rest else bareQuotes (place + 1) rest

theorem bareQuotes_plain {c : Char} (hquote : c ≠ '"') (hbackslash : c ≠ '\\') (place : Nat)
    (rest : Text) : bareQuotes place (c :: rest) = bareQuotes (place + 1) rest := by
  rw [bareQuotes]
  · exact if_neg hquote
  · intro _ _ hescape
    exact absurd hescape hbackslash

/-- What is written for a character has no quote that ends the literal. -/
theorem bareQuotes_escaped (c : Char) (place : Nat) (rest : Text) :
    bareQuotes place (escaped c ++ rest) = bareQuotes (place + (escaped c).length) rest := by
  unfold escaped
  split_ifs with hquote hbackslash hline hfeed htab hseparator hparagraph
  case neg => exact bareQuotes_plain hquote hbackslash place rest
  all_goals rfl

theorem bareQuotes_quoted (text : Text) :
    bareQuotes 0 (quoted text) = [0, (quoted text).length - 1] := by
  have hinside (place : Nat) : bareQuotes place (text.flatMap escaped ++ ['"']) =
      [place + (text.flatMap escaped).length] := by
    induction text generalizing place with
    | nil => rfl
    | cons c text ih =>
      rw [List.flatMap_cons, List.append_assoc, bareQuotes_escaped, ih, List.length_append,
        Nat.add_assoc]
  have hopening : bareQuotes 0 (quoted text) =
      0 :: bareQuotes 1 (text.flatMap escaped ++ ['"']) := rfl
  rw [hopening, hinside, quoted, List.length_cons, List.length_append, Nat.add_comm 1]
  rfl

theorem any_isLineEnd_escaped (c : Char) : (escaped c).any Script.isLineEnd = false := by
  unfold escaped
  split_ifs with hquote hbackslash hline hfeed htab hseparator hparagraph
  case neg => simp [Script.isLineEnd, hline, hfeed, hseparator, hparagraph]
  all_goals rfl

theorem isLineEnd_quoted (text : Text) : ∀ d ∈ quoted text, Script.isLineEnd d = false := by
  intro d hd
  simp only [quoted, List.mem_cons, List.mem_append, List.mem_flatMap, List.not_mem_nil,
    or_false] at hd
  rcases hd with rfl | ⟨c, -, hc⟩ | rfl
  · rfl
  · exact Bool.eq_false_iff.mpr (List.any_eq_false.mp (any_isLineEnd_escaped c) d hc)
  · rfl

/-- A key without quotes begins with no quote and has no colon. -/
theorem head_ne_quote_of_isPlainKey {name : Text} (h : isPlainKey name = true) :
    ∃ c rest, name = c :: rest ∧ c ≠ '"' := by
  cases name with
  | nil => cases h
  | cons c rest =>
    refine ⟨c, rest, rfl, ?_⟩
    rintro rfl
    exact absurd (isPlainKey_mem h List.mem_cons_self) (by decide)

theorem takeWhile_of_isPlainKey {name : Text} (h : isPlainKey name = true) (rest : Text) :
    (name ++ ':' :: rest).takeWhile (· ≠ ':') = name := by
  have hname : ∀ c ∈ name, decide (c ≠ ':') = true := by
    intro c hc
    rw [decide_eq_true_iff]
    rintro rfl
    exact absurd (isPlainKey_mem h hc) (by decide)
  rw [List.takeWhile_append_of_pos hname, List.takeWhile_cons_of_neg (by decide), List.append_nil]

/-- A key in front of a colon can be told from what follows. -/
theorem objectKey_colon_inj {name other rest more : Text}
    (h : objectKey name ++ ':' :: rest = objectKey other ++ ':' :: more) :
    name = other ∧ rest = more := by
  unfold objectKey at h
  split_ifs at h with hname hother hother
  · have hkeys := congrArg (List.takeWhile (· ≠ ':')) h
    rw [takeWhile_of_isPlainKey hname, takeWhile_of_isPlainKey hother] at hkeys
    subst hkeys
    exact ⟨rfl, (List.cons.inj (List.append_cancel_left h)).2⟩
  · obtain ⟨c, last, rfl, hc⟩ := head_ne_quote_of_isPlainKey hname
    exact absurd (List.cons.inj h).1 hc
  · obtain ⟨c, last, rfl, hc⟩ := head_ne_quote_of_isPlainKey hother
    exact absurd (List.cons.inj h).1.symm hc
  · have hread := congrArg (Script.Token.read false) h
    rw [Script.read_quoted, Script.read_quoted] at hread
    simpa using hread

end Text

namespace Component

open Text (bareQuotes objectKey quoted)

/-- The name that a key stands for: what a literal is worth, and else the key
itself. -/
def readKey? : Text → Option Text
  | '"' :: rest => literal? ('"' :: rest)
  | key => some key

theorem readKey?_objectKey (name : Text) : readKey? (objectKey name) = some name := by
  unfold Text.objectKey
  split_ifs with hplain
  · obtain ⟨c, rest, rfl, hc⟩ := Text.head_ne_quote_of_isPlainKey hplain
    rw [readKey?]
    intro _ hquote
    exact absurd (List.cons.inj hquote).1 hc
  · exact literal?_quoted name

/-- What is written for a text has a quote in front and one behind and else only
escaped ones, it is one line, and a script reads it as one literal for that text
whatever stands behind it. A key is read back as the name it was written for, so
different names have different keys, and the entries that are written for slots
and props tell which names they are for. -/
theorem objectKey_readBack :
    (∀ text, bareQuotes 0 (quoted text) = [0, (quoted text).length - 1] ∧
      (∀ c ∈ quoted text, Script.isLineEnd c = false) ∧
      ∀ atStart rest, Script.Token.read atStart (quoted text ++ rest) = (.string text, rest)) ∧
    (∀ name, readKey? (objectKey name) = some name) ∧
    Function.Injective objectKey ∧
    (∀ slot other, Slots.slotEntry slot = Slots.slotEntry other → slot.1 = other.1) ∧
    ∀ prop other, Slots.propsEntry prop = Slots.propsEntry other → prop = other := by
  refine ⟨?_, readKey?_objectKey, ?_, ?_, ?_⟩
  · intro text
    exact ⟨Text.bareQuotes_quoted text, Text.isLineEnd_quoted text,
      fun atStart rest => Script.read_quoted atStart text rest⟩
  · intro name other hkeys
    have hread := readKey?_objectKey name
    rw [hkeys, readKey?_objectKey, Option.some.injEq] at hread
    exact hread.symm
  · intro slot other hentries
    rw [Slots.slotEntry, Slots.slotEntry, List.append_assoc, List.append_assoc] at hentries
    exact (Text.objectKey_colon_inj hentries).1
  · intro prop other hentries
    exact Prod.ext_iff.mpr (Text.objectKey_colon_inj hentries)

end Component

end TypedComponent
