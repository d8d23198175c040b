import Mathlib.Data.List.Infix
import Mathlib.Data.List.DropRight
import TypedComponent.Component.Name

/-!
The name of a component in terms of its file's stem. Every character that a
name keeps is looked at with the text in front of it, which alone decides
whether a word begins there. Names are usable as they are: a name is its own
file name, stem and first word.
-/

namespace TypedComponent.Component

open Text

/-- The characters of a stem that a name keeps. -/
def isKept (c : Char) : Bool := isAlphanumeric c || c = '_'

/-- The signs between two words. Other characters that are left out are within
a word. -/
def endsWord (c : Char) : Bool := c = '-' || c = '.'

/-- Whether a word begins behind a text: it is the first, or there is a sign
among the characters that are left out right there. -/
def opensWord (before : Text) : Bool :=
  before.all (!isKept ·) || (before.rtakeWhile (!isKept ·)).any endsWord

/-- A character of a name, from the stem's character and the text before it. -/
def nameChar (before : Text) (c : Char) : Char :=
  if opensWord before then asciiUpper c else c

/-- The characters of a text that a name keeps, each with the text before it. -/
def keptPlaces (text : Text) : List (Text × Char) :=
  (text.inits.zip text).filter (isKept ·.2)

/-- The stem of the file that a path names, if it names one. -/
def stemOf? (path : Text) : Option Text := (fileName? path).map stem

section Characters

variable {c : Char}

theorem isKept_of_isAlphabetic (h : isAlphabetic c = true) : isKept c = true := by
  simp [isKept, isAlphanumeric, h]

theorem asciiUpper_of_not_lower (h : ¬ ('a' ≤ c ∧ c ≤ 'z')) : asciiUpper c = c := if_neg h

/-- A lower case letter becomes another letter. -/
theorem asciiUpper_of_lower (h : 'a' ≤ c ∧ c ≤ 'z') :
    isAlphabetic (asciiUpper c) = true ∧ ¬ ('a' ≤ asciiUpper c ∧ asciiUpper c ≤ 'z') := by
  have hall : ∀ code ≤ 122, 97 ≤ code →
      isAlphabetic (asciiUpper (Char.ofNat code)) = true ∧
        ¬ ('a' ≤ asciiUpper (Char.ofNat code) ∧ asciiUpper (Char.ofNat code) ≤ 'z') := by
    decide
  have hcode := hall c.toNat h.2 h.1
  rwa [Char.ofNat_toNat] at hcode

theorem asciiUpper_not_lower (c : Char) : ¬ ('a' ≤ asciiUpper c ∧ asciiUpper c ≤ 'z') := by
  by_cases h : 'a' ≤ c ∧ c ≤ 'z'
  · exact (asciiUpper_of_lower h).2
  · rwa [asciiUpper_of_not_lower h]

theorem isAlphabetic_asciiUpper (h : isAlphabetic c = true) :
    isAlphabetic (asciiUpper c) = true := by
  by_cases hlower : 'a' ≤ c ∧ c ≤ 'z'
  · exact (asciiUpper_of_lower hlower).1
  · rwa [asciiUpper_of_not_lower hlower]

theorem isKept_asciiUpper (h : isKept c = true) : isKept (asciiUpper c) = true := by
  by_cases hlower : 'a' ≤ c ∧ c ≤ 'z'
  · exact isKept_of_isAlphabetic (asciiUpper_of_lower hlower).1
  · rwa [asciiUpper_of_not_lower hlower]

theorem isKept_nameChar (before : Text) (h : isKept c = true) :
    isKept (nameChar before c) = true := by
  unfold nameChar
  split
  · exact isKept_asciiUpper h
  · exact h

end Characters

section Words

variable {before : Text} {c : Char}

theorem opensWord_nil : opensWord [] = true := rfl

/-- No word begins right behind a character that is kept. -/
theorem opensWord_kept (h : isKept c = true) : opensWord (before ++ [c]) = false := by
  simp [opensWord, h]

theorem opensWord_dropped (h : isKept c = false) :
    opensWord (before ++ [c]) = (opensWord before || endsWord c) := by
  simp [opensWord, h, Bool.or_assoc]

theorem keptPlaces_cons (c : Char) (rest : Text) :
    keptPlaces (c :: rest) =
      (if isKept c then [([], c)] else []) ++
        (keptPlaces rest).map fun place => (c :: place.1, place.2) := by
  have hrest : (rest.inits.map (c :: ·)).zip rest =
      (rest.inits.zip rest).map fun place => (c :: place.1, place.2) := List.zip_map_left
  simp only [keptPlaces, List.inits_cons, List.zip_cons_cons, hrest, List.filter_cons,
    List.filter_map, Function.comp_def]
  split <;> rfl

theorem joinWords_cons (startsWord : Bool) (c : Char) (rest : Text) :
    joinWords startsWord (c :: rest) =
      if isKept c then (if startsWord then asciiUpper c else c) :: joinWords false rest
      else joinWords (startsWord || endsWord c) rest := by
  rw [endsWord, ← Bool.or_assoc]
  rfl

/-- The words of a text that stands behind another one. -/
theorem joinWords_eq (before text : Text) :
    joinWords (opensWord before) text =
      (keptPlaces text).map fun place => nameChar (before ++ place.1) place.2 := by
  induction text generalizing before with
  | nil => rfl
  | cons c rest ih =>
    have hrest : (keptPlaces rest).map (fun place => nameChar (before ++ [c] ++ place.1) place.2) =
        ((keptPlaces rest).map fun place => (c :: place.1, place.2)).map fun place =>
          nameChar (before ++ place.1) place.2 := by
      simp [Function.comp_def]
    rw [keptPlaces_cons, List.map_append, ← hrest, ← ih]
    by_cases hkept : isKept c = true
    · rw [opensWord_kept hkept, joinWords_cons, if_pos hkept, if_pos hkept]
      simp [nameChar]
    · rw [opensWord_dropped (Bool.eq_false_iff.mpr hkept), joinWords_cons, if_neg hkept,
        if_neg hkept]
      rfl

/-- A name consists of characters that names keep. -/
theorem isKept_of_mem_joinWords {text : Text} (h : c ∈ joinWords (opensWord before) text) :
    isKept c = true := by
  rw [joinWords_eq] at h
  obtain ⟨place, hplace, rfl⟩ := List.mem_map.mp h
  exact isKept_nameChar _ (List.mem_filter.mp hplace).2

/-- Within a word nothing is changed. -/
theorem joinWords_kept {word : Text} (h : ∀ c ∈ word, isKept c = true) :
    joinWords false word = word := by
  induction word with
  | nil => rfl
  | cons c word ih =>
    obtain ⟨hc, hword⟩ := List.forall_mem_cons.mp h
    rw [joinWords_cons, if_pos hc, ih hword]
    rfl

end Words

section Stem

/-- What makes a text usable as a name: letters, digits and underscores with a
letter in front, which is not a lower case one of ASCII. -/
structure IsName (name : Text) : Prop where
  nonempty : name ≠ []
  kept : ∀ c ∈ name, isAlphanumeric c = true ∨ c = '_'
  letter : ∀ c ∈ name.head?, isAlphabetic c = true
  upper : ∀ c ∈ name.head?, ¬ ('a' ≤ c ∧ c ≤ 'z')

variable {stem : Text}

/-- A stem without a letter gives no name. -/
theorem nameOfStem_without_letter (h : ∀ c ∈ stem, isAlphabetic c = false) :
    nameOfStem stem = fallbackName := by
  have hnone : stem.dropWhile (!isAlphabetic ·) = [] := by
    simpa [List.dropWhile_eq_nil_iff] using h
  unfold nameOfStem
  rw [hnone]
  rfl

/-- A stem from its first letter on. -/
theorem exists_letter (h : ∃ c ∈ stem, isAlphabetic c = true) :
    ∃ c rest, stem.dropWhile (!isAlphabetic ·) = c :: rest ∧ isAlphabetic c = true := by
  cases htext : stem.dropWhile (!isAlphabetic ·) with
  | nil =>
    obtain ⟨c, hmem, hc⟩ := h
    have hnone := List.dropWhile_eq_nil_iff.mp htext c hmem
    simp [hc] at hnone
  | cons c rest =>
    have hhead := List.head?_dropWhile_not (!isAlphabetic ·) stem
    rw [htext] at hhead
    exact ⟨c, rest, rfl, by simpa using hhead⟩

theorem joinWords_letter {c : Char} (rest : Text) (h : isAlphabetic c = true) :
    joinWords true (c :: rest) = asciiUpper c :: joinWords false rest := by
  rw [joinWords_cons, if_pos (isKept_of_isAlphabetic h)]
  rfl

theorem nameOfStem_eq (h : ∃ c ∈ stem, isAlphabetic c = true) :
    nameOfStem stem = (keptPlaces (stem.dropWhile (!isAlphabetic ·))).map fun place =>
      nameChar place.1 place.2 := by
  have hwords := joinWords_eq [] (stem.dropWhile (!isAlphabetic ·))
  obtain ⟨c, rest, htext, hc⟩ := exists_letter h
  unfold nameOfStem
  simp only [List.nil_append, opensWord_nil] at hwords
  rw [← hwords, htext, joinWords_letter rest hc]

theorem isName_fallbackName : IsName fallbackName where
  nonempty := by decide
  kept c hc := by
    have hall : fallbackName.all isKept = true := by decide
    simpa [isKept] using List.all_eq_true.mp hall c hc
  letter := by
    rintro _ ⟨⟩
    decide
  upper := by
    rintro _ ⟨⟩
    decide

theorem isName_nameOfStem (stem : Text) : IsName (nameOfStem stem) := by
  by_cases h : ∃ c ∈ stem, isAlphabetic c = true
  · obtain ⟨c, rest, htext, hc⟩ := exists_letter h
    have hname : nameOfStem stem = joinWords true (c :: rest) := by
      unfold nameOfStem
      rw [htext, joinWords_letter rest hc]
    have hhead : (nameOfStem stem).head? = some (asciiUpper c) := by
      rw [hname, joinWords_letter rest hc]
      rfl
    refine ⟨?_, ?_, ?_, ?_⟩
    · rw [hname, joinWords_letter rest hc]
      exact List.cons_ne_nil _ _
    · intro d hd
      rw [hname] at hd
      have hplaced : d ∈ joinWords (opensWord []) (c :: rest) := hd
      simpa [isKept] using isKept_of_mem_joinWords hplaced
    · intro d hd
      rw [hhead] at hd
      exact Option.some.inj hd ▸ isAlphabetic_asciiUpper hc
    · intro d hd
      rw [hhead] at hd
      exact Option.some.inj hd ▸ asciiUpper_not_lower c
  · have hnone : ∀ c ∈ stem, isAlphabetic c = false := by simpa using h
    rw [nameOfStem_without_letter hnone]
    exact isName_fallbackName

end Stem

section Path

variable {name : Text}

theorem pathParts_of_not_mem (h : '/' ∉ name) : pathParts name = [name] := by
  induction name with
  | nil => rfl
  | cons c name ih =>
    rw [List.mem_cons, not_or] at h
    rw [pathParts, ih h.2]
    exact if_neg (Ne.symm h.1)

theorem stem_of_not_mem (h : '.' ∉ name) : Component.stem name = name := by
  have hall : name.reverse.dropWhile (· ≠ '.') = [] := by
    rw [List.dropWhile_eq_nil_iff]
    intro c hc
    rw [decide_eq_true_eq]
    rintro rfl
    exact h (List.mem_reverse.mp hc)
  unfold Component.stem
  rw [hall]
  rfl

namespace IsName

theorem not_mem (h : IsName name) {c : Char} (hc : isKept c = false) : c ∉ name := by
  intro hmem
  have hkept : isKept c = true := by simpa [isKept] using h.kept c hmem
  rw [hkept] at hc
  cases hc

theorem stemOf? (h : IsName name) : stemOf? name = some name := by
  have hdot : '.' ∉ name := h.not_mem (by decide)
  have hslash : '/' ∉ name := h.not_mem (by decide)
  have hself : name ≠ ['.'] := by
    rintro rfl
    exact hdot (List.mem_singleton_self _)
  have hparent : name ≠ ['.', '.'] := by
    rintro rfl
    exact hdot List.mem_cons_self
  simp [Component.stemOf?, fileName?, pathParts_of_not_mem hslash, h.nonempty, hself, hparent,
    stem_of_not_mem hdot]

/-- A name is what it gives as a stem. -/
theorem nameOfStem (h : IsName name) : nameOfStem name = name := by
  obtain ⟨c, rest, rfl⟩ := List.exists_cons_of_ne_nil h.nonempty
  have hc : isAlphabetic c = true := h.letter c rfl
  have hupper : asciiUpper c = c := asciiUpper_of_not_lower (h.upper c rfl)
  have hrest : ∀ d ∈ rest, isKept d = true := fun d hd => by
    simpa [isKept] using h.kept d (List.mem_cons_of_mem c hd)
  unfold Component.nameOfStem
  rw [List.dropWhile_cons_of_neg (by simp [hc]), joinWords_letter rest hc, joinWords_kept hrest,
    hupper]

end IsName

theorem nameOfPath_eq (path : Text) :
    nameOfPath path = nameOfStem ((stemOf? path).getD fallbackName) := by
  unfold nameOfPath stemOf?
  cases fileName? path <;> rfl

/-- The name of a component is usable as it is. Without a letter in its file's
stem it is the fallback; otherwise it consists of the stem's kept characters
from the first letter on, changed just where words begin. It names itself. -/
theorem nameOfPath_spec (path : Text) :
    IsName (nameOfPath path) ∧
      ((∀ stem ∈ stemOf? path, ∀ c ∈ stem, isAlphabetic c = false) →
        nameOfPath path = "Component".toList) ∧
      (∀ stem ∈ stemOf? path, (∃ c ∈ stem, isAlphabetic c = true) →
        nameOfPath path = (keptPlaces (stem.dropWhile (!isAlphabetic ·))).map fun place =>
          nameChar place.1 place.2) ∧
      nameOfPath (nameOfPath path) = nameOfPath path := by
  have hname : IsName (nameOfPath path) := by
    rw [nameOfPath_eq]
    exact isName_nameOfStem _
  refine ⟨hname, ?_, ?_, ?_⟩
  · intro hnone
    rw [nameOfPath_eq]
    cases hstem : stemOf? path with
    | none => decide
    | some stem => exact nameOfStem_without_letter (hnone stem hstem)
  · intro stem hstem hletter
    rw [nameOfPath_eq, hstem]
    exact nameOfStem_eq hletter
  · rw [nameOfPath_eq (nameOfPath path), hname.stemOf?]
    exact hname.nameOfStem

example : nameOfPath "src/+my$-date.picker_2.svelte".toList = "MyDatePicker_2".toList := by decide

end Path

end TypedComponent.Component
