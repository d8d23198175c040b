import TypedComponent.Proofs.Script.Layout

/-!
Parsers for scripts that are made of some given statements. None of these begins with
a blank, and none begins with another, so that a text is such a script in at most one
way. All of them may follow one another, with any blanks between them.
-/

namespace TypedComponent.Script

structure Stock where
  phrases : List Phrase
  starts : ∀ phrase ∈ phrases, ∃ first rest, phrase.text = first :: rest ∧
    Text.isBlank first = false ∧ first ≠ '\uFEFF'
  apart : ∀ phrase ∈ phrases, ∀ other ∈ phrases, ∀ rest,
    other.text = phrase.text ++ rest → other = phrase

namespace Stock

open Layout (behind itemsFrom)

/-- The statement that a text begins with, and what is behind it. -/
def next? (stock : Stock) (text : Text) : Option (Phrase × Text) :=
  stock.phrases.findSome? fun phrase => (Text.after? phrase.text text).map (phrase, ·)

/-- The statements of a text, if there are no more than the fuel allows. -/
def scan (stock : Stock) : Nat → Text → Option Layout
  | 0, text => if Text.allBlank text then some ⟨[], text⟩ else none
  | fuel + 1, text =>
    if Text.allBlank text then some ⟨[], text⟩
    else do
      let (phrase, rest) ← stock.next? (text.dropWhile Text.isBlank)
      let layout ← stock.scan fuel rest
      return behind [(text.takeWhile Text.isBlank, phrase)] layout

/-- The parser that knows the statements of a stock. -/
def parser (stock : Stock) (base : Nat) : Parser where
  base := base
  parse content := match stock.scan content.length content with
    | some layout => .ok (itemsFrom base layout.passages)
    | none => .error ⟨"Unexpected token".toList, base⟩

/-- A script of statements of a stock, with nothing but blanks around them. -/
structure Makes (stock : Stock) (layout : Layout) : Prop where
  gap : ∀ passage ∈ layout.passages, Text.allBlank passage.1 = true
  phrase : ∀ passage ∈ layout.passages, passage.2 ∈ stock.phrases
  tail : Text.allBlank layout.tail = true

variable {stock : Stock}

theorem makes_behind {front : List (Text × Phrase)} {rest : Layout} :
    stock.Makes (behind front rest) ↔ (∀ passage ∈ front, Text.allBlank passage.1 = true) ∧
      (∀ passage ∈ front, passage.2 ∈ stock.phrases) ∧ stock.Makes rest := by
  constructor
  · rintro ⟨hgap, hphrase, htail⟩
    rw [behind, List.forall_mem_append] at hgap hphrase
    exact ⟨hgap.1, hphrase.1, hgap.2, hphrase.2, htail⟩
  · rintro ⟨hgap, hphrase, hrest⟩
    exact ⟨List.forall_mem_append.mpr ⟨hgap, hrest.gap⟩,
      List.forall_mem_append.mpr ⟨hphrase, hrest.phrase⟩, hrest.tail⟩

theorem makes_cons {gap tail : Text} {phrase : Phrase} {others : List (Text × Phrase)} :
    stock.Makes ⟨(gap, phrase) :: others, tail⟩ ↔
      Text.allBlank gap = true ∧ phrase ∈ stock.phrases ∧ stock.Makes ⟨others, tail⟩ := by
  constructor
  · rintro ⟨hgap, hphrase, htail⟩
    exact ⟨hgap _ List.mem_cons_self, hphrase _ List.mem_cons_self,
      fun passage hmem => hgap passage (List.mem_cons_of_mem _ hmem),
      fun passage hmem => hphrase passage (List.mem_cons_of_mem _ hmem), htail⟩
  · rintro ⟨hgap, hphrase, hothers⟩
    exact ⟨List.forall_mem_cons.mpr ⟨hgap, hothers.gap⟩,
      List.forall_mem_cons.mpr ⟨hphrase, hothers.phrase⟩, hothers.tail⟩

theorem Makes.lead {layout : Layout} (h : stock.Makes layout) {gap : Text}
    (hgap : Text.allBlank gap = true) : stock.Makes (layout.lead gap) := by
  obtain ⟨passages, tail⟩ := layout
  have hboth {first : Text} (hfirst : Text.allBlank first = true) :
      Text.allBlank (gap ++ first) = true := by
    simp_all [Text.allBlank]
  cases passages with
  | nil => exact ⟨nofun, nofun, hboth h.tail⟩
  | cons passage others =>
    obtain ⟨first, phrase⟩ := passage
    rw [makes_cons] at h
    exact makes_cons.mpr ⟨hboth h.1, h.2⟩

section Next

theorem next?_sound {text rest : Text} {phrase : Phrase}
    (h : stock.next? text = some (phrase, rest)) :
    phrase ∈ stock.phrases ∧ text = phrase.text ++ rest := by
  obtain ⟨own, hmem, hafter⟩ := List.exists_of_findSome?_eq_some h
  obtain ⟨found, hfound, heq⟩ := Option.map_eq_some_iff.mp hafter
  cases heq
  exact ⟨hmem, Text.eq_append_of_after? hfound⟩

theorem next?_append {phrase : Phrase} (hmem : phrase ∈ stock.phrases) (rest : Text) :
    stock.next? (phrase.text ++ rest) = some (phrase, rest) := by
  cases hnext : stock.next? (phrase.text ++ rest) with
  | none =>
    have hnone := List.findSome?_eq_none_iff.mp hnext phrase hmem
    rw [Text.after?_append] at hnone
    cases hnone
  | some found =>
    obtain ⟨other, behind⟩ := found
    obtain ⟨hother, htext⟩ := next?_sound hnext
    have hsame : other = phrase := by
      rcases List.append_eq_append_iff.mp htext with ⟨more, hmore, -⟩ | ⟨more, hmore, -⟩
      · exact stock.apart phrase hmem other hother more hmore
      · exact (stock.apart other hother phrase hmem more hmore).symm
    subst hsame
    rw [List.append_cancel_left htext]

end Next

section Scan

theorem scan_sound {fuel : Nat} {text : Text} {layout : Layout}
    (h : stock.scan fuel text = some layout) : layout.text = text ∧ stock.Makes layout := by
  induction fuel generalizing text layout with
  | zero =>
    unfold scan at h
    split at h
    · next hblank =>
      cases h
      exact ⟨rfl, nofun, nofun, hblank⟩
    · cases h
  | succ fuel ih =>
    unfold scan at h
    split at h
    · next hblank =>
      cases h
      exact ⟨rfl, nofun, nofun, hblank⟩
    · obtain ⟨⟨phrase, rest⟩, hnext, hscan⟩ := Option.bind_eq_some_iff.mp h
      obtain ⟨others, hothers, hlayout⟩ := Option.bind_eq_some_iff.mp hscan
      cases hlayout
      obtain ⟨hmem, htext⟩ := next?_sound hnext
      obtain ⟨hrest, hmakes⟩ := ih hothers
      refine ⟨?_, makes_behind.mpr ⟨?_, ?_, hmakes⟩⟩
      · rw [Layout.text_behind, hrest, Layout.written_cons, Layout.written_nil, List.append_nil,
          List.append_assoc, ← htext, List.takeWhile_append_dropWhile]
      · rintro passage hpassage
        cases List.mem_singleton.mp hpassage
        exact List.all_takeWhile
      · rintro passage hpassage
        cases List.mem_singleton.mp hpassage
        exact hmem

theorem scan_text {fuel : Nat} {layout : Layout} (h : stock.Makes layout)
    (hfuel : layout.text.length ≤ fuel) : stock.scan fuel layout.text = some layout := by
  obtain ⟨passages, tail⟩ := layout
  induction passages generalizing fuel with
  | nil =>
    have htail : Text.allBlank (Layout.text ⟨[], tail⟩) = true := h.tail
    cases fuel <;>
    · rw [scan, if_pos htail]
      rfl
  | cons passage others ih =>
    obtain ⟨gap, phrase⟩ := passage
    obtain ⟨hgap, hmem, hothers⟩ := makes_cons.mp h
    have hblank := List.all_eq_true.mp hgap
    obtain ⟨first, rest, hstarts, hfirst, -⟩ := stock.starts phrase hmem
    have htext : Layout.text ⟨(gap, phrase) :: others, tail⟩ =
        gap ++ (phrase.text ++ Layout.text ⟨others, tail⟩) := by
      simp [Layout.text]
    have hdrop : (gap ++ (phrase.text ++ Layout.text ⟨others, tail⟩)).dropWhile Text.isBlank =
        phrase.text ++ Layout.text ⟨others, tail⟩ := by
      rw [hstarts, List.cons_append, dropWhile_isBlank _ hblank hfirst]
    have htake : (gap ++ (phrase.text ++ Layout.text ⟨others, tail⟩)).takeWhile Text.isBlank =
        gap := by
      rw [hstarts, List.cons_append, takeWhile_isBlank _ hblank hfirst]
    have hnot : ¬ Text.allBlank (gap ++ (phrase.text ++ Layout.text ⟨others, tail⟩)) = true := by
      simp [Text.allBlank, hstarts, hfirst]
    rw [htext] at hfuel ⊢
    cases fuel with
    | zero => simp [hstarts] at hfuel
    | succ fuel =>
      have hlength : (Layout.text ⟨others, tail⟩).length ≤ fuel := by
        simp only [hstarts, List.length_append, List.length_cons] at hfuel
        omega
      rw [scan, if_neg hnot, hdrop, htake, next?_append hmem]
      simp only [Option.bind_eq_bind, Option.bind_some, ih hothers hlength]
      rfl

end Scan

theorem unmarked_of_blank {gap rest : Text} (hgap : Text.allBlank gap = true)
    (hrest : Unmarked rest) : Unmarked (gap ++ rest) := by
  cases gap with
  | nil => exact hrest
  | cons first gap =>
    intro hmark
    cases hmark
    exact absurd hgap (by simp [Text.allBlank, show Text.isBlank '\uFEFF' = false by decide])

theorem Makes.unmarked {layout : Layout} (h : stock.Makes layout) : Unmarked layout.text := by
  obtain ⟨passages, tail⟩ := layout
  cases passages with
  | nil =>
    rw [Layout.text, Layout.written_nil, List.nil_append, ← List.append_nil tail]
    exact unmarked_of_blank h.tail (Option.some_ne_none _).symm
  | cons passage others =>
    obtain ⟨gap, phrase⟩ := passage
    obtain ⟨first, rest, hstarts, -, hfirst⟩ :=
      stock.starts phrase (h.phrase (gap, phrase) List.mem_cons_self)
    simp only [Layout.text, Layout.written_cons, List.append_assoc]
    refine unmarked_of_blank (h.gap (gap, phrase) List.mem_cons_self) ?_
    rw [hstarts]
    exact fun hmark => hfirst (Option.some.inj hmark)

/-- What the parser of a stock reads are the scripts of its statements. -/
theorem reads_iff {base : Nat} {layout : Layout} :
    (stock.parser base).Reads layout ↔ stock.Makes layout := by
  constructor
  · rintro ⟨-, hparse⟩
    unfold parser at hparse
    dsimp only at hparse
    split at hparse
    · next found hscan =>
      obtain ⟨htext, hmakes⟩ := scan_sound hscan
      rwa [← Layout.unique htext (Except.ok.inj hparse)]
    · cases hparse
  · intro h
    refine ⟨h.unmarked, ?_⟩
    unfold parser
    dsimp only
    rw [scan_text h (Nat.le_refl _)]

theorem crosses (stock : Stock) (base : Nat) : (stock.parser base).Crosses := by
  intro front gap phrase rest front' gap' rest' hfirst hsecond
  rw [reads_iff, makes_behind] at *
  exact ⟨hfirst.1, hfirst.2.1, hsecond.2.2⟩

end Stock

end TypedComponent.Script
