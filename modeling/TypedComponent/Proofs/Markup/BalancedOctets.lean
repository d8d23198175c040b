import Mathlib.Data.Bool.AllAny
import TypedComponent.Proofs.Markup.Balanced
import TypedComponent.Proofs.Text.Octets

/-!
Balanced bytes. All signs of the grammar of balanced text are single bytes, and
a backslash takes away the next byte as it takes away the next character, since
what is left of a longer character is no sign. So the bytes of a text are
balanced just where the text is.
-/

namespace TypedComponent

namespace Text

variable {first last : Char} {inner rest text : Text}

theorem octets_enclosed (hfirst : IsSign first) (hlast : IsSign last) :
    octets (first :: inner ++ last :: rest) = first :: octets inner ++ last :: octets rest := by
  rw [octets_append, octets_sign_cons hfirst, octets_sign_cons hlast]

/-- The bytes between two signs are those of the text between them. -/
theorem exists_enclosed (hfirst : IsSign first) (hlast : IsSign last)
    (h : EndsInOctets (first :: inner ++ last :: rest) text) :
    ∃ a b, text = first :: a ++ last :: b ∧ octets a = inner ∧ octets b = rest := by
  obtain ⟨behind, rfl, hbehind⟩ := h.sign_cons hfirst
  obtain ⟨a, b, rfl, ha, hb⟩ := exists_of_octets hlast hbehind
  exact ⟨a, b, rfl, ha, hb⟩

end Text

namespace Markup

open Text (EndsInOctets octets)

/-- The signs of the grammar. -/
theorem isSign_of_mem {c : Char} (h : c ∈ "\x7b\x7d\"'\x60/*\\$\n".toList) : IsSign c := by
  have hall : ∀ d ∈ "\x7b\x7d\"'\x60/*\\$\n".toList, IsSign d :=
    List.all_iff_forall_prop.mp (by decide)
  exact hall c h

theorem isSign_quote {quote : Char} (quotes : quote = '"' ∨ quote = '\'') : IsSign quote := by
  rcases quotes with rfl | rfl <;> decide

theorem octets_comment_end (a b : Text) :
    octets (a ++ '*' :: '/' :: b) = octets a ++ '*' :: '/' :: octets b := by
  rw [Text.octets_append, Text.octets_sign_cons (by decide), Text.octets_sign_cons (by decide)]

section FromBytes

variable {quote : Char} {context : BraceContext} {bytes text : Text}

theorem InQuotes.of_octets (hquote : IsSign quote) (h : InQuotes quote bytes)
    (hbytes : EndsInOctets bytes text) : InQuotes quote text := by
  induction h generalizing text with
  | done =>
    rw [hbytes.eq_nil]
    exact .done
  | plain away more ih =>
    rcases hbytes.cons with ⟨-, hrest⟩ | ⟨d, rest, rfl, hrest, ⟨rfl, -⟩ | ⟨-, hd⟩⟩
    · exact ih hrest
    · exact .plain away (ih hrest)
    · refine .plain ⟨?_, ?_⟩ (ih hrest)
      · rintro rfl
        exact hd hquote
      · rintro rfl
        exact hd (by decide)
  | escaped c more ih =>
    obtain ⟨behind, rfl, hbehind⟩ := hbytes.sign_cons (by decide)
    obtain ⟨d, rest, rfl, hrest, -⟩ := EndsInOctets.of_cons hbehind
    exact .escaped d (ih hrest)

theorem Balanced.of_octets (h : Balanced context bytes) (hbytes : EndsInOctets bytes text) :
    Balanced context text := by
  induction h generalizing text with
  | done =>
    rw [hbytes.eq_nil]
    exact .done
  | plain away slash more ih =>
    rcases hbytes.cons with ⟨-, hrest⟩ | ⟨d, rest, rfl, hrest, ⟨rfl, rfl⟩ | ⟨-, hd⟩⟩
    · exact ih hrest
    · refine .plain away (fun hc e he => ⟨?_, ?_⟩) (ih hrest)
      · rintro rfl
        exact (slash hc _ ((Text.head?_octets (by decide)).mpr he)).1 rfl
      · rintro rfl
        exact (slash hc _ ((Text.head?_octets (by decide)).mpr he)).2 rfl
    · refine .plain (fun hmem => hd (isSign_of_mem ?_)) (fun hc => ?_) (ih hrest)
      · exact List.mem_append_left "/*\\$\n".toList hmem
      · exact absurd (by rw [hc]; decide) hd
  | braces inside more ihInside ihMore =>
    obtain ⟨a, b, rfl, rfl, rfl⟩ := Text.exists_enclosed (by decide) (by decide) hbytes
    exact (ihInside (.refl a)).braces (ihMore (.refl b))
  | quoted quotes inside more ih =>
    have hquote := isSign_quote quotes
    obtain ⟨a, b, rfl, rfl, rfl⟩ := Text.exists_enclosed hquote hquote hbytes
    exact (ih (.refl b)).quoted quotes (inside.of_octets hquote (.refl a))
  | template inside more ihInside ihMore =>
    obtain ⟨a, b, rfl, rfl, rfl⟩ := Text.exists_enclosed (by decide) (by decide) hbytes
    exact (ihInside (.refl a)).template (ihMore (.refl b))
  | lineComment inside more ih =>
    obtain ⟨behind, rfl, hbehind⟩ := hbytes.sign_cons (by decide)
    obtain ⟨a, b, rfl, rfl, rfl⟩ :=
      Text.exists_enclosed (by decide) (by decide) (EndsInOctets.of_eq hbehind)
    exact (ih (.refl b)).lineComment (mt (Text.mem_octets (by decide)).mpr inside)
  | blockComment inside more ih =>
    obtain ⟨behind, rfl, hbehind⟩ := hbytes.sign_cons (by decide)
    obtain ⟨a, b, rfl, rfl, hb⟩ :=
      Text.exists_enclosed (by decide) (by decide) (EndsInOctets.of_eq hbehind)
    obtain ⟨b, rfl, rfl⟩ := (EndsInOctets.of_eq hb).sign_cons (by decide)
    refine (ih (.refl b)).blockComment fun front last heq => inside (octets front) (octets last) ?_
    rw [heq, octets_comment_end]
  | literalDone =>
    rw [hbytes.eq_nil]
    exact .literalDone
  | literal away dollar more ih =>
    rcases hbytes.cons with ⟨-, hrest⟩ | ⟨d, rest, rfl, hrest, ⟨rfl, rfl⟩ | ⟨-, hd⟩⟩
    · exact ih hrest
    · refine .literal away (fun hc he => ?_) (ih hrest)
      exact dollar hc ((Text.head?_octets (by decide)).mpr he)
    · refine .literal ⟨?_, ?_⟩ (fun hc => ?_) (ih hrest)
      · rintro rfl
        exact hd (by decide)
      · rintro rfl
        exact hd (by decide)
      · exact absurd (by rw [hc]; decide) hd
  | escaped c more ih =>
    obtain ⟨behind, rfl, hbehind⟩ := hbytes.sign_cons (by decide)
    obtain ⟨d, rest, rfl, hrest, -⟩ := EndsInOctets.of_cons hbehind
    exact .escaped d (ih hrest)
  | substitution inside more ihInside ihMore =>
    obtain ⟨behind, rfl, hbehind⟩ := hbytes.sign_cons (by decide)
    obtain ⟨a, b, rfl, rfl, rfl⟩ :=
      Text.exists_enclosed (by decide) (by decide) (EndsInOctets.of_eq hbehind)
    exact (ihInside (.refl a)).substitution (ihMore (.refl b))

end FromBytes

section ToBytes

variable {quote : Char} {context : BraceContext} {text : Text}

/-- What is no sign is a plain character, of a string, of code and of a template. -/
theorem InQuotes.others_append (hquote : IsSign quote) {run : Text} (h : InQuotes quote text)
    (hrun : ∀ d ∈ run, ¬ IsSign d) : InQuotes quote (run ++ text) := by
  induction run with
  | nil => exact h
  | cons d run ih =>
    obtain ⟨hd, hrest⟩ := List.forall_mem_cons.mp hrun
    refine .plain ⟨?_, ?_⟩ (ih hrest)
    · rintro rfl
      exact hd hquote
    · rintro rfl
      exact hd (by decide)

theorem Balanced.others_append {run : Text} (hcontext : context = .code ∨ context = .template)
    (h : Balanced context text) (hrun : ∀ d ∈ run, ¬ IsSign d) :
    Balanced context (run ++ text) := by
  induction run with
  | nil => exact h
  | cons d run ih =>
    obtain ⟨hd, hrest⟩ := List.forall_mem_cons.mp hrun
    have hfree {e : Char} (he : IsSign e) : d ≠ e := fun heq => hd (heq ▸ he)
    rcases hcontext with rfl | rfl
    · refine .plain (fun hmem => hd (isSign_of_mem ?_)) (fun hslash => ?_) (ih hrest)
      · exact List.mem_append_left "/*\\$\n".toList hmem
      · exact absurd hslash (hfree (by decide))
    · refine .literal ⟨hfree (by decide), hfree (by decide)⟩ (fun hdollar => ?_) (ih hrest)
      exact absurd hdollar (hfree (by decide))

theorem InQuotes.octets (hquote : IsSign quote) (h : InQuotes quote text) :
    InQuotes quote (octets text) := by
  induction h with
  | done => exact .done
  | @plain c rest away more ih =>
    by_cases hc : IsSign c
    · rw [Text.octets_sign_cons hc]
      exact .plain away ih
    · obtain ⟨d, run, hbytes, hd, hrun⟩ := Text.octets_cons_other hc rest
      rw [hbytes]
      exact ih.others_append hquote (List.forall_mem_cons.mpr ⟨hd, hrun⟩)
  | @escaped c rest more ih =>
    rw [Text.octets_sign_cons (by decide)]
    by_cases hc : IsSign c
    · rw [Text.octets_sign_cons hc]
      exact .escaped c ih
    · -- The backslash takes away the first byte, and the others are plain.
      obtain ⟨d, run, hbytes, -, hrun⟩ := Text.octets_cons_other hc rest
      rw [hbytes]
      exact .escaped d (ih.others_append hquote hrun)

theorem Balanced.octets (h : Balanced context text) : Balanced context (octets text) := by
  induction h with
  | done => exact .done
  | @plain c rest away slash more ih =>
    by_cases hc : IsSign c
    · rw [Text.octets_sign_cons hc]
      refine .plain away (fun heq d hd => ⟨?_, ?_⟩) ih
      · rintro rfl
        exact (slash heq _ ((Text.head?_octets (by decide)).mp hd)).1 rfl
      · rintro rfl
        exact (slash heq _ ((Text.head?_octets (by decide)).mp hd)).2 rfl
    · obtain ⟨d, run, hbytes, hd, hrun⟩ := Text.octets_cons_other hc rest
      rw [hbytes]
      exact ih.others_append (.inl rfl) (List.forall_mem_cons.mpr ⟨hd, hrun⟩)
  | braces inside more ihInside ihMore =>
    rw [Text.octets_enclosed (by decide) (by decide)]
    exact ihInside.braces ihMore
  | quoted quotes inside more ih =>
    have hquote := isSign_quote quotes
    rw [Text.octets_enclosed hquote hquote]
    exact ih.quoted quotes (inside.octets hquote)
  | template inside more ihInside ihMore =>
    rw [Text.octets_enclosed (by decide) (by decide)]
    exact ihInside.template ihMore
  | @lineComment body rest inside more ih =>
    have hbytes : Text.octets ('/' :: '/' :: body ++ '\n' :: rest) =
        '/' :: '/' :: Text.octets body ++ '\n' :: Text.octets rest := by
      rw [List.cons_append, Text.octets_sign_cons (by decide),
        Text.octets_enclosed (by decide) (by decide)]
      rfl
    rw [hbytes]
    exact ih.lineComment (mt (Text.mem_octets (by decide)).mp inside)
  | @blockComment body rest inside more ih =>
    have hbytes : Text.octets ('/' :: '*' :: body ++ '*' :: '/' :: rest) =
        '/' :: '*' :: Text.octets body ++ '*' :: '/' :: Text.octets rest := by
      rw [octets_comment_end, Text.octets_sign_cons (by decide), Text.octets_sign_cons (by decide)]
    rw [hbytes]
    refine ih.blockComment fun front last heq => ?_
    obtain ⟨a, b, rfl, -, hb⟩ := Text.exists_of_octets (by decide) heq
    obtain ⟨b, rfl, -⟩ := (EndsInOctets.of_eq hb).sign_cons (by decide)
    exact inside a b rfl
  | literalDone => exact .literalDone
  | @literal c rest away dollar more ih =>
    by_cases hc : IsSign c
    · rw [Text.octets_sign_cons hc]
      exact .literal away (fun heq hd => dollar heq ((Text.head?_octets (by decide)).mp hd)) ih
    · obtain ⟨d, run, hbytes, hd, hrun⟩ := Text.octets_cons_other hc rest
      rw [hbytes]
      exact ih.others_append (.inr rfl) (List.forall_mem_cons.mpr ⟨hd, hrun⟩)
  | @escaped c rest more ih =>
    rw [Text.octets_sign_cons (by decide)]
    by_cases hc : IsSign c
    · rw [Text.octets_sign_cons hc]
      exact ih.escaped c
    · obtain ⟨d, run, hbytes, -, hrun⟩ := Text.octets_cons_other hc rest
      rw [hbytes]
      exact (ih.others_append (.inr rfl) hrun).escaped d
  | @substitution inner rest inside more ihInside ihMore =>
    have hbytes : Text.octets ('$' :: '\x7b' :: inner ++ '\x7d' :: rest) =
        '$' :: '\x7b' :: Text.octets inner ++ '\x7d' :: Text.octets rest := by
      rw [List.cons_append, Text.octets_sign_cons (by decide),
        Text.octets_enclosed (by decide) (by decide)]
      rfl
    rw [hbytes]
    exact ihInside.substitution ihMore

end ToBytes

theorem balanced_octets {context : BraceContext} {text : Text} :
    Balanced context (octets text) ↔ Balanced context text :=
  ⟨fun h => h.of_octets (.refl text), Balanced.octets⟩

end Markup

end TypedComponent
