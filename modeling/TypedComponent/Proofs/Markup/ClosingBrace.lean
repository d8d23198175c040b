import TypedComponent.Proofs.Markup.BalancedOctets

/-!
Where an expression in braces ends. The scan for the closing brace is one loop
with a stack, and balanced text is a grammar that nests; they agree. The brace
that is found is the one behind a balanced text, there is one such brace at
most, and where none is found there is none.

The grammar is about characters, and an offset counts bytes. All signs of the
grammar are single bytes, so the bytes between the braces are balanced just
where the characters are.
-/

namespace TypedComponent.Markup

section Scan

variable {close : Cursor}

/-- A scan that goes on behind a string has passed the quote at its end. -/
theorem exists_inQuotes {quote : Char} {opened : List Opening} {offset : Nat} {text : Text}
    (hquote : quote ≠ '\\')
    (h : closingBraceIn (.quoted quote) opened offset text = some close) :
    ∃ body rest, text = body ++ quote :: rest ∧ InQuotes quote body := by
  match text with
  | [] => cases h
  | c :: rest =>
    by_cases hescape : c = '\\'
    · subst hescape
      cases rest with
      | nil => simp [closingBraceIn] at h
      | cons d rest =>
        rw [scan_quoted_escape] at h
        obtain ⟨body, behind, rfl, hbody⟩ := exists_inQuotes hquote h
        exact ⟨'\\' :: d :: body, behind, rfl, .escaped d hbody⟩
    · rw [scan_quoted_char hescape] at h
      by_cases hend : c = quote
      · exact ⟨[], rest, by rw [hend]; rfl, .done⟩
      · rw [if_neg hend] at h
        obtain ⟨body, behind, rfl, hbody⟩ := exists_inQuotes hquote h
        exact ⟨c :: body, behind, rfl, .plain ⟨hend, hescape⟩ hbody⟩

theorem exists_line {opened : List Opening} {offset : Nat} {text : Text}
    (h : closingBraceIn .lineComment opened offset text = some close) :
    ∃ body rest, text = body ++ '\n' :: rest ∧ '\n' ∉ body := by
  induction text generalizing offset with
  | nil => cases h
  | cons c rest ih =>
    by_cases hend : c = '\n'
    · exact ⟨[], rest, by rw [hend]; rfl, List.not_mem_nil⟩
    · have hmore : closingBraceIn .lineComment opened (offset + c.utf8Size) rest = some close := by
        simpa [closingBraceIn, hend] using h
      obtain ⟨body, behind, rfl, hbody⟩ := ih hmore
      exact ⟨c :: body, behind, rfl, by simp [hbody, Ne.symm hend]⟩

/-- A scan that goes on behind a comment has passed the first sign that ends it. -/
theorem exists_block {opened : List Opening} {offset : Nat} {text : Text}
    (h : closingBraceIn .blockComment opened offset text = some close) :
    ∃ body rest, text = body ++ '*' :: '/' :: rest ∧ ∀ a b, body ≠ a ++ '*' :: '/' :: b := by
  induction text generalizing offset with
  | nil => cases h
  | cons c rest ih =>
    by_cases hend : c = '*' ∧ rest.head? = some '/'
    · obtain ⟨rfl, hslash⟩ := hend
      obtain ⟨behind, rfl⟩ := List.head?_eq_some_iff.mp hslash
      exact ⟨[], behind, rfl, by simp⟩
    · rw [scan_blockComment_char fun hstar hslash => hend ⟨hstar, hslash⟩] at h
      obtain ⟨body, behind, rfl, hbody⟩ := ih h
      refine ⟨c :: body, behind, rfl, ?_⟩
      rintro (_ | ⟨d, a⟩) b heq
      · obtain ⟨rfl, rfl⟩ := List.cons.inj heq
        exact hend ⟨rfl, rfl⟩
      · exact hbody a b (List.cons.inj heq).2

/-- What is open at a place of the scan is closed first, and then what is open
further out. -/
theorem scan_past_brace {opened : List Opening} {offset : Nat} {inner rest : Text}
    (hinner : Balanced .code inner) (hopened : opened ≠ []) :
    closingBraceIn .code (.brace :: opened) offset (inner ++ '\x7d' :: rest) =
      closingBraceIn .code opened (offset + Text.bytes inner + '\x7d'.utf8Size) rest :=
  (hinner.scan (List.cons_ne_nil _ _)).trans (scan_closing_brace hopened)

theorem scan_past_substitution {opened : List Opening} {offset : Nat} {inner rest : Text}
    (hinner : Balanced .code inner) :
    closingBraceIn .code (.substitution :: opened) offset (inner ++ '\x7d' :: rest) =
      closingBraceIn .template opened (offset + Text.bytes inner + '\x7d'.utf8Size) rest :=
  (hinner.scan (List.cons_ne_nil _ _)).trans scan_substitution_end

theorem scan_past_template {opened : List Opening} {offset : Nat} {inner rest : Text}
    (hinner : Balanced .template inner) (hopened : opened ≠ []) :
    closingBraceIn .template opened offset (inner ++ '\x60' :: rest) =
      closingBraceIn .code opened (offset + Text.bytes inner + '\x60'.utf8Size) rest :=
  (hinner.scan hopened).trans scan_closing_backtick

mutual

/-- A scan that comes to an end passes a balanced text and the brace that ends it. -/
theorem exists_code {opened : List Opening} {offset : Nat} {text : Text} (hopened : opened ≠ [])
    (h : closingBraceIn .code opened offset text = some close) :
    ∃ inner rest, text = inner ++ '\x7d' :: rest ∧ Balanced .code inner := by
  match text with
  | [] => cases h
  | c :: rest =>
    by_cases hclose : c = '\x7d'
    · exact ⟨[], rest, by rw [hclose]; rfl, .done⟩
    by_cases hbrace : c = '\x7b'
    · subst hbrace
      rw [scan_brace] at h
      obtain ⟨inner, behind, rfl, hinner⟩ := exists_code (List.cons_ne_nil _ _) h
      rw [scan_past_brace hinner hopened] at h
      obtain ⟨more, last, rfl, hmore⟩ := exists_code hopened h
      exact ⟨_, last, by simp, hinner.braces hmore⟩
    by_cases hquotes : c = '"' ∨ c = '\''
    · have hescape : c ≠ '\\' := by rcases hquotes with rfl | rfl <;> decide
      rw [scan_quote hquotes] at h
      obtain ⟨body, behind, rfl, hbody⟩ := exists_inQuotes hescape h
      rw [scan_quoted hescape hbody] at h
      obtain ⟨more, last, rfl, hmore⟩ := exists_code hopened h
      exact ⟨_, last, by simp, hmore.quoted hquotes hbody⟩
    by_cases htemplate : c = '\x60'
    · subst htemplate
      rw [scan_backtick] at h
      obtain ⟨inner, behind, rfl, hinner⟩ := exists_template hopened h
      rw [scan_past_template hinner hopened] at h
      obtain ⟨more, last, rfl, hmore⟩ := exists_code hopened h
      exact ⟨_, last, by simp, hinner.template hmore⟩
    by_cases hline : c = '/' ∧ rest.head? = some '/'
    · obtain ⟨rfl, hslash⟩ := hline
      obtain ⟨rest, rfl⟩ := List.head?_eq_some_iff.mp hslash
      rw [scan_slashes] at h
      obtain ⟨body, behind, rfl, hbody⟩ := exists_line h
      rw [scan_lineComment hbody] at h
      obtain ⟨more, last, rfl, hmore⟩ := exists_code hopened h
      exact ⟨_, last, by simp, hmore.lineComment hbody⟩
    by_cases hblock : c = '/' ∧ rest.head? = some '*'
    · obtain ⟨rfl, hstar⟩ := hblock
      obtain ⟨rest, rfl⟩ := List.head?_eq_some_iff.mp hstar
      rw [scan_slash_star] at h
      obtain ⟨body, behind, rfl, hbody⟩ := exists_block h
      rw [scan_blockComment hbody] at h
      obtain ⟨more, last, rfl, hmore⟩ := exists_code hopened h
      exact ⟨_, last, by simp, hmore.blockComment hbody⟩
    have haway : c ∉ "\x7b\x7d\"'\x60".toList := by simp_all
    have hslash : c = '/' → ∀ d ∈ rest.head?, d ≠ '/' ∧ d ≠ '*' := by
      rintro rfl d hd
      exact ⟨by rintro rfl; exact hline ⟨rfl, hd⟩, by rintro rfl; exact hblock ⟨rfl, hd⟩⟩
    rw [scan_code_char haway hslash] at h
    obtain ⟨more, last, rfl, hmore⟩ := exists_code hopened h
    refine ⟨c :: more, last, rfl, .plain haway (fun hc d hd => hslash hc d ?_) hmore⟩
    cases more with
    | nil => cases hd
    | cons e more => exact hd
termination_by text.length

/-- The text of a template literal ends with the backtick behind its substitutions. -/
theorem exists_template {opened : List Opening} {offset : Nat} {text : Text} (hopened : opened ≠ [])
    (h : closingBraceIn .template opened offset text = some close) :
    ∃ inner rest, text = inner ++ '\x60' :: rest ∧ Balanced .template inner := by
  match text with
  | [] => cases h
  | c :: rest =>
    by_cases hclose : c = '\x60'
    · exact ⟨[], rest, by rw [hclose]; rfl, .literalDone⟩
    by_cases hescape : c = '\\'
    · subst hescape
      cases rest with
      | nil => simp [closingBraceIn] at h
      | cons d rest =>
        rw [scan_template_escape] at h
        obtain ⟨more, last, rfl, hmore⟩ := exists_template hopened h
        exact ⟨_, last, by simp, hmore.escaped d⟩
    by_cases hdollar : c = '$' ∧ rest.head? = some '\x7b'
    · obtain ⟨rfl, hbrace⟩ := hdollar
      obtain ⟨rest, rfl⟩ := List.head?_eq_some_iff.mp hbrace
      rw [scan_dollar_brace] at h
      obtain ⟨inner, behind, rfl, hinner⟩ := exists_code (List.cons_ne_nil _ _) h
      rw [scan_past_substitution hinner] at h
      obtain ⟨more, last, rfl, hmore⟩ := exists_template hopened h
      exact ⟨_, last, by simp, hinner.substitution hmore⟩
    have hfree : c = '$' → rest.head? ≠ some '\x7b' := fun hc hd => hdollar ⟨hc, hd⟩
    rw [scan_template_char ⟨hclose, hescape⟩ hfree] at h
    obtain ⟨more, last, rfl, hmore⟩ := exists_template hopened h
    refine ⟨c :: more, last, rfl, .literal ⟨hclose, hescape⟩ (fun hc hd => hfree hc ?_) hmore⟩
    cases more with
    | nil => cases hd
    | cons e more => exact hd
termination_by text.length

end

/-- The brace that is found is the one behind a balanced text. -/
theorem closingBrace?_eq_some {offset : Nat} {text : Text} :
    closingBrace? ⟨offset, '\x7b' :: text⟩ = some close ↔
      ∃ inner rest, text = inner ++ '\x7d' :: rest ∧ Balanced .code inner ∧
        close = ⟨offset + 1 + Text.bytes inner, '\x7d' :: rest⟩ := by
  constructor
  · intro h
    have hscan : closingBraceIn .code [.brace] (offset + 1) text = some close := h
    obtain ⟨inner, rest, rfl, hinner⟩ := exists_code (List.cons_ne_nil _ _) hscan
    have hfound : closingBrace? ⟨offset, '\x7b' :: (inner ++ '\x7d' :: rest)⟩ =
        some ⟨offset + 1 + Text.bytes inner, '\x7d' :: rest⟩ := closingBrace?_balanced hinner
    rw [hfound] at h
    exact ⟨inner, rest, rfl, hinner, (Option.some.inj h).symm⟩
  · rintro ⟨inner, rest, rfl, hinner, rfl⟩
    exact closingBrace?_balanced hinner

end Scan

section Bytes

variable {source : Text} {start close : Nat}

/-- The bytes of a source around a closing brace: it stands behind the opening
one, and what lies between them is balanced. -/
structure ClosesAt (source : Text) (start close : Nat) : Prop where
  behind : start < close
  brace : (Text.octets source)[close]? = some '\x7d'
  balanced : Balanced .code (((Text.octets source).take close).drop (start + 1))

theorem octets_between (before inner rest : Text) :
    ((Text.octets (before ++ '\x7b' :: (inner ++ '\x7d' :: rest))).take
      (Text.bytes before + 1 + Text.bytes inner)).drop (Text.bytes before + 1) =
        Text.octets inner := by
  have hall : Text.octets (before ++ '\x7b' :: (inner ++ '\x7d' :: rest)) =
      (Text.octets before ++ ['\x7b']) ++ (Text.octets inner ++ '\x7d' :: Text.octets rest) := by
    rw [Text.octets_append, ← List.cons_append, Text.octets_enclosed (by decide) (by decide)]
    simp
  have hfront : (Text.octets before ++ ['\x7b']).length = Text.bytes before + 1 := by simp
  rw [hall, ← hfront, List.take_length_add_append, List.drop_left, ← Text.length_octets inner,
    List.take_left]

/-- What is found is the place of the closing brace. -/
theorem offset_closingBrace? (hstart : (Text.octets source)[start]? = some '\x7b') :
    (closingBrace? (.atOffset source start)).map Cursor.offset = some close ↔
      ClosesAt source start close := by
  obtain ⟨before, text, rfl, rfl⟩ := (Text.octets_getElem? (by decide)).mp hstart
  have hplace : Cursor.atOffset (before ++ '\x7b' :: text) (Text.bytes before) =
      ⟨Text.bytes before, '\x7b' :: text⟩ := by
    rw [Cursor.atOffset, Text.dropBytes_append]
  have hbyte : '\x7b'.utf8Size = 1 := rfl
  rw [hplace, Option.map_eq_some_iff]
  constructor
  · rintro ⟨cursor, hfound, rfl⟩
    obtain ⟨inner, rest, rfl, hinner, rfl⟩ := closingBrace?_eq_some.mp hfound
    refine ⟨by dsimp only; omega, (Text.octets_getElem? (by decide)).mpr ?_, ?_⟩
    · exact ⟨before ++ '\x7b' :: inner, rest, by simp, by simp [hbyte, Nat.add_assoc]⟩
    · rw [octets_between]
      exact hinner.octets
  · intro h
    obtain ⟨front, rest, hsource, hfront⟩ := (Text.octets_getElem? (by decide)).mp h.brace
    have hle : Text.bytes (before ++ ['\x7b']) ≤ Text.bytes front := by
      rw [Text.bytes_append, hfront]
      exact h.behind
    obtain ⟨inner, rfl, rfl⟩ := Text.append_eq_append_of_bytes_le
      (a := before ++ ['\x7b']) (b := text) (by rw [← hsource]; simp) hle
    have hclose : close = Text.bytes before + 1 + Text.bytes inner := by
      rw [← hfront]
      simp [hbyte, Nat.add_assoc]
    subst hclose
    have hinner := h.balanced
    rw [octets_between, balanced_octets] at hinner
    exact ⟨_, closingBrace?_eq_some.mpr ⟨inner, rest, rfl, hinner, rfl⟩, rfl⟩

/-- The search for the closing brace of an expression recognises balanced bytes:
it finds the brace behind them, which is the only one, and nothing where there
is none. -/
theorem closingBrace?_grammar (hstart : (Text.octets source)[start]? = some '\x7b') :
    (∀ close, (closingBrace? (.atOffset source start)).map Cursor.offset = some close ↔
      ClosesAt source start close) ∧
    (∀ one other, ClosesAt source start one → ClosesAt source start other → one = other) ∧
    (closingBrace? (.atOffset source start) = none ↔ ∀ close, ¬ ClosesAt source start close) := by
  have hfound : ∀ close, (closingBrace? (.atOffset source start)).map Cursor.offset = some close ↔
      ClosesAt source start close := fun close => offset_closingBrace? hstart
  refine ⟨hfound, ?_, ?_⟩
  · intro one other hone hother
    exact Option.some.inj (((hfound one).mpr hone).symm.trans ((hfound other).mpr hother))
  · simp only [← hfound, ← Option.eq_none_iff_forall_ne_some, Option.map_eq_none_iff]

theorem closingBrace?_grammar_template :
    (Text.octets "p\x7b\x60\\é$\x7b'\x7d'\x7d\x60\x7d\x7d".toList)[1]? = some '\x7b' ∧
      (∀ close, ClosesAt "p\x7b\x60\\é$\x7b'\x7d'\x7d\x60\x7d\x7d".toList 1 close ↔ close = 13) := by
  have hstart : (Text.octets "p\x7b\x60\\é$\x7b'\x7d'\x7d\x60\x7d\x7d".toList)[1]? =
      some '\x7b' := by decide +kernel
  have hfound : (closingBrace? (.atOffset "p\x7b\x60\\é$\x7b'\x7d'\x7d\x60\x7d\x7d".toList 1)).map
      Cursor.offset = some 13 := by decide +kernel
  obtain ⟨hcloses, hunique, -⟩ := closingBrace?_grammar hstart
  have hclose := (hcloses 13).mp hfound
  exact ⟨hstart, fun close => ⟨fun h => hunique close 13 h hclose, fun heq => heq ▸ hclose⟩⟩

end Bytes

end TypedComponent.Markup
