import TypedComponent.Proofs.Markup.Attributes

/-!
Balanced expressions. Braces are nested, and strings, template literals and
comments are closed; so the brace that closes an expression is the one behind
it, whatever stands further on.
-/

namespace TypedComponent.Markup

/-- The text between two quotes of a string. -/
inductive InQuotes (quote : Char) : Text → Prop
  | done : InQuotes quote []
  | plain {c : Char} {rest : Text} (away : c ≠ quote ∧ c ≠ '\\') (more : InQuotes quote rest) :
      InQuotes quote (c :: rest)
  | escaped (c : Char) {rest : Text} (more : InQuotes quote rest) :
      InQuotes quote ('\\' :: c :: rest)

/-- Text that closes whatever it opens: of an expression, or of a template
literal between its substitutions. -/
inductive Balanced : BraceContext → Text → Prop
  | done : Balanced .code []
  /-- A slash that begins no comment is as good as any other character. -/
  | plain {c : Char} {rest : Text} (away : c ∉ "\x7b\x7d\"'\x60".toList)
      (slash : c = '/' → ∀ d ∈ rest.head?, d ≠ '/' ∧ d ≠ '*') (more : Balanced .code rest) :
      Balanced .code (c :: rest)
  | braces {inner rest : Text} (inside : Balanced .code inner) (more : Balanced .code rest) :
      Balanced .code ('\x7b' :: inner ++ '\x7d' :: rest)
  | quoted {quote : Char} {body rest : Text} (quotes : quote = '"' ∨ quote = '\'')
      (inside : InQuotes quote body) (more : Balanced .code rest) :
      Balanced .code (quote :: body ++ quote :: rest)
  | template {body rest : Text} (inside : Balanced .template body) (more : Balanced .code rest) :
      Balanced .code ('\x60' :: body ++ '\x60' :: rest)
  | lineComment {body rest : Text} (inside : '\n' ∉ body) (more : Balanced .code rest) :
      Balanced .code ('/' :: '/' :: body ++ '\n' :: rest)
  | blockComment {body rest : Text} (inside : ∀ a b, body ≠ a ++ '*' :: '/' :: b)
      (more : Balanced .code rest) : Balanced .code ('/' :: '*' :: body ++ '*' :: '/' :: rest)
  | literalDone : Balanced .template []
  | literal {c : Char} {rest : Text} (away : c ≠ '\x60' ∧ c ≠ '\\')
      (dollar : c = '$' → rest.head? ≠ some '\x7b') (more : Balanced .template rest) :
      Balanced .template (c :: rest)
  | escaped (c : Char) {rest : Text} (more : Balanced .template rest) :
      Balanced .template ('\\' :: c :: rest)
  | substitution {inner rest : Text} (inside : Balanced .code inner)
      (more : Balanced .template rest) :
      Balanced .template ('$' :: '\x7b' :: inner ++ '\x7d' :: rest)

/-- Text without signs is balanced. -/
theorem Balanced.of_forall {text : Text} (h : ∀ c ∈ text, c ∉ "\x7b\x7d\"'\x60/".toList) :
    Balanced .code text := by
  induction text with
  | nil => exact .done
  | cons c rest ih =>
    obtain ⟨hc, hrest⟩ := List.forall_mem_cons.mp h
    refine .plain (fun hmem => hc ?_) (fun hslash => ?_) (ih hrest)
    · exact List.mem_append_left ['/'] hmem
    · rw [hslash] at hc
      exact absurd hc (by decide)

section Scan

variable {opened : List Opening} {offset : Nat} {c : Char} {rest : Text}

theorem scan_code_char (away : c ∉ "\x7b\x7d\"'\x60".toList)
    (slash : c = '/' → ∀ d ∈ rest.head?, d ≠ '/' ∧ d ≠ '*') :
    closingBraceIn .code opened offset (c :: rest) =
      closingBraceIn .code opened (offset + c.utf8Size) rest := by
  rw [closingBraceIn.eq_def]
  dsimp only
  split <;> simp_all

theorem scan_template_char (away : c ≠ '\x60' ∧ c ≠ '\\')
    (dollar : c = '$' → rest.head? ≠ some '\x7b') :
    closingBraceIn .template opened offset (c :: rest) =
      closingBraceIn .template opened (offset + c.utf8Size) rest := by
  rw [closingBraceIn.eq_def]
  dsimp only
  split <;> simp_all

theorem scan_quoted_char {quote : Char} (hc : c ≠ '\\') :
    closingBraceIn (.quoted quote) opened offset (c :: rest) =
      closingBraceIn (if c = quote then .code else .quoted quote) opened (offset + c.utf8Size)
        rest := by
  rw [closingBraceIn.eq_def]
  dsimp only
  split <;> simp_all

theorem scan_quoted_escape {quote : Char} :
    closingBraceIn (.quoted quote) opened offset ('\\' :: c :: rest) =
      closingBraceIn (.quoted quote) opened (offset + 1 + c.utf8Size) rest := rfl

theorem scan_blockComment_char (star : c = '*' → rest.head? ≠ some '/') :
    closingBraceIn .blockComment opened offset (c :: rest) =
      closingBraceIn .blockComment opened (offset + c.utf8Size) rest := by
  rw [closingBraceIn.eq_def]
  dsimp only
  split <;> simp_all

theorem scan_quoted {quote : Char} {body : Text} (hquote : quote ≠ '\\')
    (h : InQuotes quote body) :
    closingBraceIn (.quoted quote) opened offset (body ++ quote :: rest) =
      closingBraceIn .code opened (offset + Text.bytes (body ++ [quote])) rest := by
  induction h generalizing offset with
  | done =>
    rw [List.nil_append, scan_quoted_char hquote, if_pos rfl]
    rfl
  | plain away more ih =>
    rw [List.cons_append, scan_quoted_char away.2, if_neg away.1, ih, Nat.add_assoc]
    rfl
  | escaped c more ih =>
    rw [List.cons_append, List.cons_append, scan_quoted_escape, ih, Nat.add_assoc, Nat.add_assoc]
    rfl

theorem scan_lineComment {body : Text} (h : '\n' ∉ body) :
    closingBraceIn .lineComment opened offset (body ++ '\n' :: rest) =
      closingBraceIn .code opened (offset + Text.bytes (body ++ ['\n'])) rest := by
  induction body generalizing offset with
  | nil => rfl
  | cons c body ih =>
    rw [List.mem_cons, not_or] at h
    have hchar : closingBraceIn .lineComment opened offset (c :: (body ++ '\n' :: rest)) =
        closingBraceIn .lineComment opened (offset + c.utf8Size) (body ++ '\n' :: rest) := by
      simp [closingBraceIn, Ne.symm h.1]
    rw [List.cons_append, hchar, ih h.2, Nat.add_assoc]
    rfl

/-- A comment ends with the first sign that can end it, although a star may
stand before that sign. -/
theorem scan_blockComment {body : Text} (h : ∀ a b, body ≠ a ++ '*' :: '/' :: b) :
    closingBraceIn .blockComment opened offset (body ++ '*' :: '/' :: rest) =
      closingBraceIn .code opened (offset + Text.bytes (body ++ ['*', '/'])) rest := by
  induction body generalizing offset with
  | nil => rfl
  | cons c body ih =>
    have hstar : c = '*' → (body ++ '*' :: '/' :: rest).head? ≠ some '/' := by
      rintro rfl hslash
      cases body with
      | nil => cases hslash
      | cons d body =>
        cases hslash
        exact h [] body rfl
    have hbody : ∀ a b, body ≠ a ++ '*' :: '/' :: b := by
      rintro a b rfl
      exact h (c :: a) b rfl
    rw [List.cons_append, scan_blockComment_char hstar, ih hbody, Nat.add_assoc]
    rfl

theorem scan_brace : closingBraceIn .code opened offset ('\x7b' :: rest) =
    closingBraceIn .code (.brace :: opened) (offset + '\x7b'.utf8Size) rest := rfl

theorem scan_closing_brace (hopened : opened ≠ []) :
    closingBraceIn .code (.brace :: opened) offset ('\x7d' :: rest) =
      closingBraceIn .code opened (offset + '\x7d'.utf8Size) rest := by
  cases opened with
  | nil => exact absurd rfl hopened
  | cons outer others => rfl

theorem scan_quote (quotes : c = '"' ∨ c = '\'') :
    closingBraceIn .code opened offset (c :: rest) =
      closingBraceIn (.quoted c) opened (offset + c.utf8Size) rest := by
  rcases quotes with rfl | rfl <;> rfl

theorem scan_backtick : closingBraceIn .code opened offset ('\x60' :: rest) =
    closingBraceIn .template opened (offset + '\x60'.utf8Size) rest := rfl

theorem scan_closing_backtick : closingBraceIn .template opened offset ('\x60' :: rest) =
    closingBraceIn .code opened (offset + '\x60'.utf8Size) rest := rfl

theorem scan_slashes : closingBraceIn .code opened offset ('/' :: '/' :: rest) =
    closingBraceIn .lineComment opened (offset + '/'.utf8Size + '/'.utf8Size) rest := rfl

theorem scan_slash_star : closingBraceIn .code opened offset ('/' :: '*' :: rest) =
    closingBraceIn .blockComment opened (offset + '/'.utf8Size + '*'.utf8Size) rest := rfl

theorem scan_template_escape : closingBraceIn .template opened offset ('\\' :: c :: rest) =
    closingBraceIn .template opened (offset + '\\'.utf8Size + c.utf8Size) rest := rfl

theorem scan_dollar_brace : closingBraceIn .template opened offset ('$' :: '\x7b' :: rest) =
    closingBraceIn .code (.substitution :: opened) (offset + '$'.utf8Size + '\x7b'.utf8Size)
      rest := rfl

theorem scan_substitution_end :
    closingBraceIn .code (.substitution :: opened) offset ('\x7d' :: rest) =
      closingBraceIn .template opened (offset + '\x7d'.utf8Size) rest := rfl

/-- What ends a text of each kind. -/
def closer : BraceContext → Char
  | .template => '\x60'
  | _ => '\x7d'

/-- The scan of a balanced text comes to what stands behind it, with nothing more
and nothing less open. -/
theorem Balanced.scan {context : BraceContext} {text : Text} (h : Balanced context text)
    (hopened : opened ≠ []) :
    closingBraceIn context opened offset (text ++ closer context :: rest) =
      closingBraceIn context opened (offset + Text.bytes text) (closer context :: rest) := by
  induction h generalizing opened offset rest with
  | done => rfl
  | @plain c more away slash _ ih =>
    have hslash : c = '/' → ∀ d ∈ (more ++ closer .code :: rest).head?, d ≠ '/' ∧ d ≠ '*' := by
      intro hc d hd
      cases more with
      | nil =>
        cases hd
        decide
      | cons e more => exact slash hc d hd
    rw [List.cons_append, scan_code_char away hslash, ih hopened, Nat.add_assoc]
    rfl
  | braces inside more ihInside ihMore =>
    dsimp only [closer] at ihInside ihMore ⊢
    simp only [List.append_assoc, List.cons_append]
    rw [scan_brace, ihInside (List.cons_ne_nil _ _), scan_closing_brace hopened,
      ihMore hopened]
    congr 1
    simp only [Text.bytes_append, Text.bytes_cons]
    omega
  | @quoted quote body more quotes inside _ ih =>
    have hquote : quote ≠ '\\' := by rcases quotes with rfl | rfl <;> decide
    simp only [List.append_assoc, List.cons_append]
    rw [scan_quote quotes, scan_quoted hquote inside, ih hopened]
    congr 1
    simp only [Text.bytes_append, Text.bytes_cons, Text.bytes_nil]
    omega
  | template inside more ihInside ihMore =>
    dsimp only [closer] at ihInside ihMore ⊢
    simp only [List.append_assoc, List.cons_append]
    rw [scan_backtick, ihInside hopened, scan_closing_backtick, ihMore hopened]
    congr 1
    simp only [Text.bytes_append, Text.bytes_cons]
    omega
  | lineComment inside more ih =>
    simp only [List.append_assoc, List.cons_append]
    rw [scan_slashes, scan_lineComment inside, ih hopened]
    congr 1
    simp only [Text.bytes_append, Text.bytes_cons, Text.bytes_nil]
    omega
  | blockComment inside more ih =>
    simp only [List.append_assoc, List.cons_append]
    rw [scan_slash_star, scan_blockComment inside, ih hopened]
    congr 1
    simp only [Text.bytes_append, Text.bytes_cons, Text.bytes_nil]
    omega
  | literalDone => rfl
  | @literal c more away dollar _ ih =>
    have hdollar : c = '$' → (more ++ closer .template :: rest).head? ≠ some '\x7b' := by
      intro hc
      cases more with
      | nil => exact nofun
      | cons d more => exact dollar hc
    rw [List.cons_append, scan_template_char away hdollar, ih hopened, Nat.add_assoc]
    rfl
  | escaped c more ih =>
    rw [List.cons_append, List.cons_append, scan_template_escape, ih hopened, Nat.add_assoc,
      Nat.add_assoc]
    rfl
  | substitution inside more ihInside ihMore =>
    dsimp only [closer] at ihInside ihMore ⊢
    simp only [List.append_assoc, List.cons_append]
    rw [scan_dollar_brace, ihInside (List.cons_ne_nil _ _), scan_substitution_end,
      ihMore hopened]
    congr 1
    simp only [Text.bytes_append, Text.bytes_cons]
    omega

/-- The brace that closes an expression is the one behind it. -/
theorem closingBrace?_balanced {inner : Text} (h : Balanced .code inner) :
    closingBrace? ⟨offset, '\x7b' :: inner ++ '\x7d' :: rest⟩ =
      some ⟨offset + 1 + Text.bytes inner, '\x7d' :: rest⟩ := by
  have hscan : closingBraceIn .code [.brace] (offset + 1) (inner ++ '\x7d' :: rest) =
      closingBraceIn .code [.brace] (offset + 1 + Text.bytes inner) ('\x7d' :: rest) :=
    h.scan (List.cons_ne_nil _ _)
  exact hscan

end Scan

/-- A balanced expression is read up to the brace behind it. -/
theorem Fragment.readExpression_balanced {offset : Nat} {inner rest : Text}
    (h : Balanced .code inner) :
    readExpression ⟨offset, '\x7b' :: inner ++ '\x7d' :: rest⟩ =
      ⟨some (⟨offset, offset + 1 + Text.bytes inner + 1⟩,
          ⟨offset + 1, offset + 1 + Text.bytes inner⟩), [],
        ⟨offset + 1 + Text.bytes inner + 1, rest⟩⟩ := by
  unfold readExpression
  rw [closingBrace?_balanced h]
  rfl

end TypedComponent.Markup
