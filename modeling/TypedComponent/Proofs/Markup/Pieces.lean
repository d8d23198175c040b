import Mathlib.Data.List.Basic
import TypedComponent.Proofs.Markup.Balanced

/-!
An expression cut at its commas. A comma in a string, a template literal, a
comment or a pair of brackets cuts nothing. Strings, templates and comments are
those that are known to the search for a closing brace; round and square brackets,
which it does not look at, have to pair up as well.
-/

namespace TypedComponent.Markup

/-- A bracket that is open. -/
inductive Bracket where
  | round
  | square
  | brace
  /-- The brace of a substitution in a template literal. -/
  | substitution
deriving DecidableEq, Repr

/-- What the next character is read as. -/
inductive Lexis where
  | code
  /-- Behind a slash. With a second one or a star it begins a comment. -/
  | slash
  | quoted (quote : Char)
  | quotedEscape (quote : Char)
  | template
  | templateEscape
  /-- In a template literal behind a dollar sign. With a brace it begins a
  substitution. -/
  | dollar
  | lineComment
  | blockComment
  /-- In a comment behind a star. With a slash it ends the comment. -/
  | star
deriving DecidableEq, Repr

/-- A place in an expression, with the open brackets, innermost first. -/
structure Place where
  lexis : Lexis
  opened : List Bracket
deriving DecidableEq, Repr

namespace Place

/-- The place behind a character of code. A bracket that closes another one than
the innermost closes nothing. -/
def pastCode? (opened : List Bracket) (c : Char) : Option Place :=
  match c, opened with
  | '(', opened => some ⟨.code, .round :: opened⟩
  | '[', opened => some ⟨.code, .square :: opened⟩
  | '\x7b', opened => some ⟨.code, .brace :: opened⟩
  | ')', .round :: outer => some ⟨.code, outer⟩
  | ']', .square :: outer => some ⟨.code, outer⟩
  | '\x7d', .brace :: outer => some ⟨.code, outer⟩
  | '\x7d', .substitution :: outer => some ⟨.template, outer⟩
  | ')', _ | ']', _ | '\x7d', _ => none
  | '"', opened => some ⟨.quoted '"', opened⟩
  | '\'', opened => some ⟨.quoted '\'', opened⟩
  | '\x60', opened => some ⟨.template, opened⟩
  | '/', opened => some ⟨.slash, opened⟩
  | _, opened => some ⟨.code, opened⟩

/-- The place behind a character of a template literal. -/
def pastTemplate (opened : List Bracket) (c : Char) : Place :=
  if c = '\x60' then ⟨.code, opened⟩
  else if c = '\\' then ⟨.templateEscape, opened⟩
  else if c = '$' then ⟨.dollar, opened⟩
  else ⟨.template, opened⟩

/-- The place behind a character. None if the character closes nothing. -/
def past? (place : Place) (c : Char) : Option Place :=
  let opened := place.opened
  match place.lexis with
  | .code => pastCode? opened c
  | .slash =>
    if c = '/' then some ⟨.lineComment, opened⟩
    else if c = '*' then some ⟨.blockComment, opened⟩
    else pastCode? opened c
  | .quoted quote =>
    some ⟨if c = '\\' then .quotedEscape quote else if c = quote then .code else .quoted quote,
      opened⟩
  | .quotedEscape quote => some ⟨.quoted quote, opened⟩
  | .template => some (pastTemplate opened c)
  | .templateEscape => some ⟨.template, opened⟩
  | .dollar =>
    if c = '\x7b' then some ⟨.code, .substitution :: opened⟩ else some (pastTemplate opened c)
  | .lineComment => some ⟨if c = '\n' then .code else .lineComment, opened⟩
  | .blockComment => some ⟨if c = '*' then .star else .blockComment, opened⟩
  | .star => some ⟨if c = '/' then .code else if c = '*' then .star else .blockComment, opened⟩

def start : Place := ⟨.code, []⟩

/-- A place in code with no bracket open. -/
def IsOutside (place : Place) : Prop :=
  (place.lexis = .code ∨ place.lexis = .slash) ∧ place.opened = []

instance (place : Place) : Decidable place.IsOutside :=
  inferInstanceAs (Decidable (_ ∧ _))

/-- The place behind a text. -/
def pastAll? (place : Place) (text : Text) : Option Place := text.foldlM past? place

/-- The pieces of a text from a place on. None if a bracket closes nothing, or
something is not closed in the end. -/
def piecesFrom? : Place → Text → Option (List Text)
  | place, [] => if place.IsOutside then some [[]] else none
  | place, c :: rest => do
    let pieces ← piecesFrom? (← place.past? c) rest
    return if c = ',' ∧ place.IsOutside then [] :: pieces else pieces.modifyHead (c :: ·)

/-- A place with more brackets open around it. -/
def inside (place : Place) (around : List Bracket) : Place :=
  ⟨place.lexis, place.opened ++ around⟩

end Place

/-- The pieces of a text at the commas that are outside of everything. A text of
no characters has no pieces. -/
def pieces? (text : Text) : Option (List Text) :=
  if text = [] then some [] else Place.piecesFrom? .start text

/-- The brackets of an expression pair up. -/
def BracketsPair (text : Text) : Prop :=
  (Place.start.pastAll? text).map Place.opened = some []

instance (text : Text) : Decidable (BracketsPair text) :=
  inferInstanceAs (Decidable (_ = _))

namespace Place

variable {place next stop : Place} {c : Char} {text rest : Text} {pieces : List Text}

theorem pastCode?_inside {opened : List Bracket} (h : pastCode? opened c = some next)
    (around : List Bracket) : pastCode? (opened ++ around) c = some (next.inside around) := by
  unfold pastCode? at h
  split at h <;> cases h <;> simp_all [pastCode?, inside]

theorem pastTemplate_inside (opened : List Bracket) (c : Char) (around : List Bracket) :
    pastTemplate (opened ++ around) c = (pastTemplate opened c).inside around := by
  unfold pastTemplate
  split_ifs <;> rfl

/-- Brackets around a place do not change what a character does there. -/
theorem past?_inside (h : place.past? c = some next) (around : List Bracket) :
    (place.inside around).past? c = some (next.inside around) := by
  obtain ⟨lexis, opened⟩ := place
  cases lexis with
  | code => exact pastCode?_inside h around
  | slash =>
    simp only [past?, inside] at h ⊢
    split_ifs at h ⊢
    · cases h
      rfl
    · cases h
      rfl
    · exact pastCode?_inside h around
  | template =>
    cases h
    exact congrArg some (pastTemplate_inside opened c around)
  | dollar =>
    simp only [past?, inside] at h ⊢
    split_ifs at h ⊢
    · cases h
      rfl
    · cases h
      exact congrArg some (pastTemplate_inside opened c around)
  | quoted quote | quotedEscape quote | templateEscape | lineComment | blockComment | star =>
    cases h
    rfl

theorem pastAll?_cons :
    place.pastAll? (c :: text) = some stop ↔
      ∃ next, place.past? c = some next ∧ next.pastAll? text = some stop := by
  rw [pastAll?, List.foldlM_cons]
  exact Option.bind_eq_some_iff

theorem pastAll?_append :
    place.pastAll? (text ++ rest) = some stop ↔
      ∃ next, place.pastAll? text = some next ∧ next.pastAll? rest = some stop := by
  rw [pastAll?, List.foldlM_append]
  exact Option.bind_eq_some_iff

theorem piecesFrom?_cons :
    place.piecesFrom? (c :: text) =
      (place.past? c).bind fun next => (next.piecesFrom? text).map fun pieces =>
        if c = ',' ∧ place.IsOutside then [] :: pieces else pieces.modifyHead (c :: ·) := by
  rw [piecesFrom?]
  cases place.past? c with
  | none => rfl
  | some next => exact (Option.map_eq_bind ..).symm

/-- From one place to another a text is not cut. It is the beginning of the first
piece of what follows. -/
def Keeps (text : Text) (place stop : Place) : Prop :=
  ∀ rest, place.piecesFrom? (text ++ rest) =
    (stop.piecesFrom? rest).map (·.modifyHead (text ++ ·))

theorem Keeps.nil (place : Place) : Keeps [] place place := by
  intro rest
  cases h : place.piecesFrom? rest with
  | none => simp [h]
  | some pieces => cases pieces <;> simp [h]

theorem Keeps.append (h : Keeps text place next) (hrest : Keeps rest next stop) :
    Keeps (text ++ rest) place stop := by
  intro more
  rw [List.append_assoc, h, hrest, Option.map_map]
  congr 1
  funext pieces
  cases pieces <;> simp

theorem Keeps.char (hpast : place.past? c = some next) (hcomma : ¬ (c = ',' ∧ place.IsOutside)) :
    Keeps [c] place next := by
  intro rest
  rw [List.singleton_append, piecesFrom?_cons, hpast, Option.bind_some]
  simp only [if_neg hcomma]
  rfl

theorem Keeps.cons (hpast : place.past? c = some next)
    (hcomma : ¬ (c = ',' ∧ place.IsOutside)) (h : Keeps text next stop) :
    Keeps (c :: text) place stop :=
  (Keeps.char hpast hcomma).append h

theorem Keeps.single (h : Keeps text place stop) (hstop : stop.IsOutside) :
    place.piecesFrom? text = some [text] := by
  have hall := h []
  rw [List.append_nil, piecesFrom?, if_pos hstop] at hall
  rw [hall]
  simp

/-- What goes through on its own is not cut inside of brackets. -/
theorem keeps_inside {around : List Bracket} (haround : around ≠ [])
    (h : place.pastAll? text = some stop) :
    Keeps text (place.inside around) (stop.inside around) := by
  induction text generalizing place with
  | nil =>
    cases h
    exact Keeps.nil _
  | cons c text ih =>
    obtain ⟨next, hnext, hrest⟩ := pastAll?_cons.mp h
    refine Keeps.cons (past?_inside hnext around) ?_ (ih hrest)
    rintro ⟨-, -, hopened⟩
    exact haround (List.append_eq_nil_iff.mp hopened).2

theorem piecesFrom?_ne_nil (h : place.piecesFrom? text = some pieces) : pieces ≠ [] := by
  induction text generalizing place pieces with
  | nil =>
    rw [piecesFrom?] at h
    split_ifs at h
    cases h
    exact List.cons_ne_nil _ _
  | cons c text ih =>
    rw [piecesFrom?_cons] at h
    obtain ⟨next, -, h⟩ := Option.bind_eq_some_iff.mp h
    obtain ⟨others, hothers, rfl⟩ := Option.map_eq_some_iff.mp h
    split_ifs
    · exact List.cons_ne_nil _ _
    · simpa using ih hothers

/-- A single piece is the whole text. -/
theorem eq_of_piecesFrom?_singleton {piece : Text} (h : place.piecesFrom? text = some [piece]) :
    piece = text := by
  induction text generalizing place piece with
  | nil =>
    rw [piecesFrom?] at h
    split_ifs at h
    cases h
    rfl
  | cons c text ih =>
    rw [piecesFrom?_cons] at h
    obtain ⟨next, -, h⟩ := Option.bind_eq_some_iff.mp h
    obtain ⟨others, hothers, h⟩ := Option.map_eq_some_iff.mp h
    split_ifs at h
    · rw [List.cons.injEq] at h
      exact absurd h.2 (piecesFrom?_ne_nil hothers)
    · match others with
      | [other] =>
        rw [← ih hothers]
        simpa using h.symm
      | [] | _ :: _ :: _ => simp at h

/-- A text that ends outside of everything has pieces. -/
theorem exists_piecesFrom? (h : place.pastAll? text = some stop) (hstop : stop.IsOutside) :
    ∃ pieces, place.piecesFrom? text = some pieces := by
  induction text generalizing place with
  | nil =>
    cases h
    exact ⟨[[]], if_pos hstop⟩
  | cons c text ih =>
    obtain ⟨next, hnext, hrest⟩ := pastAll?_cons.mp h
    obtain ⟨pieces, hpieces⟩ := ih hrest
    exact ⟨_, by rw [piecesFrom?_cons, hnext, Option.bind_some, hpieces, Option.map_some]⟩

theorem past?_comma (h : place.IsOutside) : place.past? ',' = some .start := by
  obtain ⟨lexis, opened⟩ := place
  obtain ⟨rfl | rfl, rfl⟩ := h <;> rfl

/-- A comma behind a text that is closed begins a new piece. -/
theorem piecesFrom?_comma (h : place.piecesFrom? text = some pieces) (rest : Text) :
    place.piecesFrom? (text ++ ',' :: rest) = (start.piecesFrom? rest).map (pieces ++ ·) := by
  induction text generalizing place pieces with
  | nil =>
    rw [piecesFrom?] at h
    split_ifs at h with houtside
    cases h
    rw [List.nil_append, piecesFrom?_cons, past?_comma houtside, Option.bind_some]
    simp [houtside]
  | cons c text ih =>
    rw [piecesFrom?_cons] at h
    obtain ⟨next, hnext, h⟩ := Option.bind_eq_some_iff.mp h
    obtain ⟨others, hothers, rfl⟩ := Option.map_eq_some_iff.mp h
    rw [List.cons_append, piecesFrom?_cons, hnext, Option.bind_some, ih hothers, Option.map_map]
    congr 1
    funext more
    have hne := piecesFrom?_ne_nil hothers
    dsimp only [Function.comp_apply]
    split_ifs
    · rfl
    · cases others with
      | nil => exact absurd rfl hne
      | cons first others => rfl

end Place

section Closing

variable {place stop : Place} {opened : List Bracket} {c : Char} {text : Text}

/-- The brackets that a search for a closing brace looks at. -/
def Bracket.isBrace : Bracket → Bool
  | .brace | .substitution => true
  | .round | .square => false

/-- The braces that are open at a place. -/
def Place.braces (place : Place) : List Bracket := place.opened.filter Bracket.isBrace

/-- A place that belongs to a text in some context, where a sign seen last begins
nothing with the text that follows. -/
def Place.Reads (context : BraceContext) (place : Place) (text : Text) : Prop :=
  match context with
  | .code => place.lexis = .code ∨
      place.lexis = .slash ∧ ∀ d ∈ text.head?, d ≠ '/' ∧ d ≠ '*'
  | .template => place.lexis = .template ∨ place.lexis = .dollar ∧ text.head? ≠ some '\x7b'
  | .quoted _ | .lineComment | .blockComment => False

theorem Place.past?_code {rest : Text} (h : place.Reads .code (c :: rest)) :
    place.past? c = pastCode? place.opened c := by
  obtain ⟨lexis, opened⟩ := place
  rcases h with rfl | ⟨rfl, hsign⟩
  · rfl
  · obtain ⟨hslash, hstar⟩ := hsign c rfl
    simp [past?, hslash, hstar]

theorem Place.past?_template {rest : Text} (h : place.Reads .template (c :: rest)) :
    place.past? c = some (pastTemplate place.opened c) := by
  obtain ⟨lexis, opened⟩ := place
  rcases h with rfl | ⟨rfl, hsign⟩
  · rfl
  · have hbrace : c ≠ '\x7b' := fun hc => hsign (by rw [hc]; rfl)
    simp [past?, hbrace]

theorem Place.pastCode?_plain {next : Place} (away : c ∉ "\x7b\x7d\"'\x60".toList)
    (h : pastCode? opened c = some next) :
    next.lexis = (if c = '/' then .slash else .code) ∧
      next.braces = opened.filter Bracket.isBrace := by
  unfold pastCode? at h
  split at h <;> cases h <;> simp_all [braces, Bracket.isBrace]

/-- A brace closes the innermost of the open ones, if no other bracket is open
inside of it. -/
theorem Place.pastCode?_closing {next : Place} (h : pastCode? opened '\x7d' = some next) :
    (∃ outer, opened = .brace :: outer ∧ next = ⟨.code, outer⟩) ∨
      ∃ outer, opened = .substitution :: outer ∧ next = ⟨.template, outer⟩ := by
  match opened, h with
  | .brace :: outer, h =>
    cases h
    exact .inl ⟨outer, rfl, rfl⟩
  | .substitution :: outer, h =>
    cases h
    exact .inr ⟨outer, rfl, rfl⟩

theorem InQuotes.pastAll? {quote : Char} (h : InQuotes quote text) :
    Place.pastAll? ⟨.quoted quote, opened⟩ text = some ⟨.quoted quote, opened⟩ := by
  induction h with
  | done => rfl
  | plain away more ih =>
    refine Place.pastAll?_cons.mpr ⟨_, ?_, ih⟩
    simp [Place.past?, away.1, away.2]
  | escaped c more ih => exact Place.pastAll?_cons.mpr ⟨⟨.quotedEscape quote, opened⟩, rfl, ih⟩

theorem pastAll?_lineComment (h : '\n' ∉ text) :
    Place.pastAll? ⟨.lineComment, opened⟩ text = some ⟨.lineComment, opened⟩ := by
  induction text with
  | nil => rfl
  | cons c text ih =>
    rw [List.mem_cons, not_or] at h
    refine Place.pastAll?_cons.mpr ⟨_, ?_, ih h.2⟩
    simp [Place.past?, Ne.symm h.1]

/-- A comment is read to its end, also if a star has been seen with which the text
does not end it. -/
theorem pastAll?_blockComment (h : ∀ a b, text ≠ a ++ '*' :: '/' :: b) {lexis : Lexis}
    (hlexis : lexis = .blockComment ∨ lexis = .star ∧ text.head? ≠ some '/') :
    Place.pastAll? ⟨lexis, opened⟩ (text ++ "*/".toList) = some ⟨.code, opened⟩ := by
  induction text generalizing lexis with
  | nil => rcases hlexis with rfl | ⟨rfl, -⟩ <;> rfl
  | cons c text ih =>
    have hrest : ∀ a b, text ≠ a ++ '*' :: '/' :: b := by
      rintro a b rfl
      exact h (c :: a) b rfl
    have hnext : ∃ next, Place.past? ⟨lexis, opened⟩ c = some ⟨next, opened⟩ ∧
        (next = .blockComment ∨ next = .star ∧ text.head? ≠ some '/') := by
      by_cases hstar : c = '*'
      · refine ⟨.star, ?_, .inr ⟨rfl, ?_⟩⟩
        · subst hstar
          rcases hlexis with rfl | ⟨rfl, -⟩ <;> rfl
        · intro hslash
          obtain ⟨b, hb⟩ := List.head?_eq_some_iff.mp hslash
          exact h [] b (by rw [hstar, hb]; rfl)
      · refine ⟨.blockComment, ?_, .inl rfl⟩
        rcases hlexis with rfl | ⟨rfl, hslash⟩
        · simp [Place.past?, hstar]
        · have hne : c ≠ '/' := fun hc => hslash (by rw [hc]; rfl)
          simp [Place.past?, hstar, hne]
    obtain ⟨next, hpast, hnext⟩ := hnext
    exact Place.pastAll?_cons.mpr ⟨_, hpast, ih hrest hnext⟩

theorem Place.Reads.code (opened : List Bracket) (text : Text) :
    Place.Reads .code ⟨.code, opened⟩ text := .inl rfl

theorem Place.Reads.template (opened : List Bracket) (text : Text) :
    Place.Reads .template ⟨.template, opened⟩ text := .inl rfl

theorem Place.Reads.code_cons (h : place.Reads .code []) (hc : c ≠ '/' ∧ c ≠ '*') (rest : Text) :
    place.Reads .code (c :: rest) := by
  rcases h with hcode | ⟨hslash, -⟩
  · exact .inl hcode
  · refine .inr ⟨hslash, ?_⟩
    rintro _ ⟨⟩
    exact hc

theorem Place.Reads.template_cons (h : place.Reads .template []) (hc : c ≠ '\x7b') (rest : Text) :
    place.Reads .template (c :: rest) := by
  rcases h with htemplate | ⟨hdollar, -⟩
  · exact .inl htemplate
  · exact .inr ⟨hdollar, by simpa using hc⟩

/-- A slash or a star in front of the text means that nothing else has been seen. -/
theorem Place.Reads.eq_code {rest : Text} (h : place.Reads .code ('/' :: rest)) :
    place = ⟨.code, place.opened⟩ := by
  rcases h with hcode | ⟨-, hsign⟩
  · rw [← hcode]
  · exact absurd rfl (hsign '/' rfl).1

/-- The brace behind a balanced part of an expression closes the one in front of
that part. -/
theorem Place.past?_closing {around : Bracket} {outer : List Bracket} {next : Place}
    (hreads : place.Reads .code []) (hbraces : place.braces = around :: outer)
    (h : place.past? '\x7d' = some next) :
    next.braces = outer ∧ next.lexis = if around = .brace then .code else .template := by
  have hsign : place.Reads .code ['\x7d'] := hreads.code_cons (by decide) []
  rw [Place.past?_code hsign] at h
  rcases Place.pastCode?_closing h with ⟨rest, hopened, rfl⟩ | ⟨rest, hopened, rfl⟩
  · rw [Place.braces, hopened] at hbraces
    cases hbraces
    exact ⟨rfl, rfl⟩
  · rw [Place.braces, hopened] at hbraces
    cases hbraces
    exact ⟨rfl, rfl⟩

section Passed

variable {body rest : Text}

/-- Behind a literal in quotes the code goes on with the same brackets open. -/
theorem InQuotes.pastAll?_behind {quote : Char} (h : InQuotes quote body)
    (hquotes : quote = '"' ∨ quote = '\'')
    (hreads : place.Reads .code (quote :: body ++ quote :: rest))
    (hpast : place.pastAll? (quote :: body ++ quote :: rest) = some stop) :
    Place.pastAll? ⟨.code, place.opened⟩ rest = some stop := by
  obtain ⟨first, hfirst, hpast⟩ := Place.pastAll?_cons.mp hpast
  rw [Place.past?_code hreads] at hfirst
  have hopening : first = ⟨.quoted quote, place.opened⟩ := by
    rcases hquotes with rfl | rfl <;> cases hfirst <;> rfl
  subst hopening
  obtain ⟨last, hlast, hpast⟩ := Place.pastAll?_append.mp hpast
  rw [h.pastAll?] at hlast
  cases hlast
  obtain ⟨after, hafter, hrest⟩ := Place.pastAll?_cons.mp hpast
  have hclosing : after = ⟨.code, place.opened⟩ := by
    rcases hquotes with rfl | rfl <;> cases hafter <;> rfl
  rwa [hclosing] at hrest

theorem pastAll?_behind_lineComment (h : '\n' ∉ body)
    (hreads : place.Reads .code ('/' :: '/' :: body ++ '\n' :: rest))
    (hpast : place.pastAll? ('/' :: '/' :: body ++ '\n' :: rest) = some stop) :
    Place.pastAll? ⟨.code, place.opened⟩ rest = some stop := by
  rw [hreads.eq_code] at hpast
  obtain ⟨first, hfirst, hpast⟩ := Place.pastAll?_cons.mp hpast
  cases hfirst
  obtain ⟨second, hsecond, hpast⟩ := Place.pastAll?_cons.mp hpast
  cases hsecond
  obtain ⟨last, hlast, hpast⟩ := Place.pastAll?_append.mp hpast
  rw [pastAll?_lineComment h] at hlast
  cases hlast
  obtain ⟨after, hafter, hrest⟩ := Place.pastAll?_cons.mp hpast
  cases hafter
  exact hrest

theorem pastAll?_behind_blockComment (h : ∀ a b, body ≠ a ++ '*' :: '/' :: b)
    (hreads : place.Reads .code ('/' :: '*' :: body ++ '*' :: '/' :: rest))
    (hpast : place.pastAll? ('/' :: '*' :: body ++ '*' :: '/' :: rest) = some stop) :
    Place.pastAll? ⟨.code, place.opened⟩ rest = some stop := by
  rw [hreads.eq_code] at hpast
  obtain ⟨first, hfirst, hpast⟩ := Place.pastAll?_cons.mp hpast
  cases hfirst
  obtain ⟨second, hsecond, hpast⟩ := Place.pastAll?_cons.mp hpast
  cases hsecond
  have hcomment : Place.pastAll? ⟨.blockComment, place.opened⟩
      (body ++ "*/".toList ++ rest) = some stop := by
    rw [List.append_assoc]
    exact hpast
  obtain ⟨last, hlast, hrest⟩ := Place.pastAll?_append.mp hcomment
  rw [pastAll?_blockComment h (.inl rfl)] at hlast
  cases hlast
  exact hrest

end Passed

/-- A balanced text that can be passed at all ends in the context in which it
begins, with the same braces open. What is left open may be other brackets. -/
theorem Balanced.pastAll? {context : BraceContext} (h : Balanced context text)
    (hreads : place.Reads context text) (hpast : place.pastAll? text = some stop) :
    stop.Reads context [] ∧ stop.braces = place.braces := by
  induction h generalizing place stop with
  | done =>
    cases hpast
    exact ⟨hreads, rfl⟩
  | @plain c rest away slash more ih =>
    obtain ⟨next, hnext, hrest⟩ := Place.pastAll?_cons.mp hpast
    rw [Place.past?_code hreads] at hnext
    obtain ⟨hlexis, hbraces⟩ := Place.pastCode?_plain away hnext
    -- a slash is remembered, but the text that follows does not make it a comment
    have hfollows : next.Reads .code rest := by
      by_cases hc : c = '/'
      · exact .inr ⟨by rw [hlexis, if_pos hc], slash hc⟩
      · exact .inl (by rw [hlexis, if_neg hc])
    obtain ⟨hstop, hsame⟩ := ih hfollows hrest
    exact ⟨hstop, hsame.trans hbraces⟩
  | @braces inner rest inside more ihInside ihMore =>
    obtain ⟨first, hfirst, hpast⟩ := Place.pastAll?_cons.mp hpast
    rw [Place.past?_code hreads] at hfirst
    cases hfirst
    obtain ⟨last, hlast, hpast⟩ := Place.pastAll?_append.mp hpast
    obtain ⟨after, hafter, hrest⟩ := Place.pastAll?_cons.mp hpast
    obtain ⟨hcode, hopened⟩ := ihInside (.code _ _) hlast
    obtain ⟨hbraces, hlexis⟩ := Place.past?_closing hcode hopened hafter
    obtain ⟨hstop, hsame⟩ := ihMore (.inl hlexis) hrest
    exact ⟨hstop, hsame.trans hbraces⟩
  | quoted quotes inside more ih =>
    obtain ⟨hstop, hsame⟩ := ih (.code _ _) (inside.pastAll?_behind quotes hreads hpast)
    exact ⟨hstop, hsame⟩
  | @template body rest inside more ihInside ihMore =>
    obtain ⟨first, hfirst, hpast⟩ := Place.pastAll?_cons.mp hpast
    rw [Place.past?_code hreads] at hfirst
    cases hfirst
    obtain ⟨last, hlast, hpast⟩ := Place.pastAll?_append.mp hpast
    obtain ⟨after, hafter, hrest⟩ := Place.pastAll?_cons.mp hpast
    obtain ⟨htemplate, hopened⟩ := ihInside (.template _ _) hlast
    rw [Place.past?_template (htemplate.template_cons (by decide) [])] at hafter
    cases hafter
    obtain ⟨hstop, hsame⟩ := ihMore (.code _ _) hrest
    exact ⟨hstop, hsame.trans hopened⟩
  | lineComment inside more ih =>
    obtain ⟨hstop, hsame⟩ := ih (.code _ _) (pastAll?_behind_lineComment inside hreads hpast)
    exact ⟨hstop, hsame⟩
  | blockComment inside more ih =>
    obtain ⟨hstop, hsame⟩ := ih (.code _ _) (pastAll?_behind_blockComment inside hreads hpast)
    exact ⟨hstop, hsame⟩
  | literalDone =>
    cases hpast
    exact ⟨hreads, rfl⟩
  | @literal c rest away dollar more ih =>
    obtain ⟨next, hnext, hrest⟩ := Place.pastAll?_cons.mp hpast
    rw [Place.past?_template hreads, Place.pastTemplate, if_neg away.1, if_neg away.2] at hnext
    cases hnext
    by_cases hc : c = '$'
    · rw [if_pos hc] at hrest
      have hfollows : Place.Reads .template ⟨.dollar, place.opened⟩ rest := .inr ⟨rfl, dollar hc⟩
      obtain ⟨hstop, hsame⟩ := ih hfollows hrest
      exact ⟨hstop, hsame⟩
    · rw [if_neg hc] at hrest
      obtain ⟨hstop, hsame⟩ := ih (.template _ _) hrest
      exact ⟨hstop, hsame⟩
  | @escaped c rest more ih =>
    obtain ⟨first, hfirst, hpast⟩ := Place.pastAll?_cons.mp hpast
    rw [Place.past?_template hreads] at hfirst
    cases hfirst
    obtain ⟨second, hsecond, hrest⟩ := Place.pastAll?_cons.mp hpast
    cases hsecond
    obtain ⟨hstop, hsame⟩ := ih (.template _ _) hrest
    exact ⟨hstop, hsame⟩
  | @substitution inner rest inside more ihInside ihMore =>
    obtain ⟨first, hfirst, hpast⟩ := Place.pastAll?_cons.mp hpast
    rw [Place.past?_template hreads] at hfirst
    cases hfirst
    obtain ⟨second, hsecond, hpast⟩ := Place.pastAll?_cons.mp hpast
    cases hsecond
    obtain ⟨last, hlast, hpast⟩ := Place.pastAll?_append.mp hpast
    obtain ⟨after, hafter, hrest⟩ := Place.pastAll?_cons.mp hpast
    obtain ⟨hcode, hopened⟩ := ihInside (.code _ _) hlast
    obtain ⟨hbraces, hlexis⟩ := Place.past?_closing hcode hopened hafter
    obtain ⟨hstop, hsame⟩ := ihMore (.inl hlexis) hrest
    exact ⟨hstop, hsame.trans hbraces⟩

/-- A balanced expression whose brackets pair up ends outside of everything. -/
theorem BracketsPair.outside (hpairs : BracketsPair text) (h : Balanced .code text) :
    ∃ stop, Place.start.pastAll? text = some stop ∧ stop.IsOutside := by
  obtain ⟨stop, hpast, hopened⟩ := Option.map_eq_some_iff.mp hpairs
  refine ⟨stop, hpast, ?_, hopened⟩
  obtain ⟨hcode | ⟨hslash, -⟩, -⟩ := h.pastAll? (.code _ _) hpast
  · exact .inl hcode
  · exact .inr hslash

end Closing

end TypedComponent.Markup
