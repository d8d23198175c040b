import Mathlib.Data.Bool.AllAny
import TypedComponent.Proofs.Markup.RoundTrip

/-!
Values of attributes without quotes. They are read token by token, where a value
in quotes is searched for its next quote or brace; where the texts keep clear of
what ends either, both find the same fragments. But an expression that stands
first is the whole value, and what stands behind it belongs to the tag.
-/

namespace TypedComponent.Markup

variable {offset : Nat} {rest : Text}

/-- The characters of texts in a value without quotes. -/
def IsValueChar (c : Char) : Prop := isSeparator c = false ∧ c ∉ "\"'<>\x7b\x7d".toList

theorem IsValueChar.cases {c : Char} (h : IsValueChar c) :
    isNameChar c = true ∨ c = '/' ∨ c = '=' := by
  obtain ⟨hseparator, hsign⟩ := h
  by_cases hslash : c = '/'
  · exact .inr (.inl hslash)
  by_cases hequals : c = '='
  · exact .inr (.inr hequals)
  refine .inl ?_
  simp_all [isNameChar]

/-- What ends a text of a value without quotes: an expression, or the end of the
tag, where that is no `/>`. -/
def EndsText (raw text : Text) : Prop :=
  (∃ more, text = '\x7b' :: more) ∨ (∃ more, text = '>' :: more) ∧ raw.getLast? ≠ some '/'

theorem EndsText.not_isNameChar {raw text : Text} (h : EndsText raw text) :
    ∀ c ∈ text.head?, isNameChar c = false := by
  rcases h with ⟨more, rfl⟩ | ⟨⟨more, rfl⟩, -⟩
  all_goals
    rintro c ⟨⟩
    rfl

theorem EndsText.of_append {passed raw text : Text} (h : EndsText (passed ++ raw) text)
    (hraw : raw ≠ []) : EndsText raw text := by
  rcases h with hbrace | ⟨hangle, hlast⟩
  · exact .inl hbrace
  · rw [List.getLast?_append_of_ne_nil _ hraw] at hlast
    exact .inr ⟨hangle, hlast⟩

theorem read_valueToken {c : Char} {text : Text} (hc : IsValueChar c) :
    Token.read ⟨offset, c :: text⟩ = Token.readHere ⟨offset, c :: text⟩ := by
  have hstop : ∀ d ∈ (c :: text).head?, isSeparator d = false := by
    rintro d ⟨⟩
    exact hc.1
  rw [Token.read, Cursor.skipWhile_none hstop]

theorem exists_nameRun (text : Text) : ∃ run more, text = run ++ more ∧
    (∀ c ∈ run, isNameChar c = true) ∧ ∀ c ∈ more.head?, isNameChar c = false := by
  induction text with
  | nil => exact ⟨[], [], rfl, List.forall_mem_nil _, nofun⟩
  | cons c others ih =>
    cases hc : isNameChar c with
    | false =>
      refine ⟨[], c :: others, rfl, List.forall_mem_nil _, ?_⟩
      rintro d ⟨⟩
      exact hc
    | true =>
      obtain ⟨run, more, rfl, hrun, hmore⟩ := ih
      exact ⟨c :: run, more, rfl, List.forall_mem_cons.mpr ⟨hc, hrun⟩, hmore⟩

/-- A text is passed token by token, and no token of it ends the value. -/
theorem exists_valueToken {raw text : Text} (hne : raw ≠ []) (hraw : ∀ c ∈ raw, IsValueChar c)
    (hends : EndsText raw text) :
    ∃ kind passed more, raw = passed ++ more ∧ passed ≠ [] ∧
      (kind = .name ∧ (∀ c ∈ passed, isNameChar c = true) ∧
          (∀ c ∈ (more ++ text).head?, isNameChar c = false) ∨
        kind = .slash ∨ kind = .equals) ∧
      ∀ offset, Token.read ⟨offset, raw ++ text⟩ =
        (⟨kind, Text.spanAt offset passed⟩, ⟨offset + Text.bytes passed, more ++ text⟩) := by
  obtain ⟨c, others, rfl⟩ := List.exists_cons_of_ne_nil hne
  obtain ⟨hc, hothers⟩ := List.forall_mem_cons.mp hraw
  rcases hc.cases with hname | rfl | rfl
  · obtain ⟨run, more, rfl, hrun, hmore⟩ := exists_nameRun others
    have hstop : ∀ d ∈ (more ++ text).head?, isNameChar d = false := by
      cases more with
      | nil => exact hends.not_isNameChar
      | cons d more => exact hmore
    have hpassed : ∀ d ∈ c :: run, isNameChar d = true := List.forall_mem_cons.mpr ⟨hname, hrun⟩
    refine ⟨.name, c :: run, more, rfl, List.cons_ne_nil _ _, .inl ⟨rfl, hpassed, hstop⟩, ?_⟩
    intro offset
    have hafter : (⟨offset, c :: run ++ (more ++ text)⟩ : Cursor).skipWhile isNameChar =
        ⟨offset + Text.bytes (c :: run), more ++ text⟩ :=
      Cursor.skipWhile_run hpassed hstop
    rw [List.cons_append] at hafter
    rw [List.cons_append, List.append_assoc, read_valueToken hc, Token.readHere]
    dsimp only
    rw [leading_nameChar hname]
    dsimp only
    rw [if_pos rfl, hafter]
    rfl
  · have hangle : (others ++ text).head? ≠ some '>' := by
      cases others with
      | nil =>
        rcases hends with ⟨more, rfl⟩ | ⟨-, hlast⟩
        · exact nofun
        · exact absurd rfl hlast
      | cons d others =>
        rintro ⟨⟩
        exact absurd (hothers '>' List.mem_cons_self).2 (by decide)
    have hleading : TokenKind.leading ('/' :: (others ++ text)) = (.slash, 1) := by
      cases hbehind : others ++ text with
      | nil => rfl
      | cons d more =>
        have hd : d ≠ '>' := by
          rintro rfl
          exact hangle (by rw [hbehind]; rfl)
        unfold TokenKind.leading
        split <;> simp_all
    refine ⟨.slash, ['/'], others, rfl, List.cons_ne_nil _ _, .inr (.inl rfl), fun offset => ?_⟩
    rw [List.cons_append, read_valueToken hc, Token.readHere]
    dsimp only
    rw [hleading]
    rfl
  · exact ⟨.equals, ['='], others, rfl, List.cons_ne_nil _ _, .inr (.inr rfl), fun offset => rfl⟩

namespace WrittenFragment

/-- Fragments that can stand in a value without quotes. -/
def IsUnquoted : WrittenFragment → Prop
  | text raw => raw ≠ [] ∧ ∀ c ∈ raw, IsValueChar c
  | expression inner => Balanced .code inner

theorem IsUnquoted.wellFormed {value : WrittenFragment} (h : value.IsUnquoted) {quote : Char}
    (hquote : quote = '"' ∨ quote = '\'') : value.WellFormed quote := by
  cases value with
  | expression inner => exact h
  | text raw =>
    refine ⟨h.1, fun c hc => ⟨?_, ?_⟩⟩
    · rintro rfl
      rcases hquote with rfl | rfl <;> exact absurd (h.2 _ hc).2 (by decide)
    · rintro rfl
      exact absurd (h.2 _ hc).2 (by decide)

/-- The fragments of a value without quotes. Before the end of the tag, a slash
would close the element. -/
structure Unquoted (values : List WrittenFragment) : Prop where
  each : ∀ value ∈ values, value.IsUnquoted
  chain : values.IsChain CanFollow
  clear : ∀ raw, values.getLast? = some (.text raw) → raw.getLast? ≠ some '/'

namespace Unquoted

variable {first : WrittenFragment} {others : List WrittenFragment}

theorem nil : Unquoted [] := ⟨List.forall_mem_nil _, .nil, nofun⟩

theorem tail (h : Unquoted (first :: others)) : Unquoted others where
  each := (List.forall_mem_cons.mp h.each).2
  chain := h.chain.of_cons
  clear raw hlast := h.clear raw (by rw [List.getLast?_cons, hlast]; rfl)

theorem head (h : Unquoted (first :: others)) : first.IsUnquoted :=
  (List.forall_mem_cons.mp h.each).1

/-- Behind a text stands an expression or the end of the tag. -/
theorem endsText {raw : Text} (h : Unquoted (.text raw :: others)) (rest : Text) :
    EndsText raw (printAll others ++ '>' :: rest) := by
  cases others with
  | nil => exact .inr ⟨⟨rest, rfl⟩, h.clear raw rfl⟩
  | cons second others =>
    cases second with
    | expression inner => exact .inl ⟨_, rfl⟩
    | text more =>
      exact absurd (List.isChain_cons_cons.mp h.chain).1 (by simp [CanFollow, isText])

/-- A text begins where it is looked for. -/
theorem skipWhile_text {raw : Text} (h : Unquoted (.text raw :: others)) :
    (⟨offset, printAll (.text raw :: others) ++ '>' :: rest⟩ : Cursor).skipWhile isSeparator =
      ⟨offset, printAll (.text raw :: others) ++ '>' :: rest⟩ := by
  apply Cursor.skipWhile_none
  obtain ⟨c, raw, rfl⟩ := List.exists_cons_of_ne_nil h.head.1
  rintro d ⟨⟩
  exact (h.head.2 _ List.mem_cons_self).1

/-- What is left of a text is one too, or nothing. -/
theorem left {passed more : Text} (h : Unquoted (.text (passed ++ more) :: others)) :
    ∃ left, Unquoted left ∧ printAll left = more ++ printAll others := by
  by_cases hmore : more = []
  · subst hmore
    exact ⟨others, h.tail, rfl⟩
  refine ⟨.text more :: others, ⟨?_, ?_, ?_⟩, rfl⟩
  · refine List.forall_mem_cons.mpr ⟨⟨hmore, fun c hc => ?_⟩, h.tail.each⟩
    exact h.head.2 c (List.mem_append_right _ hc)
  · cases others with
    | nil => exact .singleton _
    | cons second others => exact .cons_cons (List.isChain_cons_cons.mp h.chain).1 h.tail.chain
  · intro raw hlast
    cases others with
    | nil =>
      cases hlast
      have hclear := h.clear (passed ++ more) rfl
      rwa [List.getLast?_append_of_ne_nil _ hmore] at hclear
    | cons second others => exact h.clear raw (by simpa [List.getLast?_cons] using hlast)

end Unquoted

end WrittenFragment

namespace Fragment

/-- A text in a value without quotes is passed as a whole. -/
theorem readUnquotedWithin_text {raw text : Text} (hraw : ∀ c ∈ raw, IsValueChar c)
    (hends : EndsText raw text) {steps : Nat} (hsteps : raw.length < steps) :
    ∃ left, steps ≤ left + raw.length ∧ ∀ offset start,
      readUnquotedWithin steps start ⟨offset, raw ++ text⟩ =
        readUnquotedWithin left start ⟨offset + Text.bytes raw, text⟩ := by
  induction steps generalizing raw with
  | zero => exact absurd hsteps (Nat.not_lt_zero _)
  | succ steps ih =>
    by_cases hne : raw = []
    · subst hne
      exact ⟨steps + 1, Nat.le_refl _, fun _ _ => rfl⟩
    obtain ⟨kind, passed, more, rfl, hpassed, hkind, hread⟩ := exists_valueToken hne hraw hends
    have hpos := List.length_pos_iff.mpr hpassed
    rw [List.length_append] at hsteps
    have htoken (offset : Nat) (start : Cursor) :
        readUnquotedWithin (steps + 1) start ⟨offset, passed ++ more ++ text⟩ =
          readUnquotedWithin steps start ⟨offset + Text.bytes passed, more ++ text⟩ := by
      rw [readUnquotedWithin, hread]
      rcases hkind with ⟨rfl, -⟩ | rfl | rfl <;> simp [Text.spanAt, TokenKind.opensBrace]
    by_cases hmore : more = []
    · subst hmore
      refine ⟨steps, by rw [List.length_append]; omega, fun offset start => ?_⟩
      rw [htoken, List.append_nil, List.nil_append]
    · obtain ⟨left, hleft, hrest⟩ := ih (fun c hc => hraw c (List.mem_append_right _ hc))
        (hends.of_append hmore) (by omega)
      refine ⟨left, by rw [List.length_append]; omega, fun offset start => ?_⟩
      rw [htoken, hrest, Text.bytes_append, Nat.add_assoc]

theorem readUnquotedWithin_expression {steps : Nat} {start cursor after : Cursor} {text : Text}
    {span inner : Span} (hbrace : cursor.rest = '\x7b' :: text)
    (hexpression : readExpression cursor = ⟨some (span, inner), [], after⟩) :
    readUnquotedWithin (steps + 1) start cursor =
      ⟨textBetween start cursor ++ .expression span inner ::
          (readUnquotedWithin steps after after).value,
        (readUnquotedWithin steps after after).errors,
        (readUnquotedWithin steps after after).cursor⟩ := by
  have hread : Token.read cursor = Token.readHere cursor := by
    rw [Token.read, Cursor.skipWhile, Cursor.takeWhile, hbrace]
    show Token.readHere ⟨cursor.offset, '\x7b' :: text⟩ = _
    rw [← hbrace]
  have hkind : (Token.readHere cursor).1.kind.opensBrace = true := (readHere_brace hbrace).1
  have hgoesOn : ((Token.readHere cursor).1.span.start != cursor.offset ||
      (Token.readHere cursor).1.kind = .closeAngle ||
      (Token.readHere cursor).1.kind = .slashAngle ||
      (Token.readHere cursor).1.kind = .finish) = false := by
    have hstart : (Token.readHere cursor).1.span.start = cursor.offset := rfl
    cases hcase : (Token.readHere cursor).1.kind <;> simp_all [TokenKind.opensBrace]
  rw [readUnquotedWithin, hread]
  dsimp only
  rw [hgoesOn, if_neg Bool.false_ne_true, if_pos hkind, hexpression]
  rfl

/-- A value without quotes is read from a place in its leading text on. -/
theorem readUnquotedWithin_written {raw : Text} {values : List WrittenFragment}
    (hfollow : raw ≠ [] → ∀ first ∈ values.head?, first.isText = false)
    (h : WrittenFragment.Unquoted values) {steps : Nat}
    (hsteps : (WrittenFragment.printAll values).length < steps) :
    readUnquotedWithin steps
        ⟨offset, raw ++ (WrittenFragment.printAll values ++ '>' :: rest)⟩
        ⟨offset + Text.bytes raw, WrittenFragment.printAll values ++ '>' :: rest⟩ =
      ⟨(if raw.isEmpty then [] else [.text (Text.spanAt offset raw) raw]) ++
          WrittenFragment.placeAll (offset + Text.bytes raw) values, [],
        ⟨offset + Text.bytes raw + Text.bytes (WrittenFragment.printAll values),
          '>' :: rest⟩⟩ := by
  induction values generalizing offset raw steps with
  | nil =>
    obtain ⟨steps, rfl⟩ : ∃ before, steps = before + 1 := ⟨steps - 1, by omega⟩
    have hprint : WrittenFragment.printAll [] ++ '>' :: rest = '>' :: rest := rfl
    have hread : Token.read ⟨offset + Text.bytes raw, '>' :: rest⟩ =
        (⟨.closeAngle, ⟨offset + Text.bytes raw, offset + Text.bytes raw + 1⟩⟩,
          ⟨offset + Text.bytes raw + 1, rest⟩) := rfl
    rw [hprint, readUnquotedWithin, hread]
    simp only [bne_self_eq_false, Bool.false_or, decide_true, Bool.true_or, if_true]
    rw [textBetween_run, WrittenFragment.placeAll, List.append_nil]
    rfl
  | cons first others ih =>
    have hfirst := h.head
    cases first with
    | text more =>
      have hnil : raw = [] := by
        by_contra hne
        exact absurd (hfollow hne _ rfl) (by simp [WrittenFragment.isText])
      subst hnil
      have hfree : more ≠ [] → ∀ next ∈ others.head?, next.isText = false := by
        rintro - next hnext
        cases others with
        | nil => cases hnext
        | cons second others =>
          cases hnext
          exact (List.isChain_cons_cons.mp h.chain).1
      have hprint : WrittenFragment.printAll (.text more :: others) =
          more ++ WrittenFragment.printAll others := rfl
      have hsome : more.isEmpty = false := List.isEmpty_eq_false_iff.mpr hfirst.1
      rw [hprint] at hsteps ⊢
      rw [List.length_append] at hsteps
      have hshort : more.length < steps := by omega
      obtain ⟨left, hleft, hpass⟩ := readUnquotedWithin_text hfirst.2 (h.endsText rest) hshort
      rw [List.nil_append, List.append_assoc, hpass, Text.bytes_nil, Nat.add_zero,
        ih hfree h.tail (by omega)]
      simp [hsome, WrittenFragment.placeAll, WrittenFragment.place, WrittenFragment.print,
        Nat.add_assoc]
    | expression inner =>
      have hprint : WrittenFragment.printAll (.expression inner :: others) =
          (WrittenFragment.expression inner).print ++ WrittenFragment.printAll others := rfl
      rw [hprint] at hsteps ⊢
      rw [List.length_append] at hsteps
      obtain ⟨steps, rfl⟩ : ∃ before, steps = before + 1 := ⟨steps - 1, by omega⟩
      have hlength : (WrittenFragment.printAll others).length < steps := by
        simp only [WrittenFragment.print, List.length_append, List.length_cons] at hsteps
        omega
      have hmore (place : Nat) : readUnquotedWithin steps
          ⟨place, WrittenFragment.printAll others ++ '>' :: rest⟩
          ⟨place, WrittenFragment.printAll others ++ '>' :: rest⟩ =
            ⟨WrittenFragment.placeAll place others, [],
              ⟨place + Text.bytes (WrittenFragment.printAll others), '>' :: rest⟩⟩ :=
        ih (fun hne : [] ≠ [] => absurd rfl hne) h.tail hlength
      rw [List.append_assoc, readUnquotedWithin_expression rfl (readExpression_written hfirst),
        textBetween_run, hmore, Text.bytes_append]
      simp only [WrittenFragment.placeAll, WrittenFragment.place, Nat.add_assoc]

theorem readUnquoted_written {values : List WrittenFragment}
    (h : WrittenFragment.Unquoted values) :
    readUnquoted ⟨offset, WrittenFragment.printAll values ++ '>' :: rest⟩ =
      ⟨WrittenFragment.placeAll offset values, [],
        ⟨offset + Text.bytes (WrittenFragment.printAll values), '>' :: rest⟩⟩ := by
  have hsteps : (WrittenFragment.printAll values).length <
      (WrittenFragment.printAll values ++ '>' :: rest).length + 1 := by
    rw [List.length_append]
    omega
  exact readUnquotedWithin_written (fun hne : [] ≠ [] => absurd rfl hne) h hsteps

/-- A value that begins with a text is read as far as it goes. -/
theorem readValue_unquoted {first : Text} {others : List WrittenFragment}
    (h : WrittenFragment.Unquoted (.text first :: others)) :
    readValue ⟨offset, WrittenFragment.printAll (.text first :: others) ++ '>' :: rest⟩ =
      ⟨WrittenFragment.placeAll offset (.text first :: others), [],
        ⟨offset + Text.bytes (WrittenFragment.printAll (.text first :: others)), '>' :: rest⟩⟩ := by
  have hfirst := h.head
  have hprint : WrittenFragment.printAll (.text first :: others) ++ '>' :: rest =
      first ++ (WrittenFragment.printAll others ++ '>' :: rest) := List.append_assoc _ _ _
  obtain ⟨kind, passed, more, -, -, hkind, hread⟩ := exists_valueToken hfirst.1 hfirst.2
    (h.endsText rest)
  have hstart : (⟨offset, WrittenFragment.printAll (.text first :: others) ++ '>' :: rest⟩ :
      Cursor).skipWhile isSeparator =
        ⟨offset, WrittenFragment.printAll (.text first :: others) ++ '>' :: rest⟩ := h.skipWhile_text
  have htoken := hread offset
  rw [← hprint, Token.read, hstart] at htoken
  unfold readValue
  dsimp only
  rw [hstart, htoken, readUnquoted_written h]
  rcases hkind with ⟨rfl, -⟩ | rfl | rfl <;> rfl

end Fragment

namespace Attribute

/-- The printed fragments behind a name and an equals sign. -/
def printUnquoted (name : Text) (values : List WrittenFragment) : Text :=
  name ++ '=' :: WrittenFragment.printAll values

theorem bytes_printUnquoted (name : Text) (values : List WrittenFragment) :
    Text.bytes (printUnquoted name values) =
      Text.bytes name + 1 + Text.bytes (WrittenFragment.printAll values) := by
  rw [printUnquoted, Text.bytes_append, Text.bytes_cons, ← Nat.add_assoc]
  rfl

theorem readNamed_unquoted {name first : Text} {others : List WrittenFragment}
    (hname : IsName name) (h : WrittenFragment.Unquoted (.text first :: others)) :
    readNamed ⟨offset, printUnquoted name (.text first :: others) ++ '>' :: rest⟩ =
      ⟨.named (Text.spanAt offset (printUnquoted name (.text first :: others))) name
          (WrittenFragment.placeAll (offset + Text.bytes name + 1) (.text first :: others)), [],
        ⟨offset + Text.bytes (printUnquoted name (.text first :: others)), '>' :: rest⟩⟩ := by
  have hprint : printUnquoted name (.text first :: others) ++ '>' :: rest =
      name ++ '=' :: (WrittenFragment.printAll (.text first :: others) ++ '>' :: rest) :=
    List.append_assoc _ _ _
  rw [hprint, readNamed_equals hname (Fragment.readValue_unquoted h),
    Text.spanAt, bytes_printUnquoted]
  simp only [Nat.add_assoc]

/-- Reading that starts before the printed fragments and stops before some of them. -/
def StopsWithin (values : List WrittenFragment) (offset : Nat) (rest : Text) (after : Cursor) :
    Prop :=
  ∃ passed left, WrittenFragment.Unquoted left ∧
    WrittenFragment.printAll values = passed ++ WrittenFragment.printAll left ∧
    after = ⟨offset + Text.bytes passed, WrittenFragment.printAll left ++ '>' :: rest⟩

theorem readValue_stops {values : List WrittenFragment} (h : WrittenFragment.Unquoted values) :
    StopsWithin values offset rest
      (Fragment.readValue ⟨offset, WrittenFragment.printAll values ++ '>' :: rest⟩).cursor := by
  cases values with
  | nil => exact ⟨[], [], .nil, rfl, rfl⟩
  | cons first others =>
    cases first with
    | text raw =>
      rw [Fragment.readValue_unquoted h]
      exact ⟨_, [], .nil, (List.append_nil _).symm, rfl⟩
    | expression inner =>
      have hprint : WrittenFragment.printAll (.expression inner :: others) ++ '>' :: rest =
          (WrittenFragment.expression inner).print ++
            (WrittenFragment.printAll others ++ '>' :: rest) := List.append_assoc _ _ _
      rw [hprint, Fragment.readValue_braced h.head]
      exact ⟨_, others, h.tail, rfl, rfl⟩

theorem StopsWithin.behind {first values : List WrittenFragment} {passed : Text} {after : Cursor}
    (h : StopsWithin values (offset + Text.bytes passed) rest after)
    (hprint : WrittenFragment.printAll first = passed ++ WrittenFragment.printAll values) :
    StopsWithin first offset rest after := by
  obtain ⟨more, left, hleft, hvalues, rfl⟩ := h
  refine ⟨passed ++ more, left, hleft, by rw [hprint, hvalues, List.append_assoc], ?_⟩
  rw [Text.bytes_append, Nat.add_assoc]

/-- An attribute that begins with a name in the middle of a value. -/
theorem readNamed_stops {run : Text} {values : List WrittenFragment}
    (h : WrittenFragment.Unquoted values) (hrun : ∀ c ∈ run, isNameChar c = true)
    (hstop : ∀ c ∈ (WrittenFragment.printAll values ++ '>' :: rest).head?, isNameChar c = false) :
    StopsWithin values (offset + Text.bytes run) rest
      (readNamed ⟨offset, run ++ (WrittenFragment.printAll values ++ '>' :: rest)⟩).cursor := by
  unfold readNamed
  rw [Cursor.takeWhile_run hrun hstop]
  dsimp only
  split
  · next hequals =>
    cases values with
    | nil => cases hequals
    | cons first others =>
      cases first with
      | expression inner =>
        have hopens : (Token.readHere ⟨offset + Text.bytes run, WrittenFragment.printAll
            (.expression inner :: others) ++ '>' :: rest⟩).1.kind.opensBrace = true :=
          (readHere_brace rfl).1
        rw [show (Token.readHere ⟨offset + Text.bytes run, WrittenFragment.printAll
            (.expression inner :: others) ++ '>' :: rest⟩).1.kind = .equals from hequals] at hopens
        cases hopens
      | text raw =>
        obtain ⟨kind, passed, more, rfl, -, hkind, hread⟩ := exists_valueToken h.head.1 h.head.2
          (h.endsText rest)
        obtain ⟨left, hleft, hprint⟩ := h.left
        have hall : WrittenFragment.printAll (.text (passed ++ more) :: others) =
            passed ++ WrittenFragment.printAll left := by
          rw [hprint, ← List.append_assoc]
          rfl
        have htoken := hread (offset + Text.bytes run)
        rw [List.append_assoc, ← List.append_assoc more, ← hprint, ← List.append_assoc,
          ← hall] at htoken
        rw [htoken] at hequals ⊢
        exact (readValue_stops hleft).behind hall
  · exact ⟨[], values, h, rfl, rfl⟩

theorem readBraced_cursor {inner : Text} (h : Balanced .code inner) :
    (readBraced ⟨offset, (WrittenFragment.expression inner).print ++ rest⟩).cursor =
      ⟨offset + Text.bytes (WrittenFragment.expression inner).print, rest⟩ := by
  unfold readBraced
  rw [Fragment.readExpression_written h]
  dsimp only
  split <;> rfl

/-- In the middle of a value, one step passes some of what is left. -/
theorem readListWithin_pass {values : List WrittenFragment} (h : WrittenFragment.Unquoted values)
    (hne : values ≠ []) (steps : Nat) :
    ∃ passed left, passed ≠ [] ∧ WrittenFragment.Unquoted left ∧
      WrittenFragment.printAll values = passed ++ WrittenFragment.printAll left ∧
      (readListWithin (steps + 1) ⟨offset, WrittenFragment.printAll values ++ '>' :: rest⟩).cursor =
        (readListWithin steps ⟨offset + Text.bytes passed,
          WrittenFragment.printAll left ++ '>' :: rest⟩).cursor := by
  obtain ⟨first, others, rfl⟩ := List.exists_cons_of_ne_nil hne
  cases first with
  | expression inner =>
    have hprint : WrittenFragment.printAll (.expression inner :: others) ++ '>' :: rest =
        (WrittenFragment.expression inner).print ++
          (WrittenFragment.printAll others ++ '>' :: rest) := List.append_assoc _ _ _
    have hstart : (⟨offset, WrittenFragment.printAll (.expression inner :: others) ++
        '>' :: rest⟩ : Cursor).skipWhile isSeparator =
          ⟨offset, WrittenFragment.printAll (.expression inner :: others) ++ '>' :: rest⟩ := rfl
    refine ⟨(WrittenFragment.expression inner).print, others, List.cons_ne_nil _ _, h.tail, rfl, ?_⟩
    rw [readListWithin_braced hstart (readHere_brace rfl).1]
    dsimp only
    rw [hprint, readBraced_cursor h.head]
  | text raw =>
    obtain ⟨kind, run, more, rfl, hrun, hkind, hread⟩ := exists_valueToken h.head.1 h.head.2
      (h.endsText rest)
    obtain ⟨left, hleft, hmore⟩ := h.left
    have hall : WrittenFragment.printAll (.text (run ++ more) :: others) =
        run ++ WrittenFragment.printAll left := by
      rw [hmore, ← List.append_assoc]
      rfl
    have hbehind : more ++ (WrittenFragment.printAll others ++ '>' :: rest) =
        WrittenFragment.printAll left ++ '>' :: rest := by
      rw [hmore, List.append_assoc]
    have hstart : (⟨offset, WrittenFragment.printAll (.text (run ++ more) :: others) ++
        '>' :: rest⟩ : Cursor).skipWhile isSeparator =
          ⟨offset, WrittenFragment.printAll (.text (run ++ more) :: others) ++ '>' :: rest⟩ :=
      h.skipWhile_text
    rw [hall, List.append_assoc] at hstart ⊢
    have htoken := hread offset
    rw [List.append_assoc, hbehind, Token.read, hstart] at htoken
    rcases hkind with ⟨rfl, hname, hstop⟩ | rfl | rfl
    · obtain ⟨c, name, rfl⟩ := List.exists_cons_of_ne_nil hrun
      rw [hbehind] at hstop
      obtain ⟨passed, last, hlast, hpassed, hafter⟩ : StopsWithin left
          (offset + Text.bytes (c :: name)) rest (readNamed ⟨offset, _⟩).cursor :=
        readNamed_stops hleft hname hstop
      refine ⟨c :: name ++ passed, last, List.cons_ne_nil _ _, hlast, ?_, ?_⟩
      · rw [hpassed, List.append_assoc]
      · rw [readListWithin_named hstart rfl (hname c List.mem_cons_self), hafter,
          Text.bytes_append, Nat.add_assoc]
    all_goals
      refine ⟨run, left, hrun, hleft, rfl, ?_⟩
      rw [readListWithin]
      dsimp only
      rw [hstart, htoken]
      rfl

/-- What is left of a value is read as attributes, up to the end of the tag. -/
theorem readListWithin_left {values : List WrittenFragment} (h : WrittenFragment.Unquoted values)
    {steps : Nat} (hsteps : (WrittenFragment.printAll values).length < steps) :
    (readListWithin steps ⟨offset, WrittenFragment.printAll values ++ '>' :: rest⟩).cursor =
      ⟨offset + Text.bytes (WrittenFragment.printAll values), '>' :: rest⟩ := by
  induction steps generalizing values offset with
  | zero => omega
  | succ steps ih =>
    by_cases hne : values = []
    · subst hne
      exact congrArg Reading.cursor (readListWithin_end (.inl rfl) (Nat.succ_pos steps))
    obtain ⟨passed, left, hpassed, hleft, hprint, hread⟩ := readListWithin_pass h hne steps
    have hpos := List.length_pos_iff.mpr hpassed
    rw [hprint, List.length_append] at hsteps
    rw [hread, ih hleft (by omega), hprint, Text.bytes_append, Nat.add_assoc]

/-- Reading attributes begins with the one that has a name. -/
theorem readList_named {printed : Text} {found : Attribute} {after : Cursor}
    (hprinted : ∃ c more, printed = c :: more ∧ isNameChar c = true)
    (hfound : readNamed ⟨offset + 1, printed ++ rest⟩ = ⟨found, [], after⟩) :
    readList ⟨offset, ' ' :: printed ++ rest⟩ =
      ⟨found :: (readListWithin (printed ++ rest).length.succ after).value,
        (readListWithin (printed ++ rest).length.succ after).errors,
        (readListWithin (printed ++ rest).length.succ after).cursor⟩ := by
  obtain ⟨c, more, rfl, hc⟩ := hprinted
  have hstop : ∀ d ∈ (c :: more ++ rest).head?, isSeparator d = false := by
    rintro d ⟨⟩
    exact not_isSeparator_of_isNameChar hc
  have hspace : ∀ d ∈ [' '], isSeparator d = true := List.forall_mem_singleton.mpr rfl
  have hstart : (⟨offset, ' ' :: (c :: more) ++ rest⟩ : Cursor).skipWhile isSeparator =
      ⟨offset + 1, c :: more ++ rest⟩ := Cursor.skipWhile_run hspace hstop
  rw [readList, readListWithin_named hstart rfl hc, hfound]
  rfl

theorem printUnquoted_head {name : Text} (hname : IsName name) (values : List WrittenFragment) :
    ∃ c more, printUnquoted name values = c :: more ∧ isNameChar c = true :=
  isName_head hname _

end Attribute

/-- The source of an element with nothing between its tags. -/
def emptyElement (name text : Text) : Text :=
  '<' :: (name ++ (' ' :: text ++ '>' :: Written.printClosingTag name))

/-- What it is read as when its opening tag is read with these attributes. -/
def emptyElementRead (source name : Text) (attributes : List Attribute) (errors : List Error) :
    Parsed :=
  let span := ⟨0, Text.bytes source⟩
  ⟨⟨span, [.element span name attributes false []], [], []⟩, errors⟩

theorem parse_emptyElement {name text : Text} {attributes : Reading (List Attribute)}
    (hname : IsTagName name) (hvoid : isVoid name = false) (hscript : isScriptName name = false)
    (hstyle : isStyleName name = false)
    (hread : Attribute.readList ⟨1 + Text.bytes name,
      ' ' :: text ++ '>' :: Written.printClosingTag name⟩ = attributes)
    (hbehind : attributes.cursor = ⟨1 + Text.bytes name + Text.bytes (' ' :: text),
      '>' :: Written.printClosingTag name⟩) :
    parse (emptyElement name text) =
      emptyElementRead (emptyElement name text) name attributes.value attributes.errors := by
  have hgap : ∀ c ∈ (' ' :: text ++ (['>'] ++ Written.printClosingTag name)).head?,
      isNameChar c = false := by
    rintro c ⟨⟩
    rfl
  have hopen : (Outline.ofSource (emptyElement name text)).step =
      (Outline.ofSource (emptyElement name text)).endTag name attributes []
        ⟨0 + 1 + Text.bytes name + Text.bytes (' ' :: text) + Text.bytes ['>'],
          Written.printClosingTag name⟩ false := by
    rw [Nat.zero_add]
    have hcursor : (Outline.ofSource (emptyElement name text)).cursor =
        ⟨0, '<' :: (name ++ (' ' :: text ++ (['>'] ++ Written.printClosingTag name)))⟩ := rfl
    exact Outline.step_tag_read hname (.inl rfl) hgap
      (by rwa [Nat.zero_add]) (by rwa [Nat.zero_add]) hcursor
  have hinside : (Outline.ofSource (emptyElement name text)).step =
      { (Outline.ofSource (emptyElement name text)).advance attributes.errors
          ⟨0 + 1 + Text.bytes name + Text.bytes (' ' :: text) + Text.bytes ['>'],
            Written.printClosingTag name⟩ with opened := [⟨0, name, attributes.value, []⟩] } := by
    rw [hopen, Outline.endTag, hscript, hstyle, hvoid, List.append_nil]
    rfl
  have hcursor : (Outline.ofSource (emptyElement name text)).step.cursor =
      ⟨0 + 1 + Text.bytes name + Text.bytes (' ' :: text) + Text.bytes ['>'],
        Written.printClosingTag (OpenElement.mk 0 name attributes.value []).name ++ []⟩ := by
    rw [hinside, List.append_nil]
    rfl
  have hclose := Outline.step_closing hname (congrArg Outline.opened hinside) hcursor
  have hlead : Outline.Leads (Outline.ofSource (emptyElement name text)) _ :=
    (Relation.ReflTransGen.single ⟨rfl, rfl⟩).tail
      ⟨Outline.isFinished_of_cursor (congrArg Outline.cursor hinside) (List.cons_ne_nil _ _),
        hclose⟩
  have hstop : 0 + 1 + Text.bytes name + Text.bytes (' ' :: text) + Text.bytes ['>'] +
      Text.bytes (Written.printClosingTag name) = Text.bytes (emptyElement name text) := by
    simp only [emptyElement, Text.bytes_append, Text.bytes_cons, Text.bytes_nil, Nat.add_assoc,
      Nat.zero_add]
    rfl
  rw [hinside] at hlead
  have hrun := hlead.run_eq rfl (parse_isFinished (emptyElement name text))
  unfold parse
  rw [hrun, hstop]
  simp [Outline.close, Outline.advance, Outline.add, Outline.ofSource, emptyElementRead]

section Paragraph

variable {name : Text} {values : List WrittenFragment}

theorem parse_paragraph {text : Text} {attributes : Reading (List Attribute)}
    (hread : Attribute.readList ⟨2, ' ' :: text ++ '>' :: "</p>".toList⟩ = attributes)
    (hbehind : attributes.cursor = ⟨2 + Text.bytes (' ' :: text), '>' :: "</p>".toList⟩) :
    parse (emptyElement "p".toList text) =
      emptyElementRead (emptyElement "p".toList text) "p".toList attributes.value
        attributes.errors :=
  parse_emptyElement ⟨'p', [], rfl, rfl, List.forall_mem_nil _⟩ (by decide) (by decide) (by decide)
    hread hbehind

theorem behind_space (text : Text) : 3 + Text.bytes text = 2 + Text.bytes (' ' :: text) := by
  rw [Text.bytes_cons, ← Nat.add_assoc]
  rfl

/-- A value in quotes is read as it is printed. -/
theorem parse_quotedValue (hname : IsName name) (h : WrittenFragment.Unquoted values)
    (hne : values ≠ []) :
    parse (emptyElement "p".toList (WrittenAttribute.quoted name '"' values).print) =
      emptyElementRead (emptyElement "p".toList (WrittenAttribute.quoted name '"' values).print)
        "p".toList
        [.named (Text.spanAt 3 (WrittenAttribute.quoted name '"' values).print) name
          (WrittenFragment.placeAll (3 + Text.bytes name + 2) values)] [] := by
  have hwell : ∀ attr ∈ [WrittenAttribute.quoted name '"' values], attr.WellFormed :=
    List.forall_mem_singleton.mpr
      ⟨hname, .inl rfl, fun value hvalue => (h.each value hvalue).wellFormed (.inl rfl), h.chain⟩
  have hsome : values.isEmpty = false := List.isEmpty_eq_false_iff.mpr hne
  have hprint : WrittenAttribute.printAll [.quoted name '"' values] =
      ' ' :: (WrittenAttribute.quoted name '"' values).print := List.append_nil _
  have hread : Attribute.readList ⟨2, WrittenAttribute.printAll [.quoted name '"' values] ++
      (['>'] ++ "</p>".toList)⟩ = _ := Attribute.readList_written hwell (.inl rfl)
  rw [hprint] at hread
  rw [parse_paragraph hread rfl]
  simp [WrittenAttribute.placeAll, WrittenAttribute.place, WrittenFragment.placeQuoted, hsome]

/-- A value without quotes that begins with a text is read as it is printed. -/
theorem parse_unquotedValue {first : Text} {others : List WrittenFragment} (hname : IsName name)
    (h : WrittenFragment.Unquoted (.text first :: others)) :
    parse (emptyElement "p".toList (Attribute.printUnquoted name (.text first :: others))) =
      emptyElementRead
        (emptyElement "p".toList (Attribute.printUnquoted name (.text first :: others)))
        "p".toList
        [.named (Text.spanAt 3 (Attribute.printUnquoted name (.text first :: others))) name
          (WrittenFragment.placeAll (3 + Text.bytes name + 1) (.text first :: others))] [] := by
  have hnamed : Attribute.readNamed ⟨2 + 1, Attribute.printUnquoted name (.text first :: others) ++
      '>' :: "</p>".toList⟩ = _ := Attribute.readNamed_unquoted hname h
  have hread := Attribute.readList_named (Attribute.printUnquoted_head hname _) hnamed
  exact parse_paragraph hread (congrArg (Cursor.mk · _) (behind_space _))

/-- An expression that stands first is the whole value, and the rest is read as further
attributes. -/
theorem parse_leadingExpression {inner : Text} {others : List WrittenFragment}
    (hname : IsName name) (h : WrittenFragment.Unquoted (.expression inner :: others)) :
    ∃ more errors,
      parse (emptyElement "p".toList (Attribute.printUnquoted name (.expression inner :: others))) =
        emptyElementRead
          (emptyElement "p".toList (Attribute.printUnquoted name (.expression inner :: others)))
          "p".toList
          (.named (Text.spanAt 3 (WrittenAttribute.braced name inner).print) name
            [(WrittenFragment.expression inner).place (3 + Text.bytes name + 1)] :: more)
          errors ∧ (others = [] → more = [] ∧ errors = []) := by
  have hall : Attribute.printUnquoted name (.expression inner :: others) =
      (WrittenAttribute.braced name inner).print ++ WrittenFragment.printAll others := by
    simp [Attribute.printUnquoted, WrittenFragment.printAll, WrittenAttribute.print]
  have hprint : Attribute.printUnquoted name (.expression inner :: others) ++ '>' :: "</p>".toList =
      (WrittenAttribute.braced name inner).print ++
        (WrittenFragment.printAll others ++ '>' :: "</p>".toList) := by
    rw [hall, List.append_assoc]
  have hnamed : Attribute.readNamed ⟨2 + 1, (WrittenAttribute.braced name inner).print ++
      (WrittenFragment.printAll others ++ '>' :: "</p>".toList)⟩ = _ :=
    Attribute.readNamed_braced ⟨hname, h.head⟩
  rw [← hprint] at hnamed
  have hread := Attribute.readList_named (Attribute.printUnquoted_head hname _) hnamed
  have hsteps : (WrittenFragment.printAll others).length <
      (Attribute.printUnquoted name (.expression inner :: others) ++
        '>' :: "</p>".toList).length.succ := by
    rw [hprint]
    simp only [List.length_append]
    omega
  refine ⟨_, _, parse_paragraph hread ?_, ?_⟩
  · refine (Attribute.readListWithin_left h.tail hsteps).trans (congrArg (Cursor.mk · _) ?_)
    rw [← behind_space, hall, Text.bytes_append, Nat.add_assoc]
  · rintro rfl
    exact ⟨rfl, rfl⟩

/-- The fragments of a value in quotes are those that are printed. Without quotes they are
too, but for a value in which more stands behind an expression at its beginning: it ends with
the expression. -/
theorem parse_attributeValue (hname : IsName name) (h : WrittenFragment.Unquoted values)
    (hne : values ≠ []) :
    let quoted := (WrittenAttribute.quoted name '"' values).print
    let unquoted := Attribute.printUnquoted name values
    parse (emptyElement "p".toList quoted) =
      emptyElementRead (emptyElement "p".toList quoted) "p".toList
        [.named (Text.spanAt 3 quoted) name
          (WrittenFragment.placeAll (3 + Text.bytes name + 2) values)] [] ∧
    ((∀ inner others, values = .expression inner :: others → others = []) →
      parse (emptyElement "p".toList unquoted) =
        emptyElementRead (emptyElement "p".toList unquoted) "p".toList
          [.named (Text.spanAt 3 unquoted) name
            (WrittenFragment.placeAll (3 + Text.bytes name + 1) values)] []) ∧
    (∀ inner others, values = .expression inner :: others →
      ∃ more errors, parse (emptyElement "p".toList unquoted) =
        emptyElementRead (emptyElement "p".toList unquoted) "p".toList
          (.named (Text.spanAt 3 (WrittenAttribute.braced name inner).print) name
            [(WrittenFragment.expression inner).place (3 + Text.bytes name + 1)] :: more)
          errors) := by
  refine ⟨parse_quotedValue hname h hne, fun halone => ?_, ?_⟩
  · obtain ⟨first, others, rfl⟩ := List.exists_cons_of_ne_nil hne
    cases first with
    | text raw => exact parse_unquotedValue hname h
    | expression inner =>
      obtain rfl := halone inner others rfl
      obtain ⟨more, errors, hread, hnone⟩ := parse_leadingExpression hname h
      obtain ⟨rfl, rfl⟩ := hnone rfl
      have hprint : (WrittenAttribute.braced name inner).print =
          Attribute.printUnquoted name [.expression inner] := by
        simp [Attribute.printUnquoted, WrittenFragment.printAll, WrittenAttribute.print]
      rw [hprint] at hread
      exact hread
  · rintro inner others rfl
    obtain ⟨more, errors, hread, -⟩ := parse_leadingExpression hname h
    exact ⟨more, errors, hread⟩

/-- A link whose address has a part that is computed. -/
def address : List WrittenFragment := [.text "/docs/".toList, .expression "page".toList]

theorem parse_attributeValue_address :
    (IsName "href".toList ∧ WrittenFragment.Unquoted address ∧ address ≠ []) ∧
      parse "<p href=\"/docs/\x7bpage\x7d\"></p>".toList =
        ⟨⟨⟨0, 27⟩, [.element ⟨0, 27⟩ "p".toList [.named ⟨3, 22⟩ "href".toList
          [.text ⟨9, 15⟩ "/docs/".toList, .expression ⟨15, 21⟩ ⟨16, 20⟩]] false []], [], []⟩, []⟩ ∧
      parse "<p href=/docs/\x7bpage\x7d></p>".toList =
        ⟨⟨⟨0, 25⟩, [.element ⟨0, 25⟩ "p".toList [.named ⟨3, 20⟩ "href".toList
          [.text ⟨8, 14⟩ "/docs/".toList, .expression ⟨14, 20⟩ ⟨15, 19⟩]] false []], [], []⟩, []⟩ := by
  have hname : IsName "href".toList := ⟨by decide, List.all_eq_true.mp (by decide)⟩
  have hvalues : WrittenFragment.Unquoted address := by
    refine ⟨?_, .cons_cons rfl (.singleton _), nofun⟩
    refine List.forall_mem_cons.mpr ⟨⟨by decide, ?_⟩, List.forall_mem_singleton.mpr ?_⟩
    · unfold IsValueChar
      exact List.all_iff_forall_prop.mp (by decide)
    · exact Balanced.of_forall (List.all_iff_forall_prop.mp (by decide))
  have hne : address ≠ [] := List.cons_ne_nil _ _
  obtain ⟨hquoted, hunquoted, -⟩ := parse_attributeValue hname hvalues hne
  exact ⟨⟨hname, hvalues, hne⟩, hquoted, hunquoted nofun⟩

/-- Without quotes, a text behind an expression is another attribute. -/
theorem leadingExpression_ends_value :
    (IsName "a".toList ∧
      WrittenFragment.Unquoted [.expression "x".toList, .text "b".toList]) ∧
      emptyElement "p".toList
        (Attribute.printUnquoted "a".toList [.expression "x".toList, .text "b".toList]) =
          "<p a=\x7bx\x7db></p>".toList ∧
      parse "<p a=\x7bx\x7db></p>".toList =
        emptyElementRead "<p a=\x7bx\x7db></p>".toList "p".toList
          [.named ⟨3, 8⟩ "a".toList [.expression ⟨5, 8⟩ ⟨6, 7⟩], .named ⟨8, 9⟩ "b".toList []] [] ∧
      parse "<p a=\x7bx\x7db></p>".toList ≠
        emptyElementRead "<p a=\x7bx\x7db></p>".toList "p".toList
          [.named ⟨3, 9⟩ "a".toList
            (WrittenFragment.placeAll 5 [.expression "x".toList, .text "b".toList])] [] := by
  have hread : parse "<p a=\x7bx\x7db></p>".toList =
      emptyElementRead "<p a=\x7bx\x7db></p>".toList "p".toList
        [.named ⟨3, 8⟩ "a".toList [.expression ⟨5, 8⟩ ⟨6, 7⟩], .named ⟨8, 9⟩ "b".toList []] [] :=
    @parse_paragraph "a=\x7bx\x7db".toList _ rfl rfl
  have hvalues : WrittenFragment.Unquoted [.expression "x".toList, .text "b".toList] := by
    refine ⟨?_, .cons_cons rfl (.singleton _), ?_⟩
    · refine List.forall_mem_cons.mpr
        ⟨Balanced.of_forall (List.all_iff_forall_prop.mp (by decide)), ?_⟩
      refine List.forall_mem_singleton.mpr ⟨by decide, ?_⟩
      unfold IsValueChar
      exact List.all_iff_forall_prop.mp (by decide)
    · rintro raw ⟨⟩
      decide
  refine ⟨⟨⟨by decide, List.all_eq_true.mp (by decide)⟩, hvalues⟩, rfl, hread, ?_⟩
  rw [hread]
  simp [emptyElementRead]

end Paragraph

end TypedComponent.Markup
