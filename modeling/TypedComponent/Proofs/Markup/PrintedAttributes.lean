import TypedComponent.Proofs.Markup.Printing
import TypedComponent.Proofs.Markup.Steps

/-!
Attributes are read as they are written. Each reader meets the text that was
printed for it with anything behind it, and stops where that text ends.
-/

namespace TypedComponent

namespace Cursor

variable {offset : Nat} {p : Char → Bool} {run rest : Text}

/-- A run that something else ends is taken as a whole. -/
theorem takeWhile_run (hrun : ∀ c ∈ run, p c = true) (hstop : ∀ c ∈ rest.head?, p c = false) :
    takeWhile ⟨offset, run ++ rest⟩ p = (run, ⟨offset + Text.bytes run, rest⟩) := by
  have htake : rest.takeWhile p = [] ∧ rest.dropWhile p = rest := by
    cases rest with
    | nil => exact ⟨rfl, rfl⟩
    | cons c rest => simp [hstop c rfl]
  simp only [takeWhile, past, List.takeWhile_append_of_pos hrun,
    List.dropWhile_append_of_pos hrun, htake, List.append_nil]

theorem skipWhile_run (hrun : ∀ c ∈ run, p c = true) (hstop : ∀ c ∈ rest.head?, p c = false) :
    skipWhile ⟨offset, run ++ rest⟩ p = ⟨offset + Text.bytes run, rest⟩ := by
  rw [skipWhile, takeWhile_run hrun hstop]

theorem skipWhile_none (hstop : ∀ c ∈ rest.head?, p c = false) :
    skipWhile ⟨offset, rest⟩ p = ⟨offset, rest⟩ :=
  skipWhile_run (List.forall_mem_nil _) hstop

end Cursor

namespace Markup

variable {offset : Nat} {rest : Text}

theorem leading_nameChar {c : Char} (h : isNameChar c = true) :
    TokenKind.leading (c :: rest) = (.name, 0) := by
  unfold TokenKind.leading
  split <;> simp_all [isNameChar]

theorem leading_opensBrace (text : Text) :
    (TokenKind.leading ('\x7b' :: text)).1.opensBrace = true := by
  have hbrace : (Cursor.ofText ('\x7b' :: text)).rest = '\x7b' :: text := rfl
  exact (readHere_brace hbrace).1

theorem not_isSeparator_of_isNameChar {c : Char} (h : isNameChar c = true) :
    isSeparator c = false := by
  rw [← Bool.not_eq_true]
  intro hc
  rw [isNameChar_of_isSeparator hc] at h
  cases h

namespace Fragment

theorem textBetween_run {run : Text} :
    textBetween ⟨offset, run ++ rest⟩ ⟨offset + Text.bytes run, rest⟩ =
      if run.isEmpty then [] else [.text (Text.spanAt offset run) run] := by
  unfold textBetween
  cases run with
  | nil => simp
  | cons c run =>
    have hpos := c.utf8Size_pos
    have hne : ¬ offset = offset + Text.bytes (c :: run) := by
      rw [Text.bytes_cons]
      omega
    have htext : Cursor.textTo ⟨offset, c :: run ++ rest⟩
        ⟨offset + Text.bytes (c :: run), rest⟩ = c :: run := Cursor.Reaches.textTo_eq rfl rfl
    rw [if_neg hne, htext]
    rfl

theorem bytes_print_expression (inner : Text) :
    Text.bytes (WrittenFragment.expression inner).print = 1 + Text.bytes inner + 1 := by
  rw [WrittenFragment.print, Text.bytes_append]
  rfl

theorem readExpression_written {inner : Text} (h : Balanced .code inner) :
    readExpression ⟨offset, (WrittenFragment.expression inner).print ++ rest⟩ =
      ⟨some (Text.spanAt offset (WrittenFragment.expression inner).print,
          Text.spanAt (offset + 1) inner), [],
        ⟨offset + Text.bytes (WrittenFragment.expression inner).print, rest⟩⟩ := by
  have hprint : (WrittenFragment.expression inner).print ++ rest =
      '\x7b' :: inner ++ '\x7d' :: rest := by simp [WrittenFragment.print]
  rw [hprint, readExpression_balanced h]
  simp only [Text.spanAt, bytes_print_expression, Nat.add_assoc]

theorem readQuotedWithin_expression {quote : Char} (hquote : quote ≠ '\x7b') {steps : Nat}
    {cursor mark after : Cursor} {text : Text} {span inner : Span}
    (hmark : (cursor.skipWhile fun c => c != quote && c != '\x7b') = mark)
    (hbrace : mark.rest = '\x7b' :: text)
    (hexpression : readExpression mark = ⟨some (span, inner), [], after⟩) :
    readQuotedWithin quote (steps + 1) cursor =
      ⟨textBetween cursor mark ++ .expression span inner ::
          (readQuotedWithin quote steps after).value,
        (readQuotedWithin quote steps after).errors,
        (readQuotedWithin quote steps after).cursor⟩ := by
  rw [readQuotedWithin, hmark]
  dsimp only
  rw [hbrace]
  dsimp only
  rw [if_neg hquote.symm, hexpression]
  rfl

/-- A value in quotes is read from a place in its leading text on. -/
theorem readQuotedWithin_written {quote : Char} (hquote : quote ≠ '\x7b') {raw : Text}
    (hraw : ∀ c ∈ raw, c ≠ quote ∧ c ≠ '\x7b') {values : List WrittenFragment}
    (hfollow : raw ≠ [] → ∀ first ∈ values.head?, first.isText = false)
    (hvalues : ∀ value ∈ values, value.WellFormed quote)
    (hchain : values.IsChain WrittenFragment.CanFollow) {steps : Nat}
    (hsteps : (WrittenFragment.printAll values).length < steps) :
    readQuotedWithin quote steps
        ⟨offset, raw ++ (WrittenFragment.printAll values ++ quote :: rest)⟩ =
      ⟨(if raw.isEmpty then [] else [.text (Text.spanAt offset raw) raw]) ++
          WrittenFragment.placeAll (offset + Text.bytes raw) values, [],
        ⟨offset + Text.bytes raw + Text.bytes (WrittenFragment.printAll values) + quote.utf8Size,
          rest⟩⟩ := by
  induction values generalizing offset raw steps with
  | nil =>
    obtain ⟨more, rfl⟩ : ∃ more, steps = more + 1 := ⟨steps - 1, by omega⟩
    have hmark : (⟨offset, raw ++ quote :: rest⟩ : Cursor).skipWhile
        (fun c => c != quote && c != '\x7b') = ⟨offset + Text.bytes raw, quote :: rest⟩ := by
      apply Cursor.skipWhile_run (by simpa using hraw)
      rintro c ⟨⟩
      simp
    have hprint : WrittenFragment.printAll [] ++ quote :: rest = quote :: rest := rfl
    rw [hprint, readQuotedWithin]
    dsimp only
    rw [hmark]
    dsimp only
    rw [if_pos rfl, textBetween_run, WrittenFragment.placeAll, List.append_nil]
    rfl
  | cons first others ih =>
    obtain ⟨hfirst, hothers⟩ := List.forall_mem_cons.mp hvalues
    have hrest := List.IsChain.of_cons hchain
    cases first with
    | text more =>
      have hnil : raw = [] := by
        by_contra hne
        exact absurd (hfollow hne _ rfl) (by simp [WrittenFragment.isText])
      subst hnil
      have hfree : more ≠ [] → ∀ next ∈ others.head?, next.isText = false := by
        rintro - next hnext
        cases others with
        | nil => cases hnext
        | cons second others =>
          cases hnext
          exact (List.isChain_cons_cons.mp hchain).1
      have hprint : WrittenFragment.printAll (.text more :: others) =
          more ++ WrittenFragment.printAll others := rfl
      rw [hprint] at hsteps ⊢
      rw [List.length_append] at hsteps
      rw [List.nil_append, List.append_assoc, ih hfirst.2 hfree hothers hrest (by omega)]
      have hsome : more.isEmpty = false := List.isEmpty_eq_false_iff.mpr hfirst.1
      simp [hsome, WrittenFragment.placeAll, WrittenFragment.place, WrittenFragment.print,
        Nat.add_assoc]
    | expression inner =>
      have hprint : WrittenFragment.printAll (.expression inner :: others) =
          (WrittenFragment.expression inner).print ++ WrittenFragment.printAll others := rfl
      rw [hprint] at hsteps ⊢
      rw [List.length_append] at hsteps
      obtain ⟨steps, rfl⟩ : ∃ more, steps = more + 1 := ⟨steps - 1, by omega⟩
      have hmark : (⟨offset, raw ++ ((WrittenFragment.expression inner).print ++
            (WrittenFragment.printAll others ++ quote :: rest))⟩ : Cursor).skipWhile
          (fun c => c != quote && c != '\x7b') = ⟨offset + Text.bytes raw,
            (WrittenFragment.expression inner).print ++
              (WrittenFragment.printAll others ++ quote :: rest)⟩ := by
        apply Cursor.skipWhile_run (by simpa using hraw)
        rintro c ⟨⟩
        simp
      have hlength : (WrittenFragment.printAll others).length < steps := by
        simp only [WrittenFragment.print, List.length_append, List.length_cons] at hsteps
        omega
      have hmore (place : Nat) : readQuotedWithin quote steps
          ⟨place, WrittenFragment.printAll others ++ quote :: rest⟩ =
            ⟨WrittenFragment.placeAll place others, [],
              ⟨place + Text.bytes (WrittenFragment.printAll others) + quote.utf8Size, rest⟩⟩ :=
        ih (List.forall_mem_nil _) (fun hne => absurd rfl hne) hothers hrest hlength
      rw [List.append_assoc, readQuotedWithin_expression hquote hmark rfl
        (readExpression_written hfirst), textBetween_run, hmore, Text.bytes_append]
      simp only [WrittenFragment.placeAll, WrittenFragment.place, Nat.add_assoc]

theorem readQuoted_written {quote : Char} (hquote : quote ≠ '\x7b')
    {values : List WrittenFragment} (hvalues : ∀ value ∈ values, value.WellFormed quote)
    (hchain : values.IsChain WrittenFragment.CanFollow) :
    readQuoted quote ⟨offset, WrittenFragment.printAll values ++ quote :: rest⟩ =
      ⟨WrittenFragment.placeQuoted offset values, [],
        ⟨offset + Text.bytes (WrittenFragment.printAll values) + quote.utf8Size, rest⟩⟩ := by
  have hsteps : (WrittenFragment.printAll values).length <
      (WrittenFragment.printAll values ++ quote :: rest).length + 1 := by
    rw [List.length_append]
    omega
  have hwithin : readQuotedWithin quote
      ((WrittenFragment.printAll values ++ quote :: rest).length + 1)
      ⟨offset, WrittenFragment.printAll values ++ quote :: rest⟩ =
        ⟨WrittenFragment.placeAll offset values, [],
          ⟨offset + Text.bytes (WrittenFragment.printAll values) + quote.utf8Size, rest⟩⟩ :=
    readQuotedWithin_written hquote (List.forall_mem_nil _) (fun hne => absurd rfl hne) hvalues
      hchain hsteps
  unfold readQuoted
  dsimp only
  rw [hwithin]
  cases values <;> rfl

/-- The value of an attribute, from behind the equals sign on. -/
theorem readValue_quoted {quote : Char} (hquote : quote = '"' ∨ quote = '\'')
    {values : List WrittenFragment} (hvalues : ∀ value ∈ values, value.WellFormed quote)
    (hchain : values.IsChain WrittenFragment.CanFollow) :
    readValue ⟨offset, quote :: WrittenFragment.printAll values ++ quote :: rest⟩ =
      ⟨WrittenFragment.placeQuoted (offset + 1) values, [],
        ⟨offset + 1 + Text.bytes (WrittenFragment.printAll values) + 1, rest⟩⟩ := by
  rcases hquote with rfl | rfl
  all_goals exact readQuoted_written (by decide) hvalues hchain

theorem readValue_braced {inner : Text} (h : Balanced .code inner) :
    readValue ⟨offset, (WrittenFragment.expression inner).print ++ rest⟩ =
      ⟨[(WrittenFragment.expression inner).place offset], [],
        ⟨offset + Text.bytes (WrittenFragment.expression inner).print, rest⟩⟩ := by
  have hstart : (⟨offset, (WrittenFragment.expression inner).print ++ rest⟩ : Cursor).skipWhile
      isSeparator = ⟨offset, (WrittenFragment.expression inner).print ++ rest⟩ := rfl
  have hopens : (Token.readHere ⟨offset, (WrittenFragment.expression inner).print ++
      rest⟩).1.kind.opensBrace = true := leading_opensBrace _
  unfold readValue
  dsimp only
  rw [hstart]
  split
  case h_6 =>
    rw [if_pos hopens, readExpression_written h]
    rfl
  all_goals
    next hother =>
      rw [hother] at hopens
      cases hopens

end Fragment

namespace Attribute

/-- What can follow the name of an attribute without a value. -/
def EndsName (text : Text) : Prop :=
  (∀ c ∈ text.head?, isNameChar c = false) ∧
    ∀ offset, (Token.read ⟨offset, text⟩).1.kind ≠ .equals

theorem readNamed_bare {name : Text} (hname : IsName name) (hrest : EndsName rest) :
    readNamed ⟨offset, name ++ rest⟩ =
      ⟨(WrittenAttribute.bare name).place offset, [], ⟨offset + Text.bytes name, rest⟩⟩ := by
  unfold readNamed
  rw [Cursor.takeWhile_run hname.2 hrest.1]
  dsimp only
  rw [if_neg (hrest.2 _)]
  rfl

/-- The name of an attribute with a value, which begins behind the equals sign. -/
theorem readNamed_equals {name value : Text} (hname : IsName name) {values : List Fragment}
    {after : Cursor}
    (hvalue : Fragment.readValue ⟨offset + Text.bytes name + 1, value⟩ = ⟨values, [], after⟩) :
    readNamed ⟨offset, name ++ '=' :: value⟩ =
      ⟨.named ⟨offset, after.offset⟩ name values, [], after⟩ := by
  have hstop : ∀ c ∈ ('=' :: value).head?, isNameChar c = false := by
    rintro c ⟨⟩
    decide
  have hequals : Token.read ⟨offset + Text.bytes name, '=' :: value⟩ =
      (⟨.equals, ⟨offset + Text.bytes name, offset + Text.bytes name + 1⟩⟩,
        ⟨offset + Text.bytes name + 1, value⟩) := rfl
  unfold readNamed
  rw [Cursor.takeWhile_run hname.2 hstop]
  dsimp only
  rw [hequals, if_pos rfl, hvalue]
  rfl

theorem readNamed_quoted {name : Text} {quote : Char} {values : List WrittenFragment}
    (h : (WrittenAttribute.quoted name quote values).WellFormed) :
    readNamed ⟨offset, (WrittenAttribute.quoted name quote values).print ++ rest⟩ =
      ⟨(WrittenAttribute.quoted name quote values).place offset, [],
        ⟨offset + Text.bytes (WrittenAttribute.quoted name quote values).print, rest⟩⟩ := by
  obtain ⟨hname, hquote, hvalues, hchain⟩ := h
  have hsize : '='.utf8Size = 1 ∧ quote.utf8Size = 1 := by
    rcases hquote with rfl | rfl <;> exact ⟨rfl, rfl⟩
  have hprint : (WrittenAttribute.quoted name quote values).print ++ rest =
      name ++ '=' :: (quote :: WrittenFragment.printAll values ++ quote :: rest) := by
    simp [WrittenAttribute.print]
  have hbytes : Text.bytes (WrittenAttribute.quoted name quote values).print =
      Text.bytes name + 1 + 1 + Text.bytes (WrittenFragment.printAll values) + 1 := by
    simp only [WrittenAttribute.print, Text.bytes_append, Text.bytes_cons, Text.bytes_nil, hsize]
    omega
  rw [hprint, readNamed_equals hname (Fragment.readValue_quoted hquote hvalues hchain),
    WrittenAttribute.place, Text.spanAt, hbytes]
  simp only [Nat.add_assoc]

theorem readNamed_braced {name inner : Text}
    (h : (WrittenAttribute.braced name inner).WellFormed) :
    readNamed ⟨offset, (WrittenAttribute.braced name inner).print ++ rest⟩ =
      ⟨(WrittenAttribute.braced name inner).place offset, [],
        ⟨offset + Text.bytes (WrittenAttribute.braced name inner).print, rest⟩⟩ := by
  obtain ⟨hname, hinner⟩ := h
  have hprint : (WrittenAttribute.braced name inner).print ++ rest =
      name ++ '=' :: ((WrittenFragment.expression inner).print ++ rest) := by
    simp [WrittenAttribute.print]
  have hbytes : Text.bytes (WrittenAttribute.braced name inner).print =
      Text.bytes name + 1 + Text.bytes (WrittenFragment.expression inner).print := by
    rw [WrittenAttribute.print, Text.bytes_append, Text.bytes_cons, ← Nat.add_assoc]
    rfl
  rw [hprint, readNamed_equals hname (Fragment.readValue_braced hinner), WrittenAttribute.place,
    Text.spanAt, hbytes]
  simp only [Nat.add_assoc]

theorem readBraced_expression {inner : Text} (h : Balanced .code inner) {found : Attribute}
    (hfound : ofExpression inner (Text.spanAt offset (WrittenFragment.expression inner).print)
      (Text.spanAt (offset + 1) inner) = .ok found) :
    readBraced ⟨offset, (WrittenFragment.expression inner).print ++ rest⟩ =
      ⟨some found, [], ⟨offset + Text.bytes (WrittenFragment.expression inner).print, rest⟩⟩ := by
  have hsource : Text.takeBytes (Cursor.next ⟨offset, (WrittenFragment.expression inner).print ++
      rest⟩).rest (Text.spanAt (offset + 1) inner).length = inner := by
    have hnext : (Cursor.next ⟨offset, (WrittenFragment.expression inner).print ++ rest⟩).rest =
        inner ++ ('\x7d' :: rest) := by simp [WrittenFragment.print, Cursor.next]
    have hlength : (Text.spanAt (offset + 1) inner).length = Text.bytes inner := by
      simp [Text.spanAt, Span.length]
    rw [hnext, hlength, Text.takeBytes_append]
  unfold readBraced
  rw [Fragment.readExpression_written h]
  dsimp only
  rw [hsource, hfound]

theorem readBraced_shorthand {inner : Text}
    (h : (WrittenAttribute.shorthand inner).WellFormed) :
    readBraced ⟨offset, (WrittenAttribute.shorthand inner).print ++ rest⟩ =
      ⟨some ((WrittenAttribute.shorthand inner).place offset), [],
        ⟨offset + Text.bytes (WrittenAttribute.shorthand inner).print, rest⟩⟩ := by
  obtain ⟨hinner, hname, hdots⟩ := h
  apply readBraced_expression hinner
  unfold ofExpression
  dsimp only
  rw [hdots]
  dsimp only
  split
  · next hempty => exact absurd hempty hname
  · rfl

theorem readBraced_spread {inner : Text} (h : (WrittenAttribute.spread inner).WellFormed) :
    readBraced ⟨offset, (WrittenAttribute.spread inner).print ++ rest⟩ =
      ⟨some ((WrittenAttribute.spread inner).place offset), [],
        ⟨offset + Text.bytes (WrittenAttribute.spread inner).print, rest⟩⟩ := by
  have hdot : ∀ {text : Text}, Balanced .code text → Balanced .code ('.' :: text) := fun h =>
    h.plain (by decide) (fun hc => nomatch hc)
  have hdots : Balanced .code ("...".toList ++ inner) := hdot (hdot (hdot h))
  apply readBraced_expression hdots
  have hafter : Text.after? "...".toList (Text.trimStart ("...".toList ++ inner)) = some inner := rfl
  have hbytes : Text.bytes ("...".toList ++ inner) = 3 + Text.bytes inner := by
    rw [Text.bytes_append]
    rfl
  unfold ofExpression
  dsimp only
  rw [hafter]
  simp only [WrittenAttribute.place, WrittenAttribute.print, Text.spanAt, hbytes,
    Except.ok.injEq, Attribute.spread.injEq, Span.mk.injEq, true_and]
  omega

/-- How an attribute is read, by the sign that it begins with. -/
theorem readListWithin_named {steps : Nat} {cursor start : Cursor} {c : Char} {text : Text}
    (hstart : cursor.skipWhile isSeparator = start) (hrest : start.rest = c :: text)
    (hc : isNameChar c = true) :
    readListWithin (steps + 1) cursor =
      ⟨(readNamed start).value :: (readListWithin steps (readNamed start).cursor).value,
        (readNamed start).errors ++ (readListWithin steps (readNamed start).cursor).errors,
        (readListWithin steps (readNamed start).cursor).cursor⟩ := by
  have hkind : (Token.readHere start).1.kind = .name := by
    rw [readHere_kind, hrest, leading_nameChar hc]
  rw [readListWithin, hstart]
  dsimp only
  rw [hkind]

theorem readListWithin_braced {steps : Nat} {cursor start : Cursor}
    (hstart : cursor.skipWhile isSeparator = start)
    (hopens : (Token.readHere start).1.kind.opensBrace = true) :
    readListWithin (steps + 1) cursor =
      ⟨(readBraced start).value.toList ++ (readListWithin steps (readBraced start).cursor).value,
        (readBraced start).errors ++ (readListWithin steps (readBraced start).cursor).errors,
        (readListWithin steps (readBraced start).cursor).cursor⟩ := by
  rw [readListWithin, hstart]
  dsimp only
  split
  case h_5 => rw [if_pos hopens]
  all_goals
    next hother =>
      rw [hother] at hopens
      cases hopens

theorem isName_head {name : Text} (h : IsName name) (text : Text) :
    ∃ c more, name ++ text = c :: more ∧ isNameChar c = true := by
  obtain ⟨hne, hchars⟩ := h
  cases name with
  | nil => exact absurd rfl hne
  | cons c name => exact ⟨c, name ++ text, rfl, hchars c List.mem_cons_self⟩

/-- What an attribute with a name begins with. -/
theorem print_named {attr : WrittenAttribute} {name text : Text} (hname : IsName name)
    (hprint : attr.print = name ++ text) : ∃ c more, attr.print = c :: more ∧ isNameChar c = true := by
  rw [hprint]
  exact isName_head hname text

/-- An attribute begins with its name or a brace. -/
theorem print_head {attr : WrittenAttribute} (h : attr.WellFormed) :
    (∃ c text, attr.print = c :: text ∧ isNameChar c = true) ∨
      ∃ text, attr.print = '\x7b' :: text := by
  cases attr with
  | bare name => exact .inl (print_named h (List.append_nil _).symm)
  | quoted name quote values => exact .inl (print_named h.1 (List.append_assoc _ _ _))
  | braced name inner => exact .inl (print_named h.1 rfl)
  | shorthand inner => exact .inr ⟨_, rfl⟩
  | spread inner => exact .inr ⟨_, rfl⟩

/-- Only the space before an attribute is skipped. -/
theorem skipWhile_space {attr : WrittenAttribute} (h : attr.WellFormed) :
    (⟨offset, ' ' :: attr.print ++ rest⟩ : Cursor).skipWhile isSeparator =
      ⟨offset + 1, attr.print ++ rest⟩ := by
  have hstop : ∀ d ∈ (attr.print ++ rest).head?, isSeparator d = false := by
    intro d hd
    rcases print_head h with ⟨c, text, hprint, hc⟩ | ⟨text, hprint⟩
    · rw [hprint] at hd
      cases hd
      exact not_isSeparator_of_isNameChar hc
    · rw [hprint] at hd
      cases hd
      rfl
  have hspace : ∀ d ∈ [' '], isSeparator d = true := List.forall_mem_singleton.mpr rfl
  exact Cursor.skipWhile_run hspace hstop

/-- What ends an opening tag. -/
def EndsTag (ending : Text) : Prop := ending = ['>'] ∨ ending = ['/', '>']

theorem endsName_printAll {attributes : List WrittenAttribute}
    (h : ∀ attr ∈ attributes, attr.WellFormed) {ending : Text} (hending : EndsTag ending) :
    EndsName (WrittenAttribute.printAll attributes ++ (ending ++ rest)) := by
  cases attributes with
  | nil =>
    rcases hending with rfl | rfl
    · exact ⟨by rintro c ⟨⟩; rfl, fun _ => nofun⟩
    · exact ⟨by rintro c ⟨⟩; rfl, fun _ => nofun⟩
  | cons first others =>
    have hall : WrittenAttribute.printAll (first :: others) ++ (ending ++ rest) =
        ' ' :: first.print ++ (WrittenAttribute.printAll others ++ (ending ++ rest)) := by
      simp [WrittenAttribute.printAll]
    have hfirst := h first List.mem_cons_self
    rw [hall]
    refine ⟨by rintro d ⟨⟩; rfl, fun place hequals => ?_⟩
    rw [Token.read, skipWhile_space hfirst, readHere_kind] at hequals
    rcases print_head hfirst with ⟨c, text, hprint, hc⟩ | ⟨text, hprint⟩
    · rw [hprint, List.cons_append, leading_nameChar hc] at hequals
      cases hequals
    · have hopens := leading_opensBrace (text ++ (WrittenAttribute.printAll others ++
        (ending ++ rest)))
      rw [hprint, List.cons_append] at hequals
      rw [hequals] at hopens
      cases hopens

theorem readListWithin_end {ending : Text} (hending : EndsTag ending) {steps : Nat}
    (hsteps : 0 < steps) :
    readListWithin steps ⟨offset, ending ++ rest⟩ = ⟨[], [], ⟨offset, ending ++ rest⟩⟩ := by
  obtain ⟨steps, rfl⟩ : ∃ more, steps = more + 1 := ⟨steps - 1, by omega⟩
  rcases hending with rfl | rfl <;> rfl

/-- A list of attributes begins with what is read first. -/
theorem readListWithin_head {attr : WrittenAttribute} (h : attr.WellFormed)
    {found : Attribute} {after : Cursor} (steps : Nat)
    (hread : ((∃ c text, attr.print = c :: text ∧ isNameChar c = true) ∧
        readNamed ⟨offset + 1, attr.print ++ rest⟩ = ⟨found, [], after⟩) ∨
      ((∃ text, attr.print = '\x7b' :: text) ∧
        readBraced ⟨offset + 1, attr.print ++ rest⟩ = ⟨some found, [], after⟩)) :
    readListWithin (steps + 1) ⟨offset, ' ' :: attr.print ++ rest⟩ =
      ⟨found :: (readListWithin steps after).value, (readListWithin steps after).errors,
        (readListWithin steps after).cursor⟩ := by
  rcases hread with ⟨⟨c, text, hprint, hc⟩, hnamed⟩ | ⟨⟨text, hprint⟩, hbraced⟩
  · rw [readListWithin_named (skipWhile_space h) (by rw [hprint]; rfl) hc, hnamed]
    rfl
  · have hopens : (Token.readHere ⟨offset + 1, attr.print ++ rest⟩).1.kind.opensBrace = true := by
      rw [readHere_kind, hprint]
      exact leading_opensBrace _
    rw [readListWithin_braced (skipWhile_space h) hopens, hbraced]
    rfl

/-- An attribute is read up to what follows it. -/
theorem readListWithin_cons {attr : WrittenAttribute} (h : attr.WellFormed)
    (hrest : EndsName rest) (steps : Nat) :
    readListWithin (steps + 1) ⟨offset, ' ' :: attr.print ++ rest⟩ =
      ⟨attr.place (offset + 1) ::
          (readListWithin steps ⟨offset + 1 + Text.bytes attr.print, rest⟩).value,
        (readListWithin steps ⟨offset + 1 + Text.bytes attr.print, rest⟩).errors,
        (readListWithin steps ⟨offset + 1 + Text.bytes attr.print, rest⟩).cursor⟩ := by
  apply readListWithin_head h steps
  cases attr with
  | bare name => exact .inl ⟨print_named h (List.append_nil _).symm, readNamed_bare h hrest⟩
  | quoted name quote values =>
    exact .inl ⟨print_named h.1 (List.append_assoc _ _ _), readNamed_quoted h⟩
  | braced name inner => exact .inl ⟨print_named h.1 rfl, readNamed_braced h⟩
  | shorthand inner => exact .inr ⟨⟨_, rfl⟩, readBraced_shorthand h⟩
  | spread inner => exact .inr ⟨⟨_, rfl⟩, readBraced_spread h⟩

/-- The attributes of a tag are read up to its end. -/
theorem readListWithin_written {attributes : List WrittenAttribute}
    (h : ∀ attr ∈ attributes, attr.WellFormed) {ending : Text} (hending : EndsTag ending)
    {steps : Nat} (hsteps : attributes.length < steps) :
    readListWithin steps ⟨offset, WrittenAttribute.printAll attributes ++ (ending ++ rest)⟩ =
      ⟨WrittenAttribute.placeAll offset attributes, [],
        ⟨offset + Text.bytes (WrittenAttribute.printAll attributes), ending ++ rest⟩⟩ := by
  induction attributes generalizing offset steps with
  | nil => exact readListWithin_end hending hsteps
  | cons first others ih =>
    obtain ⟨hfirst, hothers⟩ := List.forall_mem_cons.mp h
    obtain ⟨steps, rfl⟩ : ∃ more, steps = more + 1 := ⟨steps - 1, by omega⟩
    have hall : WrittenAttribute.printAll (first :: others) ++ (ending ++ rest) =
        ' ' :: first.print ++ (WrittenAttribute.printAll others ++ (ending ++ rest)) := by
      simp [WrittenAttribute.printAll]
    have hbytes : Text.bytes (WrittenAttribute.printAll (first :: others)) =
        1 + Text.bytes first.print + Text.bytes (WrittenAttribute.printAll others) := by
      simp only [WrittenAttribute.printAll, List.flatMap_cons, Text.bytes_append, Text.bytes_cons]
      rfl
    have hlength : others.length < steps := Nat.lt_of_succ_lt_succ hsteps
    rw [hall, readListWithin_cons hfirst (endsName_printAll hothers hending), ih hothers hlength,
      hbytes]
    simp only [WrittenAttribute.placeAll, Nat.add_assoc]

theorem length_le_printAll (attributes : List WrittenAttribute) :
    attributes.length ≤ (WrittenAttribute.printAll attributes).length := by
  induction attributes with
  | nil => exact Nat.le_refl _
  | cons first others ih =>
    simp only [WrittenAttribute.printAll, List.flatMap_cons, List.length_append,
      List.length_cons] at ih ⊢
    omega

theorem readList_written {attributes : List WrittenAttribute}
    (h : ∀ attr ∈ attributes, attr.WellFormed) {ending : Text} (hending : EndsTag ending) :
    readList ⟨offset, WrittenAttribute.printAll attributes ++ (ending ++ rest)⟩ =
      ⟨WrittenAttribute.placeAll offset attributes, [],
        ⟨offset + Text.bytes (WrittenAttribute.printAll attributes), ending ++ rest⟩⟩ := by
  apply readListWithin_written h hending
  have hle := length_le_printAll attributes
  rw [List.length_append]
  omega

end Attribute

end Markup

end TypedComponent
