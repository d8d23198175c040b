import TypedComponent.Proofs.Markup.PrintedAttributes

/-!
What one step reads of markup as it is written: a text, a comment or an
expression as a whole, the opening tag of an element, the closing tag of the
innermost one, or a script or style element with its content.
-/

namespace TypedComponent

/-- A mark that no text before it contains is found, unless a part of the mark is
both at its beginning and at its end. -/
theorem Text.splitAt?_first {mark body rest : Text} (hmark : mark ≠ [])
    (habsent : ∀ a b, body ≠ a ++ mark ++ b)
    (hborder : ∀ s m, s ≠ [] → m ≠ [] → mark = s ++ m → ¬ m <+: mark) :
    Text.splitAt? mark (body ++ (mark ++ rest)) = some (body, mark ++ rest) := by
  induction body with
  | nil =>
    cases mark with
    | nil => exact absurd rfl hmark
    | cons c mark =>
      have hhere := startsWith_append (c :: mark) rest
      rw [List.cons_append] at hhere
      rw [List.nil_append, List.cons_append, splitAt?, if_pos hhere]
  | cons c body ih =>
    have hnot : ¬ startsWith (c :: (body ++ (mark ++ rest))) mark = true := by
      intro hhere
      obtain ⟨more, hmore⟩ := Option.isSome_iff_exists.mp hhere
      have hsplit : (c :: body) ++ (mark ++ rest) = mark ++ more := eq_append_of_after? hmore
      rcases List.append_eq_append_iff.mp hsplit with ⟨m, hpart, hrest⟩ | ⟨m, hpart, -⟩
      · cases m with
        | nil => exact habsent [] [] (by simpa using hpart.symm)
        | cons d m =>
          refine hborder (c :: body) (d :: m) (List.cons_ne_nil _ _) (List.cons_ne_nil _ _) hpart ?_
          refine List.prefix_of_prefix_length_le ⟨more, hrest.symm⟩ (List.prefix_append mark rest) ?_
          rw [hpart, List.length_append]
          omega
      · exact habsent [] m (by simpa using hpart)
    have hnext := ih fun a b hbody => habsent (c :: a) b (by rw [hbody]; rfl)
    rw [List.cons_append, splitAt?, if_neg hnot, hnext]
    rfl

namespace Markup

variable {offset : Nat} {rest : Text}

theorem IsTagName.isNameChar {name : Text} (h : IsTagName name) {c : Char} (hc : c ∈ name) :
    isNameChar c = true := by
  obtain ⟨first, others, rfl, hletter, hothers⟩ := h
  rcases List.mem_cons.mp hc with rfl | hother
  · exact isNameChar_of_isAsciiLetter hletter
  · exact hothers c hother

/-- A comment ends with the first sign that can end it, although dashes may
stand before that sign. -/
theorem find?_comment {body : Text} (h : ∀ a b, body ≠ a ++ "-->".toList ++ b) :
    Cursor.find? ⟨offset, body ++ ("-->".toList ++ rest)⟩ "-->".toList =
      some ⟨offset + Text.bytes body, "-->".toList ++ rest⟩ := by
  unfold Cursor.find?
  rw [Text.splitAt?_first (by decide) h]
  · rfl
  · intro s m hs hm hmark hprefix
    rcases s with _ | ⟨a, _ | ⟨b, _ | ⟨c, s⟩⟩⟩
    · exact hs rfl
    · obtain ⟨-, rfl⟩ := List.cons.inj hmark
      exact absurd hprefix (by decide)
    · obtain ⟨-, htail⟩ := List.cons.inj hmark
      obtain ⟨-, rfl⟩ := List.cons.inj htail
      exact absurd hprefix (by decide)
    · have hlength := congrArg List.length hmark
      have hpos := List.length_pos_of_ne_nil hm
      simp only [List.length_append, List.length_cons] at hlength
      have hthree : "-->".toList.length = 3 := rfl
      omega

/-- The sign of a closing tag stands nowhere in the name behind it. -/
theorem find?_closingTag {body name : Text} (hname : IsTagName name)
    (h : ∀ a b, body ≠ a ++ "</".toList ++ name ++ b) :
    Cursor.find? ⟨offset, body ++ ("</".toList ++ name ++ rest)⟩ ("</".toList ++ name) =
      some ⟨offset + Text.bytes body, "</".toList ++ name ++ rest⟩ := by
  have hmark : "</".toList ++ name ≠ [] := List.cons_ne_nil _ _
  unfold Cursor.find?
  rw [Text.splitAt?_first hmark]
  · rfl
  · simpa only [List.append_assoc] using h
  · intro s m hs hm hmark hprefix
    obtain ⟨c, s, rfl⟩ := List.exists_cons_of_ne_nil hs
    obtain ⟨d, m, rfl⟩ := List.exists_cons_of_ne_nil hm
    obtain ⟨more, hmore⟩ := hprefix
    have hsign : '<' :: '/' :: name = c :: s ++ d :: m := hmark
    have hd : d = '<' := (List.cons.inj hmore).1
    have hmem : '<' ∈ '/' :: name := by
      rw [(List.cons.inj hsign).2, hd]
      exact List.mem_append_right s List.mem_cons_self
    rcases List.mem_cons.mp hmem with hslash | hinName
    · exact absurd hslash (by decide)
    · exact absurd (hname.isNameChar hinName) (by decide)

theorem not_startsMarkup {c : Char} {raw : Text} (h : Written.IsPlain (c :: raw))
    (hrest : rest ≠ [] → startsMarkup rest = true) : startsMarkup (c :: raw ++ rest) = false := by
  obtain ⟨hbrace, hangle⟩ := h
  -- a sign that begins markup does not end with the text, since `rest` begins with another one
  have hnext : ∀ d text, c = '<' → raw ++ rest = d :: text →
      d ≠ '/' ∧ d ≠ '!' ∧ Text.isAsciiLetter d = false := by
    rintro d text rfl htext
    cases raw with
    | cons e raw =>
      obtain ⟨rfl, -⟩ := List.cons.inj htext
      exact hangle [] e raw rfl
    | nil =>
      obtain rfl : rest = d :: text := htext
      rcases startsMarkup_cases (hrest (List.cons_ne_nil _ _)) with
        ⟨_, hd⟩ | ⟨_, hd⟩ | ⟨_, _, hd, -⟩ | ⟨_, hd⟩
      all_goals
        cases hd
        decide
  rw [← Bool.not_eq_true]
  intro hstarts
  rcases startsMarkup_cases hstarts with ⟨text, hd⟩ | ⟨text, hd⟩ | ⟨d, text, hd, hletter⟩ | ⟨text, hd⟩
  · obtain ⟨rfl, htext⟩ := List.cons.inj hd
    exact (hnext _ _ rfl htext).1 rfl
  · obtain ⟨rfl, htext⟩ := List.cons.inj hd
    exact (hnext _ _ rfl htext).2.1 rfl
  · obtain ⟨rfl, htext⟩ := List.cons.inj hd
    exact absurd hletter (by rw [(hnext _ _ rfl htext).2.2]; decide)
  · obtain ⟨rfl, -⟩ := List.cons.inj hd
    exact hbrace List.mem_cons_self

theorem Written.IsPlain.tail {c : Char} {raw : Text} (h : Written.IsPlain (c :: raw)) :
    Written.IsPlain raw :=
  ⟨fun hmem => h.1 (List.mem_cons_of_mem c hmem),
    fun a d b hraw => h.2 (c :: a) d b (congrArg (c :: ·) hraw)⟩

/-- A text is passed up to the markup behind it. -/
theorem nextMarkup_plain {raw : Text} (h : Written.IsPlain raw)
    (hrest : rest ≠ [] → startsMarkup rest = true) :
    nextMarkup offset (raw ++ rest) = ⟨offset + Text.bytes raw, rest⟩ := by
  induction raw generalizing offset with
  | nil =>
    cases rest with
    | nil => rfl
    | cons d rest =>
      rw [List.nil_append, nextMarkup, if_pos (hrest (List.cons_ne_nil _ _))]
      rfl
  | cons c raw ih =>
    have hnot : ¬ startsMarkup (c :: (raw ++ rest)) = true :=
      Bool.eq_false_iff.mp (not_startsMarkup h hrest)
    rw [List.cons_append, nextMarkup, if_neg hnot, ih (h.tail), Nat.add_assoc]
    rfl

namespace Outline

variable {outline : Outline}

/-- The outline with a written part as a node, and what stands behind the part
still to be read. -/
def put (outline : Outline) (offset : Nat) (item : Written) (rest : Text) : Outline :=
  (outline.advance [] ⟨offset + Text.bytes item.print, rest⟩).add (item.place offset)

theorem step_text {raw : Text} (h : (Written.text raw).WellFormed)
    (hrest : rest ≠ [] → startsMarkup rest = true)
    (hcursor : outline.cursor = ⟨offset, (Written.text raw).print ++ rest⟩) :
    outline.step = outline.put offset (.text raw) rest := by
  obtain ⟨hne, hplain⟩ := h
  obtain ⟨c, raw, rfl⟩ := List.exists_cons_of_ne_nil hne
  have hnot := not_startsMarkup hplain hrest
  have hstop : nextMarkup (offset + c.utf8Size) (raw ++ rest) =
      ⟨offset + Text.bytes (c :: raw), rest⟩ := by
    rw [nextMarkup_plain (hplain.tail) hrest, Nat.add_assoc]
    rfl
  have htext : Cursor.textTo ⟨offset, c :: raw ++ rest⟩ ⟨offset + Text.bytes (c :: raw), rest⟩ =
      c :: raw := Cursor.Reaches.textTo_eq rfl rfl
  have hread : outline.readText = outline.put offset (.text (c :: raw)) rest := by
    unfold readText
    rw [hcursor]
    simp only [Cursor.next, Written.print, List.cons_append, hstop]
    rw [← List.cons_append, htext]
    rfl
  unfold step
  rw [hcursor]
  dsimp only [Written.print, List.cons_append] at hnot ⊢
  rw [hnot, ← hread]
  rfl

theorem step_comment {body : Text} (h : (Written.comment body).WellFormed)
    (hcursor : outline.cursor = ⟨offset, (Written.comment body).print ++ rest⟩) :
    outline.step = outline.put offset (.comment body) rest := by
  have hprint : (Written.comment body).print ++ rest =
      '<' :: '!' :: '-' :: '-' :: (body ++ ("-->".toList ++ rest)) := by
    simp [Written.print]
  have hread : outline.step =
      outline.readComment ⟨offset + 4, body ++ ("-->".toList ++ rest)⟩ "-->".toList := by
    unfold step
    rw [hcursor, hprint]
    rfl
  have hbytes : Text.bytes (Written.comment body).print = 4 + Text.bytes body + 3 := by
    simp only [Written.print, Text.bytes_append]
    rfl
  rw [hread, readComment, find?_comment h, hcursor]
  unfold put
  rw [hbytes, Written.place, Text.spanAt, hbytes]
  simp only [Cursor.upTo, Nat.add_assoc]
  rfl

/-- With its sign, an expression is still balanced. -/
theorem balanced_sign {kind : MustacheKind} {inner : Text} (h : Balanced .code inner)
    (hfits : kind.Fits inner) : Balanced .code (kind.sign ++ inner) := by
  cases kind with
  | expression => exact h
  | blockOpen => exact h.plain (by decide) nofun
  | blockContinue => exact h.plain (by decide) nofun
  | blockClose => exact h.plain (by decide) fun _ => hfits
  | special => exact h.plain (by decide) nofun

theorem leading_sign {kind : MustacheKind} {inner : Text} (hfits : kind.Fits inner) (rest : Text) :
    ∃ token, mustacheKind token = kind ∧ token.opensBrace = true ∧
      TokenKind.leading ('\x7b' :: (kind.sign ++ inner ++ '\x7d' :: rest)) =
        (token, 1 + Text.bytes kind.sign) := by
  cases kind with
  | expression =>
    refine ⟨.brace, rfl, rfl, ?_⟩
    cases inner with
    | nil => rfl
    | cons c inner =>
      have hc : c ∉ "#:/@".toList := hfits c rfl
      have hsign : c ≠ '#' ∧ c ≠ ':' ∧ c ≠ '/' ∧ c ≠ '@' := by simpa using hc
      simp_all [MustacheKind.sign, TokenKind.leading]
  | blockOpen => exact ⟨.braceHash, rfl, rfl, rfl⟩
  | blockContinue => exact ⟨.braceColon, rfl, rfl, rfl⟩
  | blockClose => exact ⟨.braceSlash, rfl, rfl, rfl⟩
  | special => exact ⟨.braceAt, rfl, rfl, rfl⟩

theorem step_brace {text : Text} {token : TokenKind} {length : Nat}
    (hleading : TokenKind.leading ('\x7b' :: text) = (token, length))
    (hopens : token.opensBrace = true) (hcursor : outline.cursor = ⟨offset, '\x7b' :: text⟩) :
    outline.step =
      outline.readMustache token ⟨offset + length, ('\x7b' :: text).drop length⟩ := by
  unfold step Token.readHere
  rw [hcursor]
  dsimp only
  rw [hleading]
  cases token <;> first | rfl | cases hopens

theorem step_mustache {kind : MustacheKind} {inner : Text}
    (h : (Written.mustache kind inner).WellFormed)
    (hcursor : outline.cursor = ⟨offset, (Written.mustache kind inner).print ++ rest⟩) :
    outline.step = outline.put offset (.mustache kind inner) rest := by
  obtain ⟨hbalanced, hfits⟩ := h
  obtain ⟨token, hkind, hopens, hleading⟩ := leading_sign hfits rest
  have hprint : (Written.mustache kind inner).print ++ rest =
      '\x7b' :: (kind.sign ++ inner ++ '\x7d' :: rest) := by
    simp [Written.print]
  have hclose : closingBrace? ⟨offset, '\x7b' :: (kind.sign ++ inner ++ '\x7d' :: rest)⟩ =
      some ⟨offset + 1 + Text.bytes (kind.sign ++ inner), '\x7d' :: rest⟩ :=
    closingBrace?_balanced (balanced_sign hbalanced hfits)
  have hbytes : Text.bytes (Written.mustache kind inner).print =
      1 + Text.bytes (kind.sign ++ inner) + 1 := by
    rw [Written.print, Text.bytes_append]
    rfl
  rw [hprint] at hcursor
  rw [step_brace hleading hopens hcursor, readMustache, hcursor, hclose]
  unfold put
  rw [hbytes, Written.place, Text.spanAt, Text.spanAt, hbytes]
  simp only [Cursor.upTo, Cursor.next, Text.bytes_append, hkind, Nat.add_assoc]
  rfl

theorem read_ending {ending : Text} (hending : Attribute.EndsTag ending) (offset : Nat)
    (rest : Text) :
    (Token.read ⟨offset, ending ++ rest⟩).2 = ⟨offset + Text.bytes ending, rest⟩ ∧
      (Token.read ⟨offset, ending ++ rest⟩).1.kind =
        if ending = ['/', '>'] then .slashAngle else .closeAngle := by
  rcases hending with rfl | rfl <;> exact ⟨rfl, rfl⟩

theorem step_angle {c : Char} {text : Text} (hc : Text.isAsciiLetter c = true)
    (hcursor : outline.cursor = ⟨offset, '<' :: c :: text⟩) :
    outline.step = outline.readElement ⟨offset + 1, c :: text⟩ := by
  have hstarts : startsMarkup ('<' :: c :: text) = true := by simp [startsMarkup, hc]
  unfold step Token.readHere
  rw [hcursor]
  dsimp only
  rw [leading_letter text hc, hstarts]
  rfl

/-- An opening tag is read up to its end, whatever its attributes are read as. -/
theorem step_tag_read {name text : Text} {attributes : Reading (List Attribute)} {ending : Text}
    (hname : IsTagName name) (hending : Attribute.EndsTag ending)
    (hgap : ∀ c ∈ (text ++ (ending ++ rest)).head?, isNameChar c = false)
    (hread : Attribute.readList ⟨offset + 1 + Text.bytes name, text ++ (ending ++ rest)⟩ = attributes)
    (hbehind : attributes.cursor =
      ⟨offset + 1 + Text.bytes name + Text.bytes text, ending ++ rest⟩)
    (hcursor : outline.cursor = ⟨offset, '<' :: (name ++ (text ++ (ending ++ rest)))⟩) :
    outline.step = outline.endTag name attributes []
      ⟨offset + 1 + Text.bytes name + Text.bytes text + Text.bytes ending, rest⟩
      (ending = ['/', '>']) := by
  have hstep : outline.step =
      outline.readElement ⟨offset + 1, name ++ (text ++ (ending ++ rest))⟩ := by
    obtain ⟨c, others, rfl, hc, -⟩ := hname
    exact step_angle hc hcursor
  have hrun : Cursor.takeWhile ⟨offset + 1, name ++ (text ++ (ending ++ rest))⟩ isNameChar =
      (name, ⟨offset + 1 + Text.bytes name, text ++ (ending ++ rest)⟩) :=
    Cursor.takeWhile_run (fun c hc => hname.isNameChar hc) hgap
  obtain ⟨hafter, hkind⟩ := read_ending hending
    (offset + 1 + Text.bytes name + Text.bytes text) rest
  rw [hstep, readElement_eq, hrun]
  dsimp only
  rw [hread, hbehind, hkind, hafter]
  rcases hending with rfl | rfl <;> rfl

theorem step_tag {name : Text} {attributes : List WrittenAttribute} {ending : Text}
    (hname : IsTagName name) (hattributes : ∀ attr ∈ attributes, attr.WellFormed)
    (hending : Attribute.EndsTag ending)
    (hcursor : outline.cursor = ⟨offset, Written.printTag name attributes ending ++ rest⟩) :
    ∃ last, outline.step =
      outline.endTag name ⟨Written.placeAttributes offset name attributes, [], last⟩ []
        ⟨offset + Text.bytes (Written.printTag name attributes ending), rest⟩
        (ending = ['/', '>']) := by
  have htext : Written.printTag name attributes ending ++ rest =
      '<' :: (name ++ (WrittenAttribute.printAll attributes ++ (ending ++ rest))) := by
    simp [Written.printTag]
  have hstop : offset + Text.bytes (Written.printTag name attributes ending) =
      offset + 1 + Text.bytes name + Text.bytes (WrittenAttribute.printAll attributes) +
        Text.bytes ending := by
    simp only [Written.printTag, Text.bytes_append, Text.bytes_cons, Nat.add_assoc]
    rfl
  rw [htext] at hcursor
  rw [hstop]
  exact ⟨_, step_tag_read hname hending (Attribute.endsName_printAll hattributes hending).1
    (Attribute.readList_written hattributes hending) rfl hcursor⟩

theorem step_closed {name : Text} {attributes : List WrittenAttribute}
    (h : (Written.closed name attributes).WellFormed)
    (hcursor : outline.cursor = ⟨offset, (Written.closed name attributes).print ++ rest⟩) :
    outline.step = outline.put offset (.closed name attributes) rest := by
  obtain ⟨last, hstep⟩ := step_tag h.1 h.2 (.inr rfl) hcursor
  rw [hstep]
  unfold endTag
  dsimp only
  rw [decide_eq_true rfl, Bool.not_true, Bool.and_false, if_neg Bool.false_ne_true,
    Bool.true_or, if_pos rfl, hcursor]
  rfl

/-- An element without content has no content to be read verbatim. -/
theorem isVoid_not_raw {name : Text} (h : isVoid name = true) :
    isScriptName name = false ∧ isStyleName name = false := by
  obtain ⟨void, hmem, hsame⟩ := List.any_eq_true.mp h
  have hletters : name.map Text.asciiLower = void.map Text.asciiLower := of_decide_eq_true hsame
  have hnone : ∀ void ∈ voidNames, Text.sameLetters void "script".toList = false ∧
      Text.sameLetters void "style".toList = false := by decide
  unfold isScriptName isStyleName Text.sameLetters
  rw [hletters]
  exact hnone void hmem

theorem step_void {name : Text} {attributes : List WrittenAttribute}
    (h : (Written.void name attributes).WellFormed)
    (hcursor : outline.cursor = ⟨offset, (Written.void name attributes).print ++ rest⟩) :
    outline.step = outline.put offset (.void name attributes) rest := by
  obtain ⟨hname, hvoid, hattributes⟩ := h
  obtain ⟨hscript, hstyle⟩ := isVoid_not_raw hvoid
  obtain ⟨last, hstep⟩ := step_tag hname hattributes (.inl rfl) hcursor
  rw [hstep]
  unfold endTag
  rw [hscript, hstyle, hvoid, hcursor]
  rfl

/-- The opening tag of an element that has children. -/
theorem step_opening {name : Text} {attributes : List WrittenAttribute} (hname : IsTagName name)
    (hvoid : isVoid name = false) (hscript : isScriptName name = false)
    (hstyle : isStyleName name = false) (hattributes : ∀ attr ∈ attributes, attr.WellFormed)
    (hcursor : outline.cursor = ⟨offset, Written.printTag name attributes ['>'] ++ rest⟩) :
    outline.step = { outline.advance []
        ⟨offset + Text.bytes (Written.printTag name attributes ['>']), rest⟩ with
      opened := ⟨offset, name, Written.placeAttributes offset name attributes, []⟩ ::
        outline.opened } := by
  obtain ⟨last, hstep⟩ := step_tag hname hattributes (.inl rfl) hcursor
  rw [hstep]
  unfold endTag
  rw [hscript, hstyle, hvoid, hcursor]
  rfl

theorem skipClosingTag_closeAngle :
    skipClosingTag ⟨offset, '>' :: rest⟩ = ⟨(), [], ⟨offset + 1, rest⟩⟩ := rfl

/-- What a closing tag does depends on the elements that are open. -/
theorem step_closingTag {name : Text} (hname : IsTagName name)
    (hcursor : outline.cursor = ⟨offset, Written.printClosingTag name ++ rest⟩) :
    let span : Span := ⟨offset, offset + 2 + Text.bytes name⟩
    let behind : Cursor := ⟨offset + Text.bytes (Written.printClosingTag name), rest⟩
    outline.step =
      match outline.opened with
      | [] => outline.advance [⟨.unexpectedClosingTag name, span⟩] behind
      | innermost :: outer =>
        if innermost.name = name then (outline.advance [] behind).close
        else if outer.any (·.name = name) then
          (outline.advance [⟨.unclosedTag innermost.name, span⟩] outline.cursor).close
        else outline.advance [⟨.mismatchedClosingTag innermost.name name, span⟩] behind := by
  have htext : Written.printClosingTag name ++ rest = '<' :: '/' :: (name ++ '>' :: rest) := by
    simp [Written.printClosingTag]
  have hstop : offset + Text.bytes (Written.printClosingTag name) =
      offset + 2 + Text.bytes name + 1 := by
    simp only [Written.printClosingTag, Text.bytes_append, Nat.add_assoc]
    rfl
  rw [htext] at hcursor
  have hread : outline.step = outline.readClosingTag ⟨offset + 2, name ++ '>' :: rest⟩ := by
    unfold step
    rw [hcursor]
    rfl
  have hgap : Cursor.skipWhile ⟨offset + 2, name ++ '>' :: rest⟩ isSeparator =
      ⟨offset + 2, name ++ '>' :: rest⟩ := by
    apply Cursor.skipWhile_none
    intro c hc
    obtain ⟨first, others, heq, hletter, -⟩ := hname
    rw [heq] at hc
    cases hc
    exact not_isSeparator_of_isNameChar (isNameChar_of_isAsciiLetter hletter)
  have hrun : Cursor.takeWhile ⟨offset + 2, name ++ '>' :: rest⟩ isNameChar =
      (name, ⟨offset + 2 + Text.bytes name, '>' :: rest⟩) := by
    apply Cursor.takeWhile_run (fun c hc => hname.isNameChar hc)
    rintro c ⟨⟩
    rfl
  have hsome : name.isEmpty = false := by
    obtain ⟨first, others, heq, -⟩ := hname
    rw [heq]
    rfl
  rw [hread, readClosingTag, hgap, hrun]
  dsimp only
  rw [hsome, if_neg Bool.false_ne_true, skipClosingTag_closeAngle, hstop, hcursor]
  rfl

/-- The closing tag of the innermost element. -/
theorem step_closing {innermost : OpenElement} {outer : List OpenElement}
    (hname : IsTagName innermost.name) (hopened : outline.opened = innermost :: outer)
    (hcursor : outline.cursor = ⟨offset, Written.printClosingTag innermost.name ++ rest⟩) :
    outline.step = (outline.advance []
      ⟨offset + Text.bytes (Written.printClosingTag innermost.name), rest⟩).close := by
  rw [step_closingTag hname hcursor, hopened]
  dsimp only
  rw [if_pos rfl]

/-- The content of a raw element goes up to the first text that begins like its closing
tag. -/
theorem readRawEnd_closingTag {start : Cursor} {name body : Text} (hname : IsTagName name)
    (hbody : ∀ a b, body ≠ a ++ "</".toList ++ name ++ b) :
    readRawEnd start ⟨offset, body ++ ("</".toList ++ name ++ rest)⟩ name =
      (⟨offset + Text.bytes body, "</".toList ++ name ++ rest⟩,
        skipClosingTag ⟨offset + Text.bytes body + Text.bytes ("</".toList ++ name), rest⟩) := by
  unfold readRawEnd
  dsimp only
  rw [find?_closingTag hname hbody]
  dsimp only
  rw [List.drop_left]

/-- A script or style element, whatever stands behind the name in its closing tag. -/
theorem step_raw {name body : Text} {attributes : List WrittenAttribute}
    {skipped : Reading Unit} (hname : IsTagName name)
    (hraw : (isScriptName name || isStyleName name) = true)
    (hattributes : ∀ attr ∈ attributes, attr.WellFormed)
    (hbody : ∀ a b, body ≠ a ++ "</".toList ++ name ++ b)
    (hskip : skipClosingTag ⟨offset + Text.bytes (Written.printTag name attributes ['>']) +
      Text.bytes body + Text.bytes ("</".toList ++ name), rest⟩ = skipped)
    (hcursor : outline.cursor = ⟨offset, Written.printTag name attributes ['>'] ++
      (body ++ ("</".toList ++ name ++ rest))⟩) :
    outline.step = (outline.advance skipped.errors skipped.cursor).addRaw name
      (Written.placeAttributes offset name attributes) ⟨offset, skipped.cursor.offset⟩
      (Text.spanAt (offset + Text.bytes (Written.printTag name attributes ['>'])) body)
      (Text.allBlank body) := by
  have hbetween (place : Nat) (more : Text) :
      Cursor.textTo ⟨place, body ++ more⟩ ⟨place + Text.bytes body, more⟩ = body :=
    Cursor.Reaches.textTo_eq rfl rfl
  obtain ⟨last, hstep⟩ := step_tag hname hattributes (.inl rfl) hcursor
  have hread : outline.step = (outline.advance []
      ⟨offset + Text.bytes (Written.printTag name attributes ['>']),
        body ++ ("</".toList ++ name ++ rest)⟩).readRaw outline.cursor name
          (Written.placeAttributes offset name attributes) := by
    rw [hstep]
    unfold endTag
    rw [hraw]
    rfl
  rw [hread, readRaw]
  dsimp only [advance]
  rw [readRawEnd_closingTag hname hbody, hskip, hcursor]
  dsimp only
  rw [hbetween]
  rfl

/-- A script or style element with its content. -/
theorem step_verbatim {name body : Text} {attributes : List WrittenAttribute}
    (h : (Written.verbatim name attributes body).WellFormed)
    (hcursor : outline.cursor = ⟨offset, (Written.verbatim name attributes body).print ++ rest⟩) :
    outline.step = (outline.advance []
        ⟨offset + Text.bytes (Written.verbatim name attributes body).print, rest⟩).addRaw name
      (Written.placeAttributes offset name attributes)
      (Text.spanAt offset (Written.verbatim name attributes body).print)
      (Text.spanAt (offset + Text.bytes (Written.printTag name attributes ['>'])) body)
      (Text.allBlank body) := by
  obtain ⟨hname, hraw, hattributes, hbody⟩ := h
  have htext : (Written.verbatim name attributes body).print ++ rest =
      Written.printTag name attributes ['>'] ++
        (body ++ ("</".toList ++ name ++ '>' :: rest)) := by
    simp [Written.print, Written.printClosingTag]
  have hstop : offset + Text.bytes (Written.verbatim name attributes body).print =
      offset + Text.bytes (Written.printTag name attributes ['>']) + Text.bytes body +
        Text.bytes ("</".toList ++ name) + 1 := by
    simp only [Written.print, Written.printClosingTag, Text.bytes_append, Nat.add_assoc]
    rfl
  have hcontent : (isScriptName name || isStyleName name) = true := by
    rcases hraw with hraw | hraw <;> simp [hraw]
  rw [htext] at hcursor
  have hspan : Text.spanAt offset (Written.verbatim name attributes body).print =
      ⟨offset, offset + Text.bytes (Written.printTag name attributes ['>']) + Text.bytes body +
        Text.bytes ("</".toList ++ name) + 1⟩ :=
    congrArg (Span.mk offset) hstop
  rw [step_raw hname hcontent hattributes hbody skipClosingTag_closeAngle hcursor, hspan, hstop]

end Outline

end Markup

end TypedComponent
