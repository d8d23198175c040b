import TypedComponent.Proofs.Markup.Children
import TypedComponent.Proofs.Markup.Rebodying
import TypedComponent.Proofs.Markup.RoundTrip
import TypedComponent.Proofs.Markup.Tokens

/-!
Where a script or style element ends. Its content is not markup and goes up to the
first text that begins like its closing tag. The name in that tag may go on: a tag
for a longer name ends the element too.
-/

namespace TypedComponent.Markup

open Relation (ReflTransGen)

section Tails

variable {offset : Nat} {tail text behind rest : Text} {kind : TokenKind}

/-- What stands in a tag in front of the `>` that ends it: no such sign, and no slash at
the end, which would be one sign with it. -/
structure EndsBefore (tail : Text) : Prop where
  no_close : '>' ∉ tail
  no_slash : tail.getLast? ≠ some '/'

theorem EndsBefore.nil : EndsBefore [] := ⟨by simp, by simp⟩

theorem EndsBefore.of_append {passed : Text} (h : EndsBefore (passed ++ tail)) :
    EndsBefore tail where
  no_close := fun hmem => h.no_close (List.mem_append_right _ hmem)
  no_slash := fun hlast => h.no_slash (by rw [List.getLast?_append, hlast]; rfl)

/-- A token that begins in front of the end of a tag has no part in that end. -/
theorem EndsBefore.close_not_mem (h : EndsBefore tail) (hne : tail ≠ [])
    (hmatches : kind.Matches text) (heq : tail ++ '>' :: rest = text ++ behind) : '>' ∉ text := by
  obtain ⟨c, more, rfl⟩ := List.exists_cons_of_ne_nil hne
  rcases hmatches.cases with ⟨-, -, hall⟩ | hsign
  · intro hmem
    exact absurd (hall _ hmem) (by decide)
  by_cases hclose : kind = .closeAngle
  · subst hclose
    cases hsign
    have hhead : c = '>' := (List.cons.inj heq).1
    exact absurd (hhead ▸ List.mem_cons_self) h.no_close
  by_cases hslash : kind = .slashAngle
  · subst hslash
    cases hsign
    obtain ⟨rfl, hrest⟩ := List.cons.inj heq
    cases more with
    | nil => exact absurd rfl h.no_slash
    | cons d more =>
      have hhead : d = '>' := (List.cons.inj hrest).1
      exact absurd (hhead ▸ List.mem_cons_of_mem _ List.mem_cons_self) h.no_close
  · cases kind <;> cases hsign
    all_goals first
      | decide
      | contradiction

theorem EndsBefore.exists_left (h : EndsBefore tail) (hne : tail ≠ [])
    (hmatches : kind.Matches text) (heq : tail ++ '>' :: rest = text ++ behind) :
    ∃ left, tail = text ++ left ∧ behind = left ++ '>' :: rest := by
  have hnot := h.close_not_mem hne hmatches heq
  rcases List.append_eq_append_iff.mp heq with ⟨left, htext, hend⟩ | ⟨left, htail, hbehind⟩
  · cases left with
    | nil => exact ⟨[], by simpa using htext.symm, by simpa using hend.symm⟩
    | cons d left =>
      obtain ⟨rfl, -⟩ := List.cons.inj hend
      rw [htext] at hnot
      exact absurd (List.mem_append_right _ List.mem_cons_self) hnot
  · exact ⟨left, htail, hbehind⟩

/-- Behind separators the next token in front of the end of a tag leaves that end. -/
theorem EndsBefore.read_eq {c : Char} {more : Text} (h : EndsBefore (c :: more))
    (hc : isSeparator c = false) (offset : Nat) (rest : Text) :
    ∃ kind text left, kind ≠ .closeAngle ∧ kind ≠ .finish ∧ text ≠ [] ∧ c :: more = text ++ left ∧
      Token.read ⟨offset, c :: more ++ '>' :: rest⟩ =
        (⟨kind, Text.spanAt offset text⟩, ⟨offset + Text.bytes text, left ++ '>' :: rest⟩) := by
  obtain ⟨kind, text, behind, heq, hlongest, hread⟩ :=
    Token.readHere_longest hc offset (more ++ '>' :: rest)
  obtain ⟨left, hleft, rfl⟩ := h.exists_left (List.cons_ne_nil c more) hlongest.matched heq
  have hclose : kind ≠ .closeAngle := by
    rintro rfl
    have hsign : some ['>'] = some text := hlongest.matched
    cases hsign
    exact h.no_close (hleft ▸ List.mem_cons_self)
  refine ⟨kind, text, left, hclose, Token.kind_ne_finish hlongest.matched,
    hlongest.matched.ne_nil, hleft, ?_⟩
  rw [Token.read, Cursor.skipWhile_none]
  · exact hread
  · rintro _ ⟨⟩
    exact hc

theorem skipClosingTagWithin_succ {steps : Nat} {cursor after : Cursor} {token : Token}
    (hread : Token.read cursor = (token, after)) (hclose : token.kind ≠ .closeAngle)
    (hfinish : token.kind ≠ .finish) :
    skipClosingTagWithin (steps + 1) cursor = skipClosingTagWithin steps after := by
  rw [skipClosingTagWithin, hread]
  dsimp only
  split
  · contradiction
  · contradiction
  · rfl

theorem skipClosingTagWithin_tail {steps : Nat} (hsteps : tail.length < steps)
    (htail : EndsBefore tail) : skipClosingTagWithin steps ⟨offset, tail ++ '>' :: rest⟩ =
      ⟨(), [], ⟨offset + Text.bytes tail + 1, rest⟩⟩ := by
  induction hlength : tail.length using Nat.strong_induction_on
    generalizing tail offset steps with
  | _ length ih =>
  obtain ⟨steps, rfl⟩ := Nat.exists_eq_add_one_of_ne_zero (Nat.ne_zero_of_lt hsteps)
  cases tail with
  | nil => rfl
  | cons c more =>
    rw [List.length_cons] at hsteps hlength
    cases hc : isSeparator c with
    | true =>
      -- The next token is the one behind the separator.
      have hgap : Token.read ⟨offset, c :: more ++ '>' :: rest⟩ =
          Token.read ⟨offset + Text.bytes [c], more ++ '>' :: rest⟩ :=
        Token.read_gap (List.forall_mem_singleton.mpr hc)
      have hmore : EndsBefore ([c] ++ more) := htail
      have hskip : skipClosingTagWithin (steps + 1)
          ⟨offset + Text.bytes [c], more ++ '>' :: rest⟩ =
            ⟨(), [], ⟨offset + Text.bytes [c] + Text.bytes more + 1, rest⟩⟩ :=
        ih more.length (by omega) (by omega) hmore.of_append rfl
      rw [skipClosingTagWithin] at hskip ⊢
      rw [hgap, hskip, Nat.add_assoc offset, ← Text.bytes_append]
      rfl
    | false =>
      obtain ⟨kind, text, left, hclose, hfinish, hne, hleft, hread⟩ :=
        htail.read_eq hc offset rest
      have hpos := List.length_pos_iff.mpr hne
      have hlengths := congrArg List.length hleft
      rw [List.length_cons, List.length_append] at hlengths
      rw [hleft] at htail
      rw [skipClosingTagWithin_succ hread hclose hfinish,
        ih left.length (by omega) (by omega) htail.of_append rfl, hleft, Text.bytes_append,
        Nat.add_assoc offset]

theorem skipClosingTag_tail (htail : EndsBefore tail) :
    skipClosingTag ⟨offset, tail ++ '>' :: rest⟩ =
      ⟨(), [], ⟨offset + Text.bytes tail + 1, rest⟩⟩ := by
  refine skipClosingTagWithin_tail (Nat.lt_succ_of_le ?_) htail
  dsimp only
  rw [List.length_append]
  exact Nat.le_add_right _ _

end Tails

theorem isAsciiLetter_of_asciiLower {c : Char}
    (h : Text.isAsciiLetter (Text.asciiLower c) = true) : Text.isAsciiLetter c = true := by
  unfold Text.asciiLower at h
  split at h
  · next hupper => simp [Text.isAsciiLetter, hupper]
  · exact h

theorem isTagName_of_sameLetters {name word : Text} (h : Text.sameLetters name word = true)
    (hne : word ≠ []) (hword : ∀ c ∈ word.map Text.asciiLower, Text.isAsciiLetter c = true) :
    IsTagName name := by
  have hsame : name.map Text.asciiLower = word.map Text.asciiLower := of_decide_eq_true h
  have hall : ∀ c ∈ name, Text.isAsciiLetter c = true := fun c hc =>
    isAsciiLetter_of_asciiLower (hword _ (hsame ▸ List.mem_map_of_mem hc))
  cases name with
  | nil => exact absurd (List.map_eq_nil_iff.mp hsame.symm) hne
  | cons c others =>
    obtain ⟨hc, hothers⟩ := List.forall_mem_cons.mp hall
    exact ⟨c, others, rfl, hc, fun d hd => isNameChar_of_isAsciiLetter (hothers d hd)⟩

theorem isTagName_of_isRaw {name : Text} (h : (isScriptName name || isStyleName name) = true) :
    IsTagName name := by
  rcases Bool.or_eq_true_iff.mp h with hscript | hstyle
  · exact isTagName_of_sameLetters hscript (by decide) (List.all_eq_true.mp (by decide))
  · exact isTagName_of_sameLetters hstyle (by decide) (List.all_eq_true.mp (by decide))

namespace Outline

/-- What a reading has of the document so far. -/
def soFar (outline : Outline) : Document :=
  ⟨⟨0, outline.cursor.offset⟩, outline.nodes.reverse, outline.scripts.reverse,
    outline.styles.reverse⟩

/-- Outside of all elements a reading goes on as if what follows stood alone. -/
theorem Leads.parse_eq {source rest : Text} {between : Outline} {offset : Nat}
    (hlead : Leads (.ofSource source) between) (hcursor : between.cursor = ⟨offset, rest⟩)
    (hopened : between.opened = []) :
    parse source = ⟨between.soFar.append ((parse rest).document.partsShifted offset),
      between.errors.reverse ++ (parse rest).errors.map (·.renumbered (· + offset))⟩ := by
  have hplace : between.cursor = ⟨offset, rest ++ []⟩ := by rw [hcursor, List.append_nil]
  obtain ⟨last, hlast, htwin⟩ := (outlineOf_leads rest).twin (ofSource_twin_at hopened hplace)
    (.inl ⟨rfl, rfl⟩) fun _ _ _ _ _ _ _ => Meets.refl _
  have hfinished : last.isFinished = true := htwin.finished (outlineOf_finished rest)
  have hread : outlineOf source = last :=
    Leads.run_eq (hlead.trans hlast) hfinished (parse_isFinished source)
  have hspan : Span.through ⟨0, offset⟩ (Span.shifted ⟨0, Text.bytes rest⟩ offset) =
      ⟨0, Text.bytes source⟩ := by
    obtain ⟨passed, hsource, hoffset⟩ := hlead.reaches
    rw [hcursor] at hsource hoffset
    dsimp only [ofSource, Cursor.ofText] at hsource hoffset
    rw [hsource, Text.bytes_append, hoffset, Nat.zero_add, Nat.add_comm]
    rfl
  rw [Markup.parse_eq, Markup.parse_eq rest, hread, htwin.nodes.eq_map, htwin.scripts.eq_map,
    htwin.styles.eq_map, htwin.errors.eq_map]
  simp only [Document.append, Document.partsShifted, soFar, hcursor, hspan, List.reverse_append,
    List.map_reverse]

end Outline

section Blocks

open Outline

/-- A script or style element as it is written, with `tail` behind the name in its
closing tag. -/
def printRaw (name body tail : Text) : Text :=
  Written.printTag name [] ['>'] ++ body ++ ("</".toList ++ name ++ tail ++ ['>'])

/-- The document of a component that is such an element and nothing else. -/
def rawDocument (name body tail : Text) : Document :=
  let whole := Text.spanAt 0 (printRaw name body tail)
  let content := Text.spanAt (Text.bytes (Written.printTag name [] ['>'])) body
  if isScriptName name then ⟨whole, [], [⟨whole, content, .javaScript, .perInstance, []⟩], []⟩
  else ⟨whole, [], [], [⟨whole, content, []⟩]⟩

/-- The text in the first script of a component or in its first style block, as the
name says. -/
def rawText? (name source : Text) : Option Text :=
  let document := (parse source).document
  let contents := if isScriptName name then document.scripts.map (·.content)
    else document.styles.map (·.content)
  contents.head?.map (Text.slice source)

variable {name body tail source rest : Text}

/-- The first step in a source that begins with a script or style element. -/
theorem step_ofSource_raw {skipped : Reading Unit}
    (hname : (isScriptName name || isStyleName name) = true)
    (hbody : ¬ "</".toList ++ name <:+: body)
    (hsource : source =
      Written.printTag name [] ['>'] ++ (body ++ ("</".toList ++ name ++ rest)))
    (hskip : skipClosingTag ⟨Text.bytes (Written.printTag name [] ['>']) +
      Text.bytes body + Text.bytes ("</".toList ++ name), rest⟩ = skipped) :
    (Outline.ofSource source).Advances
      (((Outline.ofSource source).advance skipped.errors skipped.cursor).addRaw name []
        ⟨0, skipped.cursor.offset⟩
        (Text.spanAt (Text.bytes (Written.printTag name [] ['>'])) body)
        (Text.allBlank body)) := by
  subst hsource
  have hstart := Nat.zero_add (Text.bytes (Written.printTag name [] ['>']))
  have habsent := not_infix_iff.mp hbody
  simp only [← List.append_assoc] at habsent
  rw [← hstart] at hskip ⊢
  exact ⟨rfl, step_raw (isTagName_of_isRaw hname) hname nofun habsent hskip rfl⟩

theorem leads_printRaw (hname : (isScriptName name || isStyleName name) = true)
    (hbody : ¬ "</".toList ++ name <:+: body) (htail : EndsBefore tail) (rest : Text) :
    ∃ between, Leads (.ofSource (printRaw name body tail ++ rest)) between ∧
      between.cursor = ⟨Text.bytes (printRaw name body tail), rest⟩ ∧ between.opened = [] ∧
      between.errors = [] ∧ between.soFar = rawDocument name body tail := by
  have hsource : printRaw name body tail ++ rest = Written.printTag name [] ['>'] ++
      (body ++ ("</".toList ++ name ++ (tail ++ '>' :: rest))) := by
    simp [printRaw]
  have hstop : Text.bytes (printRaw name body tail) =
      Text.bytes (Written.printTag name [] ['>']) + Text.bytes body +
        Text.bytes ("</".toList ++ name) + Text.bytes tail + 1 := by
    simp only [printRaw, Text.bytes_append, Nat.add_assoc]
    rfl
  have hskip : skipClosingTag ⟨Text.bytes (Written.printTag name [] ['>']) + Text.bytes body +
      Text.bytes ("</".toList ++ name), tail ++ '>' :: rest⟩ =
        ⟨(), [], ⟨Text.bytes (printRaw name body tail), rest⟩⟩ := by
    rw [hstop]
    exact skipClosingTag_tail htail
  refine ⟨_, ReflTransGen.single (step_ofSource_raw hname hbody hsource hskip), ?_⟩
  have hlanguage : scriptLanguage [] = .javaScript := rfl
  have hcontext : scriptContext [] = .perInstance := rfl
  cases hscript : isScriptName name <;>
    simp [addRaw, advance, ofSource, soFar, rawDocument, Text.spanAt, hscript, hlanguage, hcontext]

/-- A script or style element and what follows it are read one after the other. -/
theorem parse_printRaw (hname : (isScriptName name || isStyleName name) = true)
    (hbody : ¬ "</".toList ++ name <:+: body) (htail : EndsBefore tail) (rest : Text) :
    parse (printRaw name body tail ++ rest) =
      ⟨(rawDocument name body tail).append
          ((parse rest).document.partsShifted (Text.bytes (printRaw name body tail))),
        (parse rest).errors.map (·.renumbered (· + Text.bytes (printRaw name body tail)))⟩ := by
  obtain ⟨between, hlead, hcursor, hopened, hclean, hdocument⟩ :=
    leads_printRaw hname hbody htail rest
  rw [hlead.parse_eq hcursor hopened, hdocument, hclean]
  rfl

/-- Whatever follows it, the first text that begins like a closing tag ends the
content. -/
theorem rawText?_eq (hname : (isScriptName name || isStyleName name) = true)
    (hbody : ¬ "</".toList ++ name <:+: body)
    (hsource : source =
      Written.printTag name [] ['>'] ++ (body ++ ("</".toList ++ name ++ rest))) :
    rawText? name source = some body := by
  obtain ⟨hmore, hstep⟩ := step_ofSource_raw hname hbody hsource rfl
  have hlead : Leads (Outline.ofSource source).step (outlineOf source) := by
    rw [outlineOf, Outline.run, if_neg (Bool.eq_false_iff.mp hmore)]
    exact Leads.of_run _ _
  obtain ⟨hscripts, hstyles⟩ := Leads.blocks_suffix hlead
  have hslice : Text.slice source
      (Text.spanAt (Text.bytes (Written.printTag name [] ['>'])) body) = body :=
    Text.slice_of_append (hsource.trans (List.append_assoc ..).symm) rfl
      (by simp [Span.length, Text.spanAt])
  rw [hstep] at hscripts hstyles
  unfold rawText?
  rw [parse_eq]
  cases hscript : isScriptName name with
  | true =>
    simp only [addRaw, hscript] at hscripts
    obtain ⟨later, hlater⟩ := hscripts
    rw [← hlater]
    simp [Outline.advance, ofSource, hslice]
  | false =>
    simp only [addRaw, hscript] at hstyles
    obtain ⟨later, hlater⟩ := hstyles
    rw [← hlater]
    simp [Outline.advance, ofSource, hslice]

/-- A mark in a text has a first place there. -/
theorem exists_first_infix {mark text : Text} (hmark : mark ≠ []) (h : mark <:+: text) :
    ∃ before after, text = before ++ mark ++ after ∧ ¬ mark <:+: before := by
  induction hlength : text.length using Nat.strong_induction_on generalizing text with
  | _ length ih =>
  obtain ⟨before, after, rfl⟩ := h
  by_cases hbefore : mark <:+: before
  · have hpos := List.length_pos_iff.mpr hmark
    rw [List.length_append, List.length_append] at hlength
    obtain ⟨first, others, rfl, hfirst⟩ := ih before.length (by omega) hbefore rfl
    exact ⟨first, others ++ mark ++ after, by simp, hfirst⟩
  · exact ⟨before, after, rfl, hbefore⟩

/-- How a component is read that begins with a script or style element. The content is
the whole body if nothing in it begins like the closing tag. Otherwise it goes up to
the first text that does, and if a tag ends behind that, reading goes on behind it. -/
structure RawReading (name body rest : Text) : Prop where
  content_iff : rawText? name (printRaw name body [] ++ rest) = some body ↔
    ¬ "</".toList ++ name <:+: body
  whole : ¬ "</".toList ++ name <:+: body →
    parse (printRaw name body [] ++ rest) =
      ⟨(rawDocument name body []).append
          ((parse rest).document.partsShifted (Text.bytes (printRaw name body []))),
        (parse rest).errors.map (·.renumbered (· + Text.bytes (printRaw name body [])))⟩
  content_cut : ∀ before after, body = before ++ ("</".toList ++ name) ++ after →
    ¬ "</".toList ++ name <:+: before →
    rawText? name (printRaw name body [] ++ rest) = some before
  cut : ∀ before tail after, body = before ++ ("</".toList ++ name ++ tail ++ ['>']) ++ after →
    ¬ "</".toList ++ name <:+: before → EndsBefore tail →
    parse (printRaw name body [] ++ rest) =
      ⟨(rawDocument name before tail).append
          ((parse (after ++ Written.printClosingTag name ++ rest)).document.partsShifted
            (Text.bytes (printRaw name before tail))),
        (parse (after ++ Written.printClosingTag name ++ rest)).errors.map
          (·.renumbered (· + Text.bytes (printRaw name before tail)))⟩

theorem rawReading (name body rest : Text)
    (hname : (isScriptName name || isStyleName name) = true) : RawReading name body rest := by
  have hcut : ∀ before after, body = before ++ ("</".toList ++ name) ++ after →
      ¬ "</".toList ++ name <:+: before →
      rawText? name (printRaw name body [] ++ rest) = some before := by
    intro before after hbody hbefore
    have hsource : printRaw name body [] ++ rest = Written.printTag name [] ['>'] ++
        (before ++ ("</".toList ++ name ++ (after ++ Written.printClosingTag name ++ rest))) := by
      simp [printRaw, hbody, Written.printClosingTag]
    exact rawText?_eq hname hbefore hsource
  have hmark : "</".toList ++ name ≠ [] := List.cons_ne_nil _ _
  refine ⟨⟨fun hcontent hinfix => ?_, fun hbody => ?_⟩, fun hbody => ?_, hcut, ?_⟩
  · obtain ⟨before, after, hbody, hbefore⟩ := exists_first_infix hmark hinfix
    have hsame := (hcut before after hbody hbefore).symm.trans hcontent
    exact hbefore (Option.some.inj hsame ▸ hinfix)
  · have hsource : printRaw name body [] ++ rest = Written.printTag name [] ['>'] ++
        (body ++ ("</".toList ++ name ++ ('>' :: rest))) := by
      simp [printRaw]
    exact rawText?_eq hname hbody hsource
  · exact parse_printRaw hname hbody .nil rest
  · intro before tail after hbody hbefore htail
    have hsource : printRaw name body [] ++ rest =
        printRaw name before tail ++ (after ++ Written.printClosingTag name ++ rest) := by
      simp [printRaw, hbody, Written.printClosingTag]
    rw [hsource]
    exact parse_printRaw hname hbefore htail _

/-- Whether a text has a closing tag for a name, which no other character continues. -/
def HasClosingTag (name text : Text) : Prop :=
  ∃ before after, text = before ++ ("</".toList ++ name) ++ after ∧
    ∀ c ∈ after.head?, Text.isBlank c = true ∨ c = '/' ∨ c = '>'

theorem rawReading_longerName :
    (isScriptName "script".toList || isStyleName "script".toList) = true ∧
      parse "<script>a</scripts>b</script>".toList =
        ⟨⟨⟨0, 29⟩, [.text ⟨19, 20⟩ false],
          [⟨⟨0, 19⟩, ⟨8, 9⟩, .javaScript, .perInstance, []⟩], []⟩,
          [⟨.unexpectedClosingTag "script".toList, ⟨20, 28⟩⟩]⟩ := by
  have hname : (isScriptName "script".toList || isStyleName "script".toList) = true := by decide
  have hreading := rawReading "script".toList "a</scripts>b".toList [] hname
  refine ⟨hname, (hreading.cut "a".toList "s".toList "b".toList rfl (by decide) ?_).trans ?_⟩
  · exact ⟨by decide, by decide⟩
  · rfl

theorem not_hasClosingTag_longerName :
    ¬ HasClosingTag "script".toList "</scripts>".toList := by
  rintro ⟨before, after, htext, hbehind⟩
  cases before with
  | nil =>
    have hsplit : "</script".toList ++ "s>".toList = "</script".toList ++ after := htext
    obtain rfl := List.append_cancel_left hsplit
    exact absurd (hbehind 's' rfl) (by decide)
  | cons c before =>
    have hrest : "/scripts>".toList = before ++ ("</".toList ++ "script".toList) ++ after :=
      (List.cons.inj htext).2
    have hmem : '<' ∈ "/scripts>".toList := by
      rw [hrest]
      simp
    exact absurd hmem (by decide)

/-- A closing tag for a longer name ends the script, and the script's own closes nothing. -/
theorem longerName_ends_script :
    (¬ HasClosingTag "script".toList "</scripts>".toList ∧ (parse []).errors = []) ∧
      printRaw "script".toList "</scripts>".toList [] ++ [] =
        "<script></scripts></script>".toList ∧
      parse "<script></scripts></script>".toList =
        ⟨⟨⟨0, 27⟩, [], [⟨⟨0, 18⟩, ⟨8, 8⟩, .javaScript, .perInstance, []⟩], []⟩,
          [⟨.unexpectedClosingTag "script".toList, ⟨18, 26⟩⟩]⟩ ∧
      ¬ ((parse "<script></scripts></script>".toList).errors = [] ∧
        rawText? "script".toList "<script></scripts></script>".toList =
          some "</scripts>".toList) := by
  have hread : parse "<script></scripts></script>".toList =
      ⟨⟨⟨0, 27⟩, [], [⟨⟨0, 18⟩, ⟨8, 8⟩, .javaScript, .perInstance, []⟩], []⟩,
        [⟨.unexpectedClosingTag "script".toList, ⟨18, 26⟩⟩]⟩ := rfl
  refine ⟨⟨not_hasClosingTag_longerName, rfl⟩, rfl, hread, ?_⟩
  rw [hread]
  rintro ⟨hclean, -⟩
  cases hclean

end Blocks

end TypedComponent.Markup
