import TypedComponent.Proofs.Markup.Concatenation
import TypedComponent.Proofs.Markup.Loops

/-!
Reading as a descent into the elements. The children of an element are read part after
part, and where a part is an element, its own children are read within. Every part ends
further on and with the elements open that were open before it; the children end with
the element that they belong to, at its closing tag, before the closing tag of an element
further out, or at the end of the source. So reading comes to an end for every source,
and it has passed all of it by then.
-/

namespace TypedComponent.Markup

open Cursor (Reaches)

/-- A closing tag is at the cursor, and this is its name, which may be empty. -/
def ClosingTagAt (cursor : Cursor) (name : Text) : Prop :=
  ∃ behind, cursor.rest = '<' :: '/' :: behind ∧
    name = (behind.dropWhile isSeparator).takeWhile isNameChar

/-- What an open element keeps while its children are read. -/
def OpenElement.tag (element : OpenElement) : Nat × Text × List Attribute :=
  (element.start, element.name, element.attributes)

namespace Outline

/-- The open elements without their children, innermost first. -/
def tags (outline : Outline) : List (Nat × Text × List Attribute) :=
  outline.opened.map OpenElement.tag

theorem length_tags (outline : Outline) : outline.tags.length = outline.opened.length :=
  List.length_map _

@[simp] theorem add_tags (outline : Outline) (node : Node) :
    (outline.add node).tags = outline.tags := by
  unfold add
  split <;> simp_all [tags, OpenElement.tag]

@[simp] theorem advance_tags (outline : Outline) (errors : List Error) (cursor : Cursor) :
    (outline.advance errors cursor).tags = outline.tags := rfl

theorem close_tags {outline : Outline} {innermost : OpenElement} {outer : List OpenElement}
    (h : outline.opened = innermost :: outer) :
    outline.close.tags = outer.map OpenElement.tag := by
  unfold close
  rw [h]
  exact add_tags _ _

/-- What a step does to the open elements, and how far it gets. -/
inductive Motion (before after : Outline) : Prop
  /-- Nothing is left to do. -/
  | rests (finished : before.isFinished = true) (same : after = before)
  | stays (tags : after.tags = before.tags)
      (passes : before.cursor.offset < after.cursor.offset)
  | opens (tag : Nat × Text × List Attribute) (tags : after.tags = tag :: before.tags)
      (passes : before.cursor.offset < after.cursor.offset)
  | closes (tag : Nat × Text × List Attribute) (tags : before.tags = tag :: after.tags)

theorem step_of_isFinished {outline : Outline} (h : outline.isFinished = true) :
    outline.step = outline := by
  simp only [isFinished, Bool.and_eq_true, List.isEmpty_iff] at h
  rw [step_of_nil h.1, closeAtEnd, h.2]

theorem Step.motion {before after : Outline} (h : Step before after)
    (hmore : before.isFinished = false) : Motion before after := by
  have hreach := h.reaches
  cases h with
  | node errors cursor found reaches whole faults passes =>
    refine .stays (by simp) (hreach.offset_lt ?_)
    simpa [advance] using passes
  | script errors cursor block reaches span encloses tagged enclosed outermost faults passes =>
    exact .stays rfl (hreach.offset_lt passes)
  | style errors cursor block reaches span encloses enclosed outermost faults passes =>
    exact .stays rfl (hreach.offset_lt passes)
  | opening errors cursor element reaches children start opens faults passes =>
    exact .opens element.tag rfl (hreach.offset_lt (Nat.lt_of_succ_lt passes))
  | closing errors cursor reaches closes faults =>
    obtain ⟨innermost, outer, hopened, -⟩ := closes
    have hclosed : (before.advance errors cursor).opened = innermost :: outer := hopened
    refine .closes innermost.tag ?_
    rw [close_tags hclosed, tags, hopened, List.map_cons]
  | skipping errors cursor reaches faults skipped =>
    rcases skipped with ⟨-, hlt⟩ | ⟨hfinished, -⟩
    · exact .stays rfl (hreach.offset_lt hlt)
    · rw [hmore] at hfinished
      cases hfinished

theorem step_motion (outline : Outline) : Motion outline outline.step := by
  by_cases h : outline.isFinished = true
  · exact .rests h (step_of_isFinished h)
  · exact (step_spec outline).motion (Bool.eq_false_iff.mpr h)

/-- The loop over the children of the innermost element is left: nothing is left to
do, or the element is closed. -/
def Leaves (outline : Outline) : Prop :=
  outline.isFinished = true ∨ outline.step.opened.length < outline.opened.length

/-- A loop that is not left goes on, in the same element or in a new one. -/
theorem Motion.of_not_leaves {outline : Outline} (h : ¬ outline.Leaves) :
    outline.cursor.offset < outline.step.cursor.offset ∧
      (outline.step.tags = outline.tags ∨ ∃ tag, outline.step.tags = tag :: outline.tags) := by
  simp only [Leaves, not_or, ← length_tags] at h
  cases step_motion outline with
  | rests finished same => exact absurd finished h.1
  | stays tags passes => exact ⟨passes, .inl tags⟩
  | opens tag tags passes => exact ⟨passes, .inr ⟨tag, tags⟩⟩
  | closes tag tags =>
    rw [tags, List.length_cons] at h
    omega

theorem Leaves.tags {outline : Outline} (h : outline.Leaves) :
    outline.step.tags = outline.tags.tail := by
  cases step_motion outline with
  | rests finished same =>
    have hopened : outline.opened = [] := by simp_all [isFinished]
    rw [same]
    simp [Outline.tags, hopened]
  | stays tags passes =>
    rcases h with hfinished | hlt
    · rw [step_of_isFinished hfinished] at passes
      exact absurd passes (Nat.lt_irrefl _)
    · rw [← length_tags, ← length_tags, tags] at hlt
      exact absurd hlt (Nat.lt_irrefl _)
  | opens tag tags passes =>
    rcases h with hfinished | hlt
    · rw [step_of_isFinished hfinished] at passes
      exact absurd passes (Nat.lt_irrefl _)
    · rw [← length_tags, ← length_tags, tags, List.length_cons] at hlt
      omega
  | closes tag tags => rw [tags, List.tail_cons]

mutual

/-- One part is read, up to the place behind it: at once, or by the opening tag of an
element and then its children. -/
inductive PartRead : Outline → Outline → Prop
  | whole {before : Outline} (stays : ¬ before.Leaves) (same : before.step.tags = before.tags) :
      PartRead before before.step
  | element {before after : Outline} (stays : ¬ before.Leaves)
      (opens : before.step.tags ≠ before.tags) (children : ChildrenRead before.step after) :
      PartRead before after

/-- The children of the innermost open element are read, one part after another, up to
the place where the loop over them is left. -/
inductive ChildrenRead : Outline → Outline → Prop
  | leaves {before : Outline} (left : before.Leaves) : ChildrenRead before before.step
  | part {before between last : Outline} (first : PartRead before between)
      (others : ChildrenRead between last) : ChildrenRead before last

end

/-- How the children that are read from one place end at another: the loop over them is
left at a place where the same elements are open, and nothing else can be read. -/
structure ChildrenEnd (before last : Outline) : Prop where
  read : ChildrenRead before last
  only : ∀ {other : Outline}, ChildrenRead before other → other = last
  leads : Leads before last
  ends : ∃ final : Outline, Leads before final ∧ final.tags = before.tags ∧ final.Leaves ∧
    final.step = last
  unread_le : last.unread ≤ before.unread

theorem ChildrenEnd.tags {before last : Outline} (h : ChildrenEnd before last) :
    last.tags = before.tags.tail := by
  obtain ⟨final, -, htags, hleaves, rfl⟩ := h.ends
  rw [hleaves.tags, htags]

theorem leads_step (outline : Outline) : Leads outline outline.step := by
  by_cases h : outline.isFinished = true
  · rw [step_of_isFinished h]
    exact .refl
  · exact .single ⟨Bool.eq_false_iff.mpr h, rfl⟩

theorem unread_step_le (outline : Outline) : outline.step.unread ≤ outline.unread := by
  by_cases h : outline.isFinished = true
  · rw [step_of_isFinished h]
  · exact ((step_spec outline).unread_lt (Bool.eq_false_iff.mpr h)).le

section Cases

variable {before after last : Outline}

theorem ChildrenRead.eq_of_leaves (h : ChildrenRead before last) (hleaves : before.Leaves) :
    last = before.step := by
  cases h with
  | leaves _ => rfl
  | part first _ => cases first <;> contradiction

theorem ChildrenRead.exists_part (h : ChildrenRead before last) (hstays : ¬ before.Leaves) :
    ∃ between, PartRead before between ∧ ChildrenRead between last := by
  cases h with
  | leaves hleaves => exact absurd hleaves hstays
  | part first others => exact ⟨_, first, others⟩

theorem PartRead.eq_of_same (h : PartRead before after)
    (hsame : before.step.tags = before.tags) : after = before.step := by
  cases h with
  | whole _ _ => rfl
  | element _ opens _ => exact absurd hsame opens

theorem PartRead.children (h : PartRead before after)
    (hopens : before.step.tags ≠ before.tags) : ChildrenRead before.step after := by
  cases h with
  | whole _ same => exact absurd same hopens
  | element _ _ children => exact children

theorem ChildrenEnd.of_leaves (h : before.Leaves) : ChildrenEnd before before.step where
  read := .leaves h
  only hother := hother.eq_of_leaves h
  leads := leads_step before
  ends := ⟨before, .refl, rfl, h, rfl⟩
  unread_le := unread_step_le before

/-- What is read from behind a part on is what is read from before it on. -/
theorem ChildrenEnd.of_part {between : Outline} (hfirst : PartRead before between)
    (honly : ∀ {other}, PartRead before other → other = between) (hstays : ¬ before.Leaves)
    (hleads : Leads before between) (htags : between.tags = before.tags)
    (hunread : between.unread ≤ before.unread) (h : ChildrenEnd between last) :
    ChildrenEnd before last where
  read := .part hfirst h.read
  only hother := by
    obtain ⟨other, hpart, hothers⟩ := hother.exists_part hstays
    rw [honly hpart] at hothers
    exact h.only hothers
  leads := hleads.trans h.leads
  ends := by
    obtain ⟨final, hfinal, hsame, hends⟩ := h.ends
    exact ⟨final, hleads.trans hfinal, hsame.trans htags, hends⟩
  unread_le := h.unread_le.trans hunread

end Cases

/-- Children can be read from everywhere, since less is unread behind every part. -/
theorem exists_childrenEnd (before : Outline) : ∃ last, ChildrenEnd before last := by
  induction hunread : before.unread using Nat.strong_induction_on generalizing before with
  | _ unread ih =>
    subst hunread
    by_cases hleaves : before.Leaves
    · exact ⟨_, .of_leaves hleaves⟩
    have hmore : before.isFinished = false :=
      Bool.eq_false_iff.mpr fun hfinished => hleaves (.inl hfinished)
    have hless := (step_spec before).unread_lt hmore
    by_cases hsame : before.step.tags = before.tags
    · obtain ⟨last, hlast⟩ := ih _ hless _ rfl
      exact ⟨last, .of_part (.whole hleaves hsame) (·.eq_of_same hsame) hleaves
        (leads_step before) hsame hless.le hlast⟩
    · -- the children of the new element first, then what is behind it
      obtain ⟨between, hbetween⟩ := ih _ hless _ rfl
      have hbehind := Nat.lt_of_le_of_lt hbetween.unread_le hless
      obtain ⟨last, hlast⟩ := ih _ hbehind _ rfl
      obtain ⟨tag, htag⟩ := (Motion.of_not_leaves hleaves).2.resolve_left hsame
      have htags : between.tags = before.tags := by rw [hbetween.tags, htag, List.tail_cons]
      exact ⟨last, .of_part (.element hleaves hsame hbetween.read)
        (fun hother => hbetween.only (hother.children hsame)) hleaves
        ((leads_step before).trans hbetween.leads) htags hbehind.le hlast⟩

theorem ChildrenRead.childrenEnd {before last : Outline} (h : ChildrenRead before last) :
    ChildrenEnd before last := by
  obtain ⟨only, honly⟩ := exists_childrenEnd before
  rwa [honly.only h]

/-- A part ends further on, in the same elements. -/
theorem PartRead.spec {before after : Outline} (h : PartRead before after) :
    after.tags = before.tags ∧ before.cursor.Reaches after.cursor ∧
      before.cursor.offset < after.cursor.offset := by
  cases h with
  | whole stays same =>
    exact ⟨same, (leads_step before).reaches, (Motion.of_not_leaves stays).1⟩
  | element stays opens children =>
    have hend := children.childrenEnd
    obtain ⟨hpasses, hmotion⟩ := Motion.of_not_leaves stays
    obtain ⟨tag, htag⟩ := hmotion.resolve_left opens
    have hreach := hend.leads.reaches
    exact ⟨by rw [hend.tags, htag, List.tail_cons], (leads_step before).reaches.trans hreach,
      Nat.lt_of_lt_of_le hpasses hreach.offset_le⟩

theorem leaves_or_partRead (outline : Outline) :
    outline.Leaves ∨ ∃ after, PartRead outline after := by
  by_cases hleaves : outline.Leaves
  · exact .inl hleaves
  · obtain ⟨last, hlast⟩ := exists_childrenEnd outline
    obtain ⟨after, hpart, -⟩ := hlast.read.exists_part hleaves
    exact .inr ⟨after, hpart⟩

/-- Why the loop over the children of the innermost element is left. -/
inductive Ending (outline : Outline) : Prop
  /-- The source is at its end. -/
  | source (ended : outline.cursor.rest = []) (stays : outline.step.cursor = outline.cursor)
  /-- The closing tag of the element is passed. -/
  | own (innermost : OpenElement) (outer : List OpenElement)
      (opened : outline.opened = innermost :: outer)
      (tag : ClosingTagAt outline.cursor innermost.name)
      (passes : outline.cursor.offset < outline.step.cursor.offset)
  /-- The closing tag of an element further out is left for that element. -/
  | further (innermost : OpenElement) (outer : List OpenElement) (name : Text)
      (opened : outline.opened = innermost :: outer) (tag : ClosingTagAt outline.cursor name)
      (other : innermost.name ≠ name) (named : name ∈ outer.map OpenElement.name)
      (stays : outline.step.cursor = outline.cursor)

theorem readComment_opened_length (outline : Outline) (inside : Cursor) (mark : Text) :
    (outline.readComment inside mark).opened.length = outline.opened.length := by
  unfold readComment
  dsimp only
  split <;> simp [advance]

theorem readMustache_opened_length (outline : Outline) (kind : TokenKind) (inside : Cursor) :
    (outline.readMustache kind inside).opened.length = outline.opened.length := by
  unfold readMustache
  dsimp only
  split <;> simp [advance]

theorem addRaw_opened_length (outline : Outline) (name : Text) (attributes : List Attribute)
    (span content : Span) (blank : Bool) :
    (outline.addRaw name attributes span content blank).opened.length = outline.opened.length := by
  unfold addRaw
  split
  · exact add_opened_length _ _
  · split <;> rfl

theorem readElement_opened_length (outline : Outline) (afterSign : Cursor) :
    outline.opened.length ≤ (outline.readElement afterSign).opened.length := by
  have hend (name : Text) (attributes : Reading (List Attribute)) (ending : List Error)
      (stop : Cursor) (selfClosing : Bool) : outline.opened.length ≤
        (outline.endTag name attributes ending stop selfClosing).opened.length := by
    unfold endTag
    dsimp only
    split
    · rw [readRaw, addRaw_opened_length]
      exact Nat.le_refl _
    · split
      · rw [add_opened_length]
        exact Nat.le_refl _
      · exact Nat.le_succ _
  rw [readElement_eq]
  dsimp only
  split <;> exact hend _ _ _ _ _

/-- A closing tag that is not passed is left for an element further out. -/
theorem readClosingTag_ending {outline : Outline} {behind : Text}
    (hrest : outline.cursor.rest = '<' :: '/' :: behind)
    (hstep : outline.step = outline.readClosingTag (Token.readHere outline.cursor).2)
    (hshorter : outline.step.opened.length < outline.opened.length) : Ending outline := by
  have hleading : TokenKind.leading outline.cursor.rest = (.angleSlash, 2) := by
    rw [hrest]
    rfl
  have hafter := readHere_reaches outline.cursor
  have hbehind : (Token.readHere outline.cursor).2.rest = behind := by
    rw [readHere_rest hleading (by decide), hrest]
    rfl
  generalize (Token.readHere outline.cursor).2 = afterSign at hstep hafter hbehind
  have htag : ClosingTagAt outline.cursor (closingName afterSign) :=
    ⟨behind, hrest, by rw [← hbehind]; rfl⟩
  rw [readClosingTag_eq] at hstep
  dsimp only at hstep
  cases hopened : outline.opened with
  | nil =>
    rw [hopened] at hshorter
    exact absurd hshorter (Nat.not_lt_zero _)
  | cons innermost outer =>
    rw [hopened] at hstep hshorter
    dsimp only at hstep
    split at hstep
    · next hname =>
      refine .own innermost outer hopened (hname ▸ htag) ?_
      have hpast := hafter.offset_lt (by rw [hbehind, hrest]; simp only [List.length_cons]; omega)
      have hstop := (closingStop_reaches afterSign).trans
        (skipClosingTag_reaches (closingStop afterSign))
      rw [hstep, close_cursor]
      exact Nat.lt_of_lt_of_le hpast hstop.offset_le
    · next hname =>
      split at hstep
      · next hany =>
        refine .further innermost outer _ hopened htag hname ?_ (by rw [hstep, close_cursor]; rfl)
        simpa using hany
      · rw [hstep] at hshorter
        simp [advance, hopened] at hshorter

theorem Leaves.ending {outline : Outline} (h : outline.Leaves) : Ending outline := by
  rcases h with hfinished | hshorter
  · refine .source ?_ (by rw [step_of_isFinished hfinished])
    simp only [isFinished, Bool.and_eq_true, List.isEmpty_iff] at hfinished
    exact hfinished.1
  have hlonger : ¬ outline.opened.length ≤ outline.step.opened.length := Nat.not_le.mpr hshorter
  by_cases hrest : outline.cursor.rest = []
  · refine .source hrest ?_
    rw [step_of_nil hrest, closeAtEnd]
    split
    · rfl
    · rw [close_cursor]
      rfl
  by_cases hmarkup : startsMarkup outline.cursor.rest = true
  · have hstep := step_of_markup hmarkup
    have hkind := readHere_kind outline.cursor
    rcases startsMarkup_cases hmarkup with
      ⟨rest, hsign⟩ | ⟨rest, hsign⟩ | ⟨c, rest, hsign, hletter⟩ | ⟨rest, hsign⟩
    · rw [hkind, hsign] at hstep
      exact readClosingTag_ending hsign hstep hshorter
    · rw [hstep, hkind, hsign] at hlonger
      rcases leading_bang rest with hbang | hbang <;> rw [hbang] at hlonger
      all_goals exact absurd (readComment_opened_length _ _ _).ge hlonger
    · rw [hstep, hkind, hsign, leading_letter rest hletter] at hlonger
      exact absurd (readElement_opened_length _ _) hlonger
    · rw [hstep, readMarkup_brace (readHere_brace hsign).1] at hlonger
      exact absurd (readMustache_opened_length _ _ _).ge hlonger
  · rw [step_of_text hrest (Bool.eq_false_iff.mpr hmarkup), readText, add_opened_length] at hlonger
    exact absurd (Nat.le_refl _) hlonger

/-- What is still to be read, and then the elements that are still open. -/
def left (outline : Outline) : Nat × Nat :=
  (Text.bytes outline.cursor.rest, outline.opened.length)

theorem left_step_lt {outline : Outline} (hmore : outline.isFinished = false) :
    Prod.Lex (· < ·) (· < ·) outline.step.left outline.left := by
  have hbytes := (leads_step outline).reaches.finish_eq
  simp only [Cursor.finish, Cursor.mk.injEq, and_true] at hbytes
  have hread (hpasses : outline.cursor.offset < outline.step.cursor.offset) :
      Prod.Lex (· < ·) (· < ·) outline.step.left outline.left :=
    .left _ _ (show Text.bytes outline.step.cursor.rest < Text.bytes outline.cursor.rest by omega)
  cases (step_spec outline).motion hmore with
  | rests finished same =>
    rw [hmore] at finished
    cases finished
  | stays tags passes => exact hread passes
  | opens tag tags passes => exact hread passes
  | closes tag tags =>
    have hle := (leads_step outline).reaches.offset_le
    rcases Nat.lt_or_eq_of_le hle with hlt | heq
    · exact hread hlt
    · have hlength := congrArg List.length tags
      rw [List.length_cons, length_tags, length_tags] at hlength
      have hsame : Text.bytes outline.step.cursor.rest = Text.bytes outline.cursor.rest := by omega
      rw [left, left, hsame, hlength]
      exact .right _ (Nat.lt_succ_self _)

/-- The children of the document are all that the source holds. -/
theorem ChildrenRead.eq_outlineOf {source : Text} {last : Outline}
    (h : ChildrenRead (.ofSource source) last) : last = outlineOf source := by
  have hend := h.childrenEnd
  obtain ⟨final, hfinal, htags, hleaves, rfl⟩ := hend.ends
  have hnone : final.opened = [] := by simpa [tags, ofSource] using htags
  have hfinished : final.isFinished = true := by
    rcases hleaves with hfinished | hshorter
    · exact hfinished
    · rw [hnone] at hshorter
      exact absurd hshorter (Nat.not_lt_zero _)
  rw [step_of_isFinished hfinished]
  exact (hfinal.run_eq hfinished (parse_isFinished source)).symm

/-- What one pass of the loop over the children comes to, and what they all come to. -/
structure Descends (outline : Outline) : Prop where
  goes : outline.Leaves ∨ ∃ after, PartRead outline after
  part : ∀ {after}, PartRead outline after → after.tags = outline.tags ∧
    outline.cursor.Reaches after.cursor ∧ outline.cursor.offset < after.cursor.offset
  leaves : outline.Leaves → Ending outline ∧ outline.step.tags = outline.tags.tail
  children : ∃! last, ChildrenRead outline last
  ends : ∀ {last}, ChildrenRead outline last → ∃ final : Outline, final.tags = outline.tags ∧
    final.Leaves ∧ Ending final ∧ final.step = last
  decreases : outline.isFinished = false → Prod.Lex (· < ·) (· < ·) outline.step.left outline.left

theorem descends (outline : Outline) : Descends outline where
  goes := leaves_or_partRead outline
  part := PartRead.spec
  leaves h := ⟨h.ending, h.tags⟩
  children := by
    obtain ⟨last, hlast⟩ := exists_childrenEnd outline
    exact ⟨last, hlast.read, fun _ => hlast.only⟩
  ends h := by
    obtain ⟨final, -, htags, hleaves, hstep⟩ := h.childrenEnd.ends
    exact ⟨final, htags, hleaves, hleaves.ending, hstep⟩
  decreases := left_step_lt

end Outline

/-- Reading ends for every source. A pass of the loops over attributes, over values and
over children gets further on or leaves its loop, children are left before a closing tag
only if it is that of an element further out, and with the last of them the source is at
its end and nothing is open. -/
theorem reading_ends (source : Text) :
    LoopEnds id Attribute.listPass Attribute.readList ∧
      (∀ quote, LoopEnds id (Fragment.quotedPass quote) (Fragment.quotedParts quote)) ∧
      LoopEnds Fragment.UnquotedPlace.cursor Fragment.unquotedPass Fragment.unquotedParts ∧
      (∀ outline : Outline, outline.Descends) ∧
      ∃ last : Outline, Outline.ChildrenRead (.ofSource source) last ∧ last = outlineOf source ∧
        last.cursor = ⟨Text.bytes source, []⟩ ∧ last.opened = [] := by
  refine ⟨Attribute.readList_ends, Fragment.quotedParts_ends, Fragment.unquotedParts_ends,
    Outline.descends, ?_⟩
  obtain ⟨last, hlast⟩ := Outline.exists_childrenEnd (.ofSource source)
  have hall := hlast.read.eq_outlineOf
  have hfinished := outlineOf_finished source
  simp only [Outline.isFinished, Bool.and_eq_true, List.isEmpty_iff, ← hall] at hfinished
  have hoffset := hlast.leads.reaches.offset_of_rest_nil hfinished.1
  exact ⟨last, hlast.read, hall, congrArg₂ Cursor.mk hoffset hfinished.1, hfinished.2⟩

end TypedComponent.Markup
