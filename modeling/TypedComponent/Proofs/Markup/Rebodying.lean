import TypedComponent.Proofs.Markup.Concatenation
import TypedComponent.Proofs.Markup.StyleBlocks
import TypedComponent.Proofs.Text.Swap

/-!
Sources that differ in the body of one style block or of one comment. Neither
body is markup, so the reading of one source comes past the body where the
reading of the other does, as long as the body does not end early. Everything
else is read alike and lies at its place in the other source.
-/

namespace TypedComponent

namespace Text

/-- A text with other text in place of a span. -/
def replaced (source : Text) (span : Span) (text : Text) : Text :=
  takeBytes source span.start ++ text ++ dropBytes source span.stop

theorem replaced_of_append {source a m b : Text} {span : Span} (hsource : source = a ++ m ++ b)
    (hstart : span.start = bytes a) (hstop : span.stop = bytes a + bytes m) (text : Text) :
    replaced source span text = a ++ text ++ b := by
  unfold replaced
  rw [hstop, ← bytes_append, hsource, dropBytes_append, hstart, List.append_assoc a m b,
    takeBytes_append]

/-- In front of the first mark there is none. -/
theorem splitAt?_absent {mark text before found : Text} (hmark : mark ≠ [])
    (h : splitAt? mark text = some (before, found)) (a b : Text) : before ≠ a ++ mark ++ b := by
  induction text generalizing before a with
  | nil => simp [splitAt?, hmark] at h
  | cons c rest ih =>
    obtain ⟨htext, -⟩ := splitAt?_eq_some h
    unfold splitAt? at h
    split at h
    · cases h
      simp [hmark]
    · next hnone =>
      obtain ⟨⟨front, tail⟩, hsplit, hfront⟩ := Option.map_eq_some_iff.mp h
      obtain ⟨rfl, rfl⟩ := Prod.mk.inj hfront
      intro heq
      cases a with
      | nil =>
        refine hnone (startsWith_iff.mpr ?_)
        rw [htext, heq, List.nil_append, List.append_assoc]
        exact List.prefix_append mark _
      | cons d a => exact ih hsplit a (List.cons.inj heq).2

end Text

namespace Markup

open Cursor (Reaches)
open Relation (ReflTransGen)

/-- The name of the tag that begins at an offset, as it is written there. -/
def tagName (source : Text) (start : Nat) : Text :=
  (Text.dropBytes source (start + 1)).takeWhile isNameChar

/-- A source with the body of one style block or of one comment replaced. The
text put in does not end the block or the comment. -/
inductive Rebodied (source : Text) : Text → Prop
  | style {block : StyleBlock} (hblock : block ∈ (parse source).document.styles) (body : Text)
      (hbody : ¬ "</".toList ++ tagName source block.span.start <:+: body) :
      Rebodied source (Text.replaced source block.content body)
  | comment {span : Span} (hnode : .comment span ∈ (parse source).document.allNodes)
      (hopening : "<!--".toList <+: Text.dropBytes source span.start) (body : Text)
      (hbody : ¬ "-->".toList <:+: body) :
      Rebodied source (Text.replaced source ⟨span.start + 4, span.stop - 3⟩ body)

/-- Markup that begins with the same sign ends the text in front of it alike. -/
theorem Meets.of_markup {text text' : Text} (h : startsMarkup text = true)
    (h' : startsMarkup text' = true) (hhead : text.head? = text'.head?) : Meets text text' := by
  match text, text' with
  | c :: text, d :: text' =>
    obtain rfl : c = d := Option.some.inj hhead
    refine ⟨iff_of_false (List.cons_ne_nil _ _) (List.cons_ne_nil _ _), fun front => ?_⟩
    match front with
    | [] => exact h.trans h'.symm
    | [d] => exact startsMarkup_pair d c _ _
    | d :: e :: front => exact startsMarkup_pair d e _ _

namespace Outline

/-- Where a property begins to hold on the way. -/
theorem Leads.exists_step {P : Outline → Prop} {before after : Outline} (h : Leads before after)
    (hbefore : ¬ P before) (hafter : P after) :
    ∃ middle, Leads before middle ∧ middle.isFinished = false ∧ ¬ P middle ∧ P middle.step ∧
      Leads middle.step after := by
  induction h using ReflTransGen.head_induction_on with
  | refl => exact absurd hafter hbefore
  | @head before _ hstep hrest ih =>
    obtain ⟨hmore, rfl⟩ := hstep
    by_cases hnext : P before.step
    · exact ⟨_, ReflTransGen.refl, hmore, hbefore, hnext, hrest⟩
    · obtain ⟨middle, hlead, hmiddle⟩ := ih hnext
      exact ⟨middle, ReflTransGen.head ⟨hmore, rfl⟩ hlead, hmiddle⟩

theorem Leads.clean {before after : Outline} (h : Leads before after) (hclean : after.errors = []) :
    before.errors = [] :=
  List.suffix_nil.mp (hclean ▸ h.errors_suffix)

section Swapped

variable {swap : Swap} {a b : Text} {o o' last : Outline}

/-- Readings of both sources that have come past the stretch. What a style
block holds inside of itself is left open. -/
structure Rejoins (swap : Swap) (o o' : Outline) : Prop where
  cursor : o.cursor.Twin swap.place [] [] o'.cursor
  opened : o'.opened = o.opened.map (·.renumbered swap.place)
  nodes : o'.nodes = o.nodes.map (·.renumbered swap.place)
  scripts : o'.scripts = o.scripts.map (·.renumbered swap.place)
  styles : o'.styles.map StyleBlock.span = o.styles.map (·.span.renumbered swap.place)
  errors : o'.errors = o.errors.map (·.renumbered swap.place)

/-- From there on they read the same. -/
theorem Rejoins.leads (h : Rejoins swap o o') (hlead : Leads o last) :
    ∃ last', Leads o' last' ∧ Rejoins swap last last' := by
  have hstart : o.Twin swap.place [] [] o o' o' :=
    ⟨h.cursor, h.opened, .refl, .refl, .refl, .refl⟩
  obtain ⟨last', hlead', htwin⟩ := hlead.twin hstart (.inl ⟨rfl, rfl⟩)
    fun _ _ _ _ _ _ _ => Meets.refl _
  obtain ⟨hcursor, hopened, ⟨nodes, hnodes, hnodes'⟩, ⟨scripts, hscripts, hscripts'⟩,
    ⟨styles, hstyles, hstyles'⟩, ⟨errors, herrors, herrors'⟩⟩ := htwin
  refine ⟨last', hlead', hcursor, hopened, ?_, ?_, ?_, ?_⟩
  · rw [hnodes, hnodes', h.nodes, List.map_append]
  · rw [hscripts, hscripts', h.scripts, List.map_append]
  · rw [hstyles, hstyles', List.map_append, h.styles, List.map_append, List.map_map]
    rfl
  · rw [herrors, herrors', h.errors, List.map_append]

theorem Rejoins.of_twin
    (h : o.Twin swap.place [] [] (.ofSource a) (.ofSource b) o') : Rejoins swap o o' where
  cursor := h.cursor
  opened := h.opened
  nodes := h.nodes.eq_map.trans (List.append_nil _)
  scripts := h.scripts.eq_map.trans (List.append_nil _)
  styles := by
    rw [h.styles.eq_map, List.map_append, List.map_map]
    exact List.append_nil _
  errors := h.errors.eq_map.trans (List.append_nil _)

theorem Twin.past {place : Nat → Nat} {rest rest' tail tail' : Text} {first second : Outline}
    {cursor cursor' : Cursor} (h : o.Twin place rest rest' first second o')
    (hcursor : cursor.Twin place tail tail' cursor') :
    (o.advance [] cursor).Twin place tail tail' first second (o'.advance [] cursor') :=
  ⟨hcursor, h.opened, h.nodes, h.scripts, h.styles, h.errors⟩

/-- The end of the stretch, in both sources. -/
theorem twin_stop (swap : Swap) {cursor cursor' : Cursor}
    (hcursor : cursor = ⟨swap.span.stop, swap.after⟩)
    (hcursor' : cursor' = ⟨Text.bytes swap.before + Text.bytes swap.new, swap.after⟩) :
    cursor.Twin swap.place [] [] cursor' := by
  rw [hcursor, hcursor']
  exact ⟨swap.after, (List.append_nil _).symm, (List.append_nil _).symm,
    fun count _ => swap.place_behind count⟩

/-- In front of the stretch both sources are read alike. -/
theorem Leads.exists_twin {middle : Outline} (hlead : Leads (.ofSource swap.first) middle)
    (hclean : middle.errors = []) (hrest : middle.cursor.rest = swap.old ++ swap.after)
    (hmeets : Meets (swap.old ++ swap.after) (swap.new ++ swap.after)) :
    ∃ middle', Leads (.ofSource swap.second) middle' ∧
      middle.Twin swap.place (swap.old ++ swap.after) (swap.new ++ swap.after)
        (.ofSource swap.first) (.ofSource swap.second) middle' := by
  have hstart : (ofSource swap.first).Twin swap.place (swap.old ++ swap.after)
      (swap.new ++ swap.after) (.ofSource swap.first) (.ofSource swap.second)
      (.ofSource swap.second) := by
    refine ⟨⟨swap.before, List.append_assoc .., List.append_assoc .., fun count hcount => ?_⟩,
      rfl, .refl, .refl, .refl, .refl⟩
    exact swap.place_of_le ((Nat.zero_add count).symm ▸ hcount)
  refine hlead.twin hstart (.inr ⟨hclean, hrest ▸ List.suffix_rfl⟩) ?_
  exact fun _ _ _ _ _ behind _ => hmeets.behind behind

/-- The places where the readings come to the stretch. -/
theorem Twin.cursor_eq {first second middle middle' : Outline}
    (h : middle.Twin swap.place (swap.old ++ swap.after) (swap.new ++ swap.after) first second
      middle')
    (hcursor : middle.cursor = ⟨Text.bytes swap.before, swap.old ++ swap.after⟩) :
    middle'.cursor = ⟨Text.bytes swap.before, swap.new ++ swap.after⟩ := by
  refine h.cursor.unique ⟨[], ?_, rfl, fun count hcount => ?_⟩
  · rw [hcursor]
    rfl
  · rw [Nat.le_zero.mp hcount, hcursor]
    exact swap.place_start

/-- A comment whose body is replaced is still one comment. -/
theorem Rejoins.of_comment {body body' : Text} (hold : swap.old = (Written.comment body).print)
    (hnew : swap.new = (Written.comment body').print) (h : (Written.comment body).WellFormed)
    (h' : (Written.comment body').WellFormed) {middle middle' : Outline}
    (hcursor : middle.cursor = ⟨Text.bytes swap.before, swap.old ++ swap.after⟩)
    (htwin : middle.Twin swap.place (swap.old ++ swap.after) (swap.new ++ swap.after)
      (.ofSource swap.first) (.ofSource swap.second) middle') :
    Rejoins swap middle.step middle'.step := by
  have hcursor' := htwin.cursor_eq hcursor
  rw [hold] at hcursor
  rw [hnew] at hcursor'
  have hstop : Cursor.Twin swap.place [] []
      ⟨Text.bytes swap.before + Text.bytes swap.old, swap.after⟩
      ⟨Text.bytes swap.before + Text.bytes swap.new, swap.after⟩ :=
    twin_stop swap rfl rfl
  have hadded := (htwin.past hstop).add (.comment swap.span)
  have hplace : Written.place (Text.bytes swap.before) (.comment body) = .comment swap.span := by
    rw [Written.place, Text.spanAt, ← hold]
    rfl
  have hplace' : Written.place (Text.bytes swap.before) (.comment body') =
      (Node.comment swap.span).renumbered swap.place := by
    rw [Written.place, Text.spanAt, ← hnew, Node.renumbered, Span.renumbered, swap.place_start,
      swap.place_stop]
  rw [step_comment h hcursor, step_comment h' hcursor']
  unfold put
  rw [hplace, hplace', ← hold, ← hnew]
  exact .of_twin hadded

end Swapped


section Readings

variable {swap : Swap}

/-- A style block whose body is replaced is still one block. -/
theorem Rejoins.of_style {name body : Text} {inside found stop : Cursor} {middle middle' : Outline}
    (h : ReadsStyle middle.cursor name inside found stop)
    (hbody : ∀ a b, body ≠ a ++ "</".toList ++ name ++ b) (hopened : middle.opened = [])
    (hplace : middle.cursor.offset = Text.bytes swap.before)
    (hold : swap.old = middle.cursor.textTo inside ++ inside.textTo found ++ found.textTo stop)
    (hnew : swap.new = middle.cursor.textTo inside ++ body ++ found.textTo stop)
    (hafter : swap.after = stop.rest)
    (htwin : middle.Twin swap.place (swap.old ++ swap.after) (swap.new ++ swap.after)
      (.ofSource swap.first) (.ofSource swap.second) middle') :
    Rejoins swap middle.step middle'.step := by
  have hcursor : middle.cursor = ⟨Text.bytes swap.before, swap.old ++ swap.after⟩ := by
    rw [← hplace, hold, hafter, ← h.textTo_stop]
  have hcursor' := htwin.cursor_eq hcursor
  have h' := h.rebodied hbody
  have hstart : (⟨middle.cursor.offset,
      middle.cursor.textTo inside ++ (body ++ (found.textTo stop ++ stop.rest))⟩ : Cursor) =
        middle'.cursor := by
    rw [hcursor', ← hplace, hnew, hafter]
    simp only [List.append_assoc]
  rw [hstart] at h'
  have hopened' : middle'.opened = [] := by rw [htwin.opened, hopened, List.map_nil]
  have hinside := (Reaches.next middle.cursor).trans h.reaches.1
  have hstop : stop = ⟨swap.span.stop, swap.after⟩ := by
    rw [hafter, Swap.span, hold, ← hplace, ← h.stop_offset]
  have hstop' : (⟨inside.offset + Text.bytes body + Text.bytes (found.textTo stop),
      stop.rest⟩ : Cursor) = ⟨Text.bytes swap.before + Text.bytes swap.new, swap.after⟩ := by
    rw [hafter, hnew, Text.bytes_append, Text.bytes_append, hinside.offset_eq, hplace]
    simp only [← Nat.add_assoc]
  have hpassed := Rejoins.of_twin (htwin.past (twin_stop swap hstop hstop'))
  rw [step_style h hopened, step_style h' hopened']
  refine { hpassed with styles := ?_ }
  have hspan : middle'.cursor.upTo ⟨inside.offset + Text.bytes body +
      Text.bytes (found.textTo stop), stop.rest⟩ =
        (middle.cursor.upTo stop).renumbered swap.place := by
    rw [hstop', hcursor', hcursor, hstop, Cursor.upTo, Cursor.upTo, Span.renumbered,
      swap.place_stop]
    exact congrArg (Span.mk · _) swap.place_start.symm
  rw [List.map_cons, List.map_cons, ← hspan]
  exact congrArg (_ :: ·) hpassed.styles

/-- The second text is read as the first, with everything at its place there.
The stretch is a comment or a style block of the first. -/
structure Reread (swap : Swap) : Prop where
  errors : (parse swap.second).errors = []
  nodes : (parse swap.second).document.nodes =
    (parse swap.first).document.nodes.map (·.renumbered swap.place)
  scripts : (parse swap.second).document.scripts =
    (parse swap.first).document.scripts.map (·.renumbered swap.place)
  styles : (parse swap.second).document.styles.map StyleBlock.span =
    (parse swap.first).document.styles.map (·.span.renumbered swap.place)
  is_cut : (parse swap.first).document.IsCut swap.span

/-- Once both readings are past the stretch, they come to the same end. -/
theorem Rejoins.reread {middle middle' : Outline} (h : Rejoins swap middle middle')
    (hlead : Leads middle (outlineOf swap.first))
    (hlead' : Leads (.ofSource swap.second) middle') (hclean : (parse swap.first).errors = [])
    (hcut : (parse swap.first).document.IsCut swap.span) : Reread swap := by
  obtain ⟨last, hlast, hrejoins⟩ := h.leads hlead
  have hfinished : last.isFinished = true := by
    have hend := outlineOf_finished swap.first
    rw [isFinished] at hend ⊢
    rw [hrejoins.cursor.rest_eq, hrejoins.opened, List.isEmpty_map]
    exact hend
  have hall : Leads (.ofSource swap.second) last := hlead'.trans hlast
  have hsecond : outlineOf swap.second = last :=
    hall.run_eq hfinished (parse_isFinished swap.second)
  have hfaults : (outlineOf swap.first).errors = [] := List.reverse_eq_nil_iff.mp hclean
  refine ⟨?_, ?_, ?_, ?_, hcut⟩ <;> rw [parse_eq, hsecond]
  · dsimp only
    rw [hrejoins.errors, hfaults]
    rfl
  · dsimp only
    rw [hrejoins.nodes, ← List.map_reverse]
    rfl
  · dsimp only
    rw [hrejoins.scripts, ← List.map_reverse]
    rfl
  · dsimp only
    rw [List.map_reverse, hrejoins.styles, ← List.map_reverse]
    rfl

/-- What both sources owe at the stretch is a step past it. -/
theorem Reread.of_step {middle : Outline} (hlead : Leads (.ofSource swap.first) middle)
    (hclean : (parse swap.first).errors = []) (hmiddle : middle.errors = [])
    (hcursor : middle.cursor = ⟨Text.bytes swap.before, swap.old ++ swap.after⟩)
    (hmeets : Meets (swap.old ++ swap.after) (swap.new ++ swap.after))
    (hstep : ∀ middle', middle.Twin swap.place (swap.old ++ swap.after) (swap.new ++ swap.after)
      (.ofSource swap.first) (.ofSource swap.second) middle' →
        Rejoins swap middle.step middle'.step)
    (hlast : Leads middle.step (outlineOf swap.first))
    (hcut : (parse swap.first).document.IsCut swap.span) : Reread swap := by
  obtain ⟨middle', hlead', htwin⟩ := hlead.exists_twin hmiddle (by rw [hcursor]) hmeets
  have hmore : middle'.isFinished = false := isFinished_of_cursor (htwin.cursor_eq hcursor)
    (List.append_ne_nil_of_left_ne_nil swap.new_ne _)
  exact (hstep middle' htwin).reread hlast (hlead'.tail ⟨hmore, rfl⟩) hclean hcut

/-- Where a comment or a style block of a source is read. -/
theorem exists_reading {source : Text} {P : Outline → Prop} (hbefore : ¬ P (.ofSource source))
    (hafter : P (outlineOf source)) (hclean : (parse source).errors = []) :
    ∃ passed middle, source = passed ++ middle.cursor.rest ∧
      middle.cursor.offset = Text.bytes passed ∧ Leads (.ofSource source) middle ∧
      middle.errors = [] ∧ middle.step.errors = [] ∧ middle.isFinished = false ∧ ¬ P middle ∧
      P middle.step ∧ Leads middle.step (outlineOf source) := by
  have hfaults : (outlineOf source).errors = [] := List.reverse_eq_nil_iff.mp hclean
  obtain ⟨middle, hlead, hmore, hnot, hstep, hlast⟩ :=
    (outlineOf_leads source).exists_step hbefore hafter
  obtain ⟨passed, hpassed, hoffset⟩ := hlead.reaches
  have hrest : Leads middle (outlineOf source) := ReflTransGen.head ⟨hmore, rfl⟩ hlast
  exact ⟨passed, middle, hpassed, hoffset.trans (Nat.zero_add _), hlead, hrest.clean hfaults,
    hlast.clean hfaults, hmore, hnot, hstep, hlast⟩

end Readings

end Outline

open Outline

theorem not_infix_iff {mark text : Text} :
    (¬ mark <:+: text) ↔ ∀ a b, text ≠ a ++ mark ++ b := by
  simp only [List.IsInfix, not_exists, ne_eq, eq_comm]

/-- A source with the body of a style block replaced is read as it was before. -/
theorem exists_swap_of_style {source body : Text} {block : StyleBlock}
    (hblock : block ∈ (parse source).document.styles)
    (hbody : ∀ a b, body ≠ a ++ ("</".toList ++ tagName source block.span.start) ++ b)
    (hclean : (parse source).errors = []) :
    ∃ swap : Swap, swap.first = source ∧
      swap.second = Text.replaced source block.content body ∧ Reread swap := by
  have hmem : block ∈ (outlineOf source).styles := List.mem_reverse.mp hblock
  obtain ⟨passed, middle, hsource, hoffset, hlead, hmiddle, hstep, hmore, hold, hnew, hlast⟩ :=
    exists_reading (P := fun outline => block ∈ outline.styles) List.not_mem_nil hmem hclean
  obtain ⟨hopened, name, inside, found, stop, hreads⟩ := readsStyle_of_step hstep hold hnew
  have hreached : block = ⟨middle.cursor.upTo stop, inside.upTo found,
      (tagAttributes middle.cursor.next).value⟩ := by
    rw [step_style hreads hopened] at hnew
    exact (List.mem_cons.mp hnew).resolve_right hold
  obtain ⟨more, hmoreText⟩ := hreads.textTo_inside
  obtain ⟨hnextInside, hfound, -, -, -⟩ := hreads.reaches
  have hinside := (Reaches.next middle.cursor).trans hnextInside
  have hname : tagName source block.span.start = name := by
    obtain ⟨c, rest, hrest, -⟩ := hreads.sign
    have hsplit : source = passed ++ ['<'] ++ (c :: rest) := by
      rw [hsource, hrest, List.append_assoc]
      rfl
    have hplace : block.span.start + 1 = Text.bytes (passed ++ ['<']) := by
      rw [hreached, Text.bytes_append, ← hoffset]
      rfl
    rw [tagName, hplace, hsplit, Text.dropBytes_append, ← hreads.name_eq, Cursor.next, hrest]
    rfl
  simp only [hname, ← List.append_assoc] at hbody
  have hreads' := hreads.rebodied hbody
  have hne (text : Text) : middle.cursor.textTo inside ++ text ++ found.textTo stop ≠ [] := by
    simp [hmoreText]
  let swap : Swap := ⟨passed,
    middle.cursor.textTo inside ++ inside.textTo found ++ found.textTo stop,
    middle.cursor.textTo inside ++ body ++ found.textTo stop, stop.rest, hne _, hne _⟩
  have hcursor : middle.cursor = ⟨Text.bytes swap.before, swap.old ++ swap.after⟩ := by
    rw [← hoffset, ← hreads.textTo_stop]
  have hfirst : swap.first = source := by
    rw [hsource, hcursor, Swap.first, List.append_assoc]
  have hsecond : swap.second = Text.replaced source block.content body := by
    rw [Text.replaced_of_append (a := passed ++ middle.cursor.textTo inside)
      (m := inside.textTo found) (b := found.textTo stop ++ stop.rest)]
    · simp only [swap, Swap.second, List.append_assoc]
    · rw [← hfirst]
      simp only [swap, Swap.first, List.append_assoc]
    · rw [hreached, Text.bytes_append, ← hoffset, ← hinside.offset_eq]
      rfl
    · rw [hreached, Text.bytes_append, ← hoffset, ← hinside.offset_eq, ← hfound.offset_eq]
      rfl
  have hmeets : Meets (swap.old ++ swap.after) (swap.new ++ swap.after) := by
    have hold : swap.old ++ swap.after = middle.cursor.rest := by rw [hcursor]
    have hnew : swap.new ++ swap.after =
        middle.cursor.textTo inside ++ (body ++ (found.textTo stop ++ stop.rest)) := by
      simp only [swap, List.append_assoc]
    refine Meets.of_markup (hold ▸ hreads.startsMarkup) (hnew ▸ hreads'.startsMarkup) ?_
    simp only [swap, hmoreText, List.cons_append, List.head?_cons]
  have hcut : (parse source).document.IsCut swap.span := by
    refine .inr ⟨block, hblock, ?_⟩
    rw [hreached, Cursor.upTo, hreads.stop_offset, hoffset]
    rfl
  refine ⟨swap, hfirst, hsecond, ?_⟩
  rw [← hfirst] at hlead hclean hlast hcut
  exact .of_step hlead hclean hmiddle hcursor hmeets
    (fun _ => Rejoins.of_style hreads hbody hopened hoffset rfl rfl rfl) hlast hcut

/-- Behind the sign of a comment a reading without faults finds its end. -/
theorem exists_comment {outline : Outline} (hopening : "<!--".toList <+: outline.cursor.rest)
    (hclean : outline.step.errors = []) :
    ∃ body after, outline.cursor.rest = (Written.comment body).print ++ after ∧
      (Written.comment body).WellFormed := by
  obtain ⟨tail, htail⟩ := hopening
  have hread : outline.step =
      outline.readComment ⟨outline.cursor.offset + 4, tail⟩ "-->".toList := by
    unfold step Token.readHere
    rw [← htail]
    rfl
  rw [hread, readComment] at hclean
  split at hclean
  · next found hfound =>
    obtain ⟨⟨body, behind⟩, hsplit, -⟩ := Option.map_eq_some_iff.mp hfound
    obtain ⟨hbody, after, hafter⟩ := Text.splitAt?_eq_some hsplit
    have hbody : tail = body ++ behind := hbody
    refine ⟨body, after, ?_, Text.splitAt?_absent (List.cons_ne_nil _ _) hsplit⟩
    rw [← htail, hbody, hafter, Written.print]
    simp only [List.append_assoc]
  · cases (add_errors _ _).symm.trans hclean

/-- A source with the body of a comment replaced is read as it was before. -/
theorem exists_swap_of_comment {source body : Text} {span : Span}
    (hnode : .comment span ∈ (parse source).document.allNodes)
    (hopening : "<!--".toList <+: Text.dropBytes source span.start)
    (hbody : ∀ a b, body ≠ a ++ "-->".toList ++ b) (hclean : (parse source).errors = []) :
    ∃ swap : Swap, swap.first = source ∧
      swap.second = Text.replaced source ⟨span.start + 4, span.stop - 3⟩ body ∧ Reread swap := by
  have hcutAfter : (outlineOf source).IsCut span := isCut_of_parse (.inl hnode)
  have hcutBefore : ¬ (Outline.ofSource source).IsCut span := by
    simp [Outline.IsCut, Outline.HasComment, Outline.ofSource]
  obtain ⟨passed, middle, hsource, hoffset, hlead, hmiddle, hstep, hmore, hold, hnew, hlast⟩ :=
    exists_reading (P := fun outline => outline.IsCut span) hcutBefore hcutAfter hclean
  have hspan := ((step_spec middle).isCut hnew).resolve_left hold
  have hrest : Text.dropBytes source span.start = middle.cursor.rest := by
    rw [hspan, hsource, Cursor.upTo, hoffset, Text.dropBytes_append]
  rw [hrest] at hopening
  obtain ⟨own, after, hcomment, hown⟩ := exists_comment hopening hstep
  let swap : Swap := ⟨passed, (Written.comment own).print, (Written.comment body).print, after,
    List.cons_ne_nil _ _, List.cons_ne_nil _ _⟩
  have hcursor : middle.cursor = ⟨Text.bytes swap.before, swap.old ++ swap.after⟩ := by
    rw [← hoffset, ← hcomment]
  have hstop : span.stop = span.start + Text.bytes (Written.comment own).print := by
    rw [hspan, step_comment hown hcursor, Outline.put, add_cursor, Cursor.upTo, hoffset]
    rfl
  have hfirst : swap.first = source := by
    rw [hsource, hcursor, Swap.first, List.append_assoc]
  have hstart : span.start = Text.bytes passed := by rw [hspan, ← hoffset, Cursor.upTo]
  have hbytes : Text.bytes (Written.comment own).print = 4 + Text.bytes own + 3 := by
    simp only [Written.print, Text.bytes_append]
    rfl
  have hsecond : swap.second = Text.replaced source ⟨span.start + 4, span.stop - 3⟩ body := by
    rw [Text.replaced_of_append (a := passed ++ "<!--".toList) (m := own)
      (b := "-->".toList ++ after)]
    · simp only [swap, Swap.second, Written.print, List.append_assoc]
    · rw [← hfirst]
      simp only [swap, Swap.first, Written.print, List.append_assoc]
    · rw [Text.bytes_append, hstart]
      rfl
    · rw [Text.bytes_append, hstop, hstart, hbytes]
      exact Nat.sub_eq_of_eq_add (by simp only [Nat.add_assoc]; rfl)
  have hcut : (parse source).document.IsCut swap.span := by
    have hplace : swap.span = span := by
      rw [Swap.span, ← hstart, ← hstop]
    exact .inl (hplace ▸ hnode)
  refine ⟨swap, hfirst, hsecond, ?_⟩
  rw [← hfirst] at hlead hclean hlast hcut
  exact .of_step hlead hclean hmiddle hcursor (Meets.of_markup rfl rfl rfl)
    (fun _ => Rejoins.of_comment rfl rfl hown hbody hcursor) hlast hcut

/-- With another body of a style block or of a comment, a source is read as it
was before. -/
theorem Rebodied.exists_swap {source changed : Text} (h : Rebodied source changed)
    (hclean : (parse source).errors = []) :
    ∃ swap : Swap, swap.first = source ∧ swap.second = changed ∧ Reread swap := by
  cases h with
  | style hblock body hbody => exact exists_swap_of_style hblock (not_infix_iff.mp hbody) hclean
  | comment hnode hopening body hbody =>
    exact exists_swap_of_comment hnode hopening (not_infix_iff.mp hbody) hclean

end Markup

end TypedComponent
