import TypedComponent.Proofs.Markup.Concatenation

/-!
Markup in an element. A source that is read without a fault is read the same with
markup behind it, since markup also ends a text at its end. With an element open
around it, what were the nodes of the document become the children of the element,
where the reading of the source puts nothing elsewhere.
-/

namespace TypedComponent

theorem Cursor.Reaches.eq_finish {start stop : Cursor} (h : start.Reaches stop)
    (hend : stop.rest = []) : stop = start.finish := by
  obtain ⟨passed, hrest, hoffset⟩ := h
  rw [hend, List.append_nil] at hrest
  obtain ⟨offset, text⟩ := stop
  simp_all [Cursor.finish]

namespace Markup

open Cursor (Reaches)
open Relation (ReflTransGen)

/-- Markup behind a text makes no markup of its end. -/
theorem startsMarkup_append {text tail : Text} (hne : text ≠ []) (htail : startsMarkup tail = true) :
    startsMarkup (text ++ tail) = startsMarkup text := by
  match text with
  | [] => exact absurd rfl hne
  | [c] =>
    rcases startsMarkup_cases htail with ⟨_, rfl⟩ | ⟨_, rfl⟩ | ⟨_, _, rfl, -⟩ | ⟨_, rfl⟩
    all_goals
      by_cases hbrace : c = '\x7b'
      · subst hbrace
        rfl
      · by_cases hangle : c = '<'
        · subst hangle
          rfl
        · simp [startsMarkup, hbrace, hangle]
  | c :: d :: text => exact startsMarkup_pair c d _ _

/-- A text that goes on to the end of a source goes on to the markup behind it. -/
theorem nextMarkup_append {offset : Nat} {text tail : Text}
    (h : (nextMarkup offset text).rest = []) (htail : startsMarkup tail = true) (offset' : Nat) :
    nextMarkup offset' (text ++ tail) = ⟨offset' + Text.bytes text, tail⟩ := by
  induction text generalizing offset offset' with
  | nil =>
    obtain ⟨c, behind, rfl⟩ : ∃ c behind, tail = c :: behind :=
      List.exists_cons_of_ne_nil fun hnil => by
        rw [hnil] at htail
        cases htail
    rw [List.nil_append, nextMarkup, if_pos htail]
    rfl
  | cons c text ih =>
    have hnot : ¬ startsMarkup (c :: text) = true := by
      intro hstarts
      rw [nextMarkup, if_pos hstarts] at h
      cases h
    have hnot' : ¬ startsMarkup (c :: (text ++ tail)) = true := by
      rwa [← List.cons_append, startsMarkup_append (List.cons_ne_nil _ _) htail]
    rw [nextMarkup, if_neg hnot] at h
    rw [List.cons_append, nextMarkup, if_neg hnot', ih h, Text.bytes_cons, Nat.add_assoc]

namespace Outline

section BeforeMarkup

variable {place : Nat → Nat} {tail : Text} {first second o o' last : Outline}

theorem step_text_cursor (hmore : o.cursor.rest ≠ [])
    (hnone : startsMarkup o.cursor.rest = false) :
    o.step.cursor = nextMarkup o.cursor.next.offset o.cursor.next.rest := by
  rw [step_of_text hmore hnone]
  exact add_cursor _ _

/-- A text at the end of the source ends before markup too. -/
theorem step_lastText_twin (h : o.Twin place [] tail first second o')
    (htail : startsMarkup tail = true) (hmore : o.cursor.rest ≠ [])
    (hnone : startsMarkup o.cursor.rest = false) (hend : o.step.cursor.rest = []) :
    o.step.Twin place [] tail first second o'.step := by
  obtain ⟨c, behind, hrest⟩ := List.exists_cons_of_ne_nil hmore
  have hall : o.cursor.rest = o.cursor.rest ++ ([] ++ []) := by simp
  obtain ⟨hrest', htwin⟩ := h.cursor.pass hall
  rw [List.nil_append] at hrest' htwin
  have hnone' : startsMarkup o'.cursor.rest = false := by
    rw [hrest', startsMarkup_append hmore htail, hnone]
  have hmore' : o'.cursor.rest ≠ [] := by
    rw [hrest']
    exact List.append_ne_nil_of_left_ne_nil hmore _
  have hstop : o.step.cursor = ⟨o.cursor.offset + Text.bytes o.cursor.rest, []⟩ :=
    (step_spec o).reaches.eq_finish hend
  have hcursor := step_text_cursor hmore hnone
  rw [hcursor, Cursor.next, hrest] at hend
  rw [step_of_text hmore hnone] at hstop ⊢
  rw [step_of_text hmore' hnone']
  rw [← hstop] at htwin
  refine readText_twin_of_stop h htwin ?_
  rw [Cursor.next, hrest', hrest]
  dsimp only [List.cons_append]
  rw [nextMarkup_append hend htail, Nat.add_assoc]
  rfl

/-- A source that is read without a fault is read in the same steps before markup. -/
theorem Leads.before_markup (hlead : Leads o last) (h : o.Twin place [] tail first second o')
    (htail : startsMarkup tail = true) (hclean : last.errors = []) :
    ∃ last', Leads o' last' ∧ last.Twin place [] tail first second last' := by
  induction hlead using ReflTransGen.head_induction_on generalizing o' with
  | refl => exact ⟨o', ReflTransGen.refl, h⟩
  | @head o _ hstep hrest ih =>
    obtain ⟨hmore, rfl⟩ := hstep
    have herrors : o.step.errors = [] := by
      have hsuffix := errors_suffix hrest
      rw [hclean] at hsuffix
      exact List.suffix_nil.mp hsuffix
    have htwin : o.step.Twin place [] tail first second o'.step := by
      by_cases hlast : o.cursor.rest ≠ [] ∧ startsMarkup o.cursor.rest = false ∧
          o.step.cursor.rest = []
      · exact step_lastText_twin h htail hlast.1 hlast.2.1 hlast.2.2
      · refine step_twin h hmore (.inr ⟨herrors, List.nil_suffix⟩) fun hnone behind hbehind => ?_
        have hrest : o.cursor.rest ≠ [] := by
          intro hnil
          obtain ⟨innermost, outer, hopened⟩ :=
            List.exists_cons_of_ne_nil (opened_of_nil hmore hnil)
          rw [step_of_nil hnil] at herrors
          exact closeAtEnd_errors hopened herrors
        have hmarkup : startsMarkup behind = true := by
          have hcursor := step_text_cursor hrest hnone
          rw [List.append_nil] at hbehind
          rcases nextMarkup_rest o.cursor.next.offset o.cursor.next.rest with hend | hstarts
          · rw [← hcursor] at hend
            exact absurd ⟨hrest, hnone, hend⟩ hlast
          · rwa [← hcursor, hbehind] at hstarts
        rw [List.append_nil]
        exact Meets.of_startsMarkup hmarkup tail
    obtain ⟨last', hlead', hlast⟩ := ih htwin
    have hmore' := Outline.Twin.isFinished h hmore (.inr List.nil_suffix)
    exact ⟨last', ReflTransGen.head ⟨hmore', rfl⟩ hlead', hlast⟩

end BeforeMarkup

section Inside

variable {o last : Outline} {host : OpenElement}

/-- The outline with an element open around everything; the nodes are its children. -/
def inside (host : OpenElement) (outline : Outline) : Outline :=
  { outline with
    opened := outline.opened ++ [{ host with children := outline.nodes }]
    nodes := [] }

theorem inside_add (node : Node) : (o.inside host).add node = (o.add node).inside host := by
  unfold add inside
  cases o.opened <;> rfl

theorem inside_close (hopened : o.opened ≠ []) :
    (o.inside host).close = o.close.inside host := by
  obtain ⟨innermost, outer, heq⟩ := List.exists_cons_of_ne_nil hopened
  unfold close
  rw [heq]
  simp only [inside, heq, List.cons_append]
  exact inside_add (o := { o with opened := outer }) _

theorem inside_advance_add (errors : List Error) (cursor : Cursor) (node : Node) :
    ((o.inside host).advance errors cursor).add node =
      ((o.advance errors cursor).add node).inside host :=
  inside_add (o := o.advance errors cursor) node

theorem inside_readText : (o.inside host).readText = o.readText.inside host :=
  inside_advance_add _ _ _

theorem inside_readComment {after : Cursor} {mark : Text} :
    (o.inside host).readComment after mark = (o.readComment after mark).inside host := by
  unfold readComment
  dsimp only
  cases after.find? mark with
  | none => exact inside_advance_add _ _ _
  | some found => exact inside_advance_add _ _ _

theorem inside_readMustache {kind : TokenKind} {after : Cursor} :
    (o.inside host).readMustache kind after = (o.readMustache kind after).inside host := by
  have hcursor : (o.inside host).cursor = o.cursor := rfl
  unfold readMustache
  dsimp only
  rw [hcursor]
  cases closingBrace? o.cursor with
  | none => exact inside_advance_add _ _ _
  | some close => exact inside_advance_add _ _ _

/-- A script or style element that is no block of the document. -/
theorem inside_addRaw {name : Text} {attributes : List Attribute} {span content : Span}
    {blank : Bool}
    (hscripts : (o.addRaw name attributes span content blank).scripts = o.scripts)
    (hstyles : (o.addRaw name attributes span content blank).styles = o.styles) :
    (o.inside host).addRaw name attributes span content blank =
      (o.addRaw name attributes span content blank).inside host := by
  have hinside : (o.inside host).opened.isEmpty = false := by simp [inside]
  by_cases hopened : o.opened = []
  · -- Outside of all elements it would be a block.
    unfold addRaw at hscripts hstyles
    by_cases hscript : isScriptName name = true
    · simp [hopened, hscript] at hscripts
    · simp [hopened, hscript] at hstyles
  · have hown : o.opened.isEmpty = false := List.isEmpty_eq_false_iff.mpr hopened
    unfold addRaw
    rw [hinside, hown]
    exact inside_add _

theorem inside_endTag {name : Text} {attributes : Reading (List Attribute)} {ending : List Error}
    {stop : Cursor} {selfClosing : Bool}
    (hscripts : (o.endTag name attributes ending stop selfClosing).scripts = o.scripts)
    (hstyles : (o.endTag name attributes ending stop selfClosing).styles = o.styles) :
    (o.inside host).endTag name attributes ending stop selfClosing =
      (o.endTag name attributes ending stop selfClosing).inside host := by
  unfold endTag at hscripts hstyles ⊢
  dsimp only at hscripts hstyles ⊢
  split
  · next hraw =>
    rw [if_pos hraw] at hscripts hstyles
    exact inside_addRaw (o := (o.advance _ stop).advance _ _) hscripts hstyles
  · split
    · exact inside_advance_add _ _ _
    · rfl

/-- A closing tag that is no fault closes an element further in. -/
theorem inside_readClosingTag {after : Cursor} (hclean : (o.readClosingTag after).errors = []) :
    (o.inside host).readClosingTag after = (o.readClosingTag after).inside host := by
  unfold readClosingTag at hclean ⊢
  dsimp only at hclean ⊢
  cases hopened : o.opened with
  | nil => simp [hopened, advance] at hclean
  | cons innermost outer =>
    have hinside : (o.inside host).opened =
        innermost :: (outer ++ [{ host with children := o.nodes }]) := by
      simp [inside, hopened]
    rw [hopened] at hclean
    rw [hinside]
    dsimp only at hclean ⊢
    split at hclean
    · next hname =>
      rw [if_pos hname, if_pos hname]
      exact inside_close (o := o.advance _ _) (by simp [advance, hopened])
    · split at hclean
      · simp [advance] at hclean
      · simp [advance] at hclean

theorem inside_readElement {after : Cursor}
    (hscripts : (o.readElement after).scripts = o.scripts)
    (hstyles : (o.readElement after).styles = o.styles) :
    (o.inside host).readElement after = (o.readElement after).inside host := by
  have hcursor : (o.inside host).cursor = o.cursor := rfl
  rw [readElement_eq] at hscripts hstyles ⊢
  rw [readElement_eq, hcursor]
  dsimp only at hscripts hstyles ⊢
  split
  · next hkind =>
    rw [hkind] at hscripts hstyles
    exact inside_endTag hscripts hstyles
  · next hkind =>
    rw [hkind] at hscripts hstyles
    exact inside_endTag hscripts hstyles
  · next hslash hclose =>
    split at hscripts
    · next hkind => exact absurd hkind hslash
    · next hkind => exact absurd hkind hclose
    · exact inside_endTag hscripts (by simpa [hslash, hclose] using hstyles)

theorem inside_readMarkup {kind : TokenKind} {after : Cursor}
    (hclean : (o.readMarkup kind after).errors = [])
    (hscripts : (o.readMarkup kind after).scripts = o.scripts)
    (hstyles : (o.readMarkup kind after).styles = o.styles) :
    (o.inside host).readMarkup kind after = (o.readMarkup kind after).inside host := by
  cases kind with
  | angleSlash => exact inside_readClosingTag hclean
  | commentOpen => exact inside_readComment
  | angleBang => exact inside_readComment
  | angle => exact inside_readElement hscripts hstyles
  | _ => exact inside_readMustache

/-- A step without a fault that reads no block is the same with an element around it. -/
theorem inside_step (hmore : o.cursor.rest ≠ []) (hclean : o.step.errors = [])
    (hscripts : o.step.scripts = o.scripts) (hstyles : o.step.styles = o.styles) :
    (o.inside host).step = o.step.inside host := by
  cases hmarkup : startsMarkup o.cursor.rest with
  | false =>
    rw [step_of_text hmore hmarkup, step_of_text (o := o.inside host) hmore hmarkup]
    exact inside_readText
  | true =>
    rw [step_of_markup hmarkup] at hclean hscripts hstyles ⊢
    rw [step_of_markup (o := o.inside host) hmarkup]
    exact inside_readMarkup hclean hscripts hstyles

/-- Blocks that were read stay. -/
theorem Step.blocks_suffix {before after : Outline} (h : Step before after) :
    before.scripts <:+ after.scripts ∧ before.styles <:+ after.styles := by
  cases h <;> simp [advance]

theorem Leads.blocks_suffix {before after : Outline} (h : Leads before after) :
    before.scripts <:+ after.scripts ∧ before.styles <:+ after.styles := by
  induction h with
  | refl => exact ⟨List.suffix_refl _, List.suffix_refl _⟩
  | tail _ hstep ih =>
    obtain ⟨-, rfl⟩ := hstep
    obtain ⟨hscripts, hstyles⟩ := (step_spec _).blocks_suffix
    exact ⟨ih.1.trans hscripts, ih.2.trans hstyles⟩

/-- Reading without faults and blocks is the same with an element around it. -/
theorem Leads.inside (hlead : Leads o last) (hrest : last.cursor.rest ≠ [])
    (hclean : last.errors = []) (hscripts : last.scripts = []) (hstyles : last.styles = []) :
    Leads (o.inside host) (last.inside host) := by
  induction hlead using ReflTransGen.head_induction_on with
  | refl => exact ReflTransGen.refl
  | @head o _ hstep hlead ih =>
    obtain ⟨hmore, rfl⟩ := hstep
    have hown : o.cursor.rest ≠ [] := by
      intro hnil
      have hsuffix := ((step_spec o).reaches.trans (reaches hlead)).suffix
      rw [hnil, List.suffix_nil] at hsuffix
      exact hrest hsuffix
    have herrors := errors_suffix hlead
    rw [hclean, List.suffix_nil] at herrors
    have hblocks := blocks_suffix hlead
    rw [hscripts, hstyles, List.suffix_nil, List.suffix_nil] at hblocks
    have hbefore := (step_spec o).blocks_suffix
    rw [hblocks.1, hblocks.2, List.suffix_nil, List.suffix_nil] at hbefore
    have hinside : (o.inside host).step = o.step.inside host :=
      inside_step hown herrors (hblocks.1.trans hbefore.1.symm) (hblocks.2.trans hbefore.2.symm)
    have hgoesOn : (o.inside host).isFinished = false := by
      simp [isFinished, Outline.inside]
    exact ReflTransGen.head ⟨hgoesOn, hinside⟩ ih

end Inside

end Outline

section Element

variable {name source : Text}

/-- Outside of all elements, a source with markup behind it adds its nodes. -/
theorem leads_behind {o : Outline} {offset : Nat} {tail : Text}
    (hclean : (parse source).errors = []) (hscripts : (parse source).document.scripts = [])
    (hstyles : (parse source).document.styles = []) (htail : startsMarkup tail = true)
    (hopened : o.opened = []) (hcursor : o.cursor = ⟨offset, source ++ tail⟩) :
    Outline.Leads o { o with
      cursor := ⟨offset + Text.bytes source, tail⟩
      nodes := ((parse source).document.nodes.map (·.renumbered (· + offset))).reverse ++
        o.nodes } := by
  rw [parse_eq] at hclean hscripts hstyles ⊢
  dsimp only at hclean hscripts hstyles ⊢
  rw [List.reverse_eq_nil_iff] at hclean hscripts hstyles
  obtain ⟨last, hlead, htwin⟩ :=
    (outlineOf_leads source).before_markup (ofSource_twin_at hopened hcursor) htail hclean
  have hfinished := outlineOf_finished source
  rw [Outline.isFinished, Bool.and_eq_true, List.isEmpty_iff, List.isEmpty_iff] at hfinished
  have hplace : last.cursor = ⟨offset + Text.bytes source, tail⟩ := by
    have hoffset := (outlineOf_leads source).reaches.offset_of_rest_nil hfinished.1
    have hsame := htwin.cursor.offset_eq
    obtain ⟨common, hown, hother, -⟩ := htwin.cursor
    rw [hfinished.1, List.append_nil] at hown
    rw [← hown, List.nil_append] at hother
    obtain ⟨⟨place, rest⟩, _, _, _, _, _⟩ := last
    dsimp only at hsame hother ⊢
    rw [hoffset] at hsame
    rw [hother, ← hsame, Nat.add_comm]
  have hlast : last = { o with
      cursor := ⟨offset + Text.bytes source, tail⟩
      nodes := ((outlineOf source).nodes.reverse.map (·.renumbered (· + offset))).reverse ++
        o.nodes } := by
    have hnodes := htwin.nodes.eq_map
    have hscripts' := htwin.scripts.eq_map
    have hstyles' := htwin.styles.eq_map
    have herrors' := htwin.errors.eq_map
    have hopened' := htwin.opened
    rw [hscripts] at hscripts'
    rw [hstyles] at hstyles'
    rw [hclean] at herrors'
    rw [hfinished.2] at hopened'
    obtain ⟨_, _, _, _, _, _⟩ := last
    simp_all
  rw [← hlast]
  exact hlead

/-- A source between the tags of an element without attributes. -/
def enclosed (name source : Text) : Text :=
  Written.printTag name [] ['>'] ++ (source ++ Written.printClosingTag name)

theorem bytes_enclosed (name source : Text) :
    Text.bytes (enclosed name source) =
      Text.bytes (Written.printTag name [] ['>']) + Text.bytes source +
        Text.bytes (Written.printClosingTag name) := by
  rw [enclosed, Text.bytes_append, Text.bytes_append, Nat.add_assoc]

/-- An element that has children has the nodes of the source as children. -/
theorem parse_enclosed_children (hname : IsTagName name) (hvoid : isVoid name = false)
    (hscript : isScriptName name = false) (hstyle : isStyleName name = false)
    (hclean : (parse source).errors = []) (hscripts : (parse source).document.scripts = [])
    (hstyles : (parse source).document.styles = []) :
    parse (enclosed name source) =
      ⟨⟨⟨0, Text.bytes (enclosed name source)⟩,
        [.element ⟨0, Text.bytes (enclosed name source)⟩ name [] false
          ((parse source).document.nodes.map
            (·.renumbered (· + Text.bytes (Written.printTag name [] ['>']))))], [], []⟩, []⟩ := by
  let host : OpenElement := ⟨0, name, [], []⟩
  let place := Text.bytes (Written.printTag name [] ['>'])
  let start : Outline := (Outline.ofSource (enclosed name source)).advance []
    ⟨place, source ++ Written.printClosingTag name⟩
  let last : Outline := { start with
    cursor := ⟨place + Text.bytes source, Written.printClosingTag name⟩
    nodes := ((parse source).document.nodes.map (·.renumbered (· + place))).reverse ++ start.nodes }
  have hopen : (Outline.ofSource (enclosed name source)).step = start.inside host := by
    have hcursor : (Outline.ofSource (enclosed name source)).cursor =
        ⟨0, Written.printTag name [] ['>'] ++ (source ++ Written.printClosingTag name)⟩ := rfl
    rw [Outline.step_opening hname hvoid hscript hstyle (List.forall_mem_nil _) hcursor,
      Nat.zero_add]
    rfl
  have hread : Outline.Leads start last := leads_behind hclean hscripts hstyles rfl rfl rfl
  have hinside : Outline.Leads (start.inside host) (last.inside host) :=
    hread.inside (List.cons_ne_nil _ _) rfl rfl rfl
  have hopened : (last.inside host).opened = [{ host with children := last.nodes }] := rfl
  have hcursor : (last.inside host).cursor = ⟨place + Text.bytes source,
      Written.printClosingTag { host with children := last.nodes }.name ++ []⟩ := by
    rw [List.append_nil]
    rfl
  have hclose := Outline.step_closing hname hopened hcursor
  have hlead : Outline.Leads (Outline.ofSource (enclosed name source)) _ :=
    ReflTransGen.head ⟨rfl, hopen⟩ (hinside.tail ⟨rfl, hclose⟩)
  have hrun := hlead.run_eq rfl (parse_isFinished (enclosed name source))
  rw [parse_eq, outlineOf, hrun, bytes_enclosed]
  simp [Outline.close, Outline.advance, Outline.add, Outline.inside, last, start, host, place,
    Outline.ofSource]

/-- An element that never has content ends with its opening tag; the nodes of the source stand
behind it, and the closing tag closes nothing. -/
theorem parse_enclosed_void (hname : IsTagName name) (hvoid : isVoid name = true)
    (hclean : (parse source).errors = []) (hscripts : (parse source).document.scripts = [])
    (hstyles : (parse source).document.styles = []) :
    let place := Text.bytes (Written.printTag name [] ['>'])
    let stop := place + Text.bytes source
    parse (enclosed name source) =
      ⟨⟨⟨0, Text.bytes (enclosed name source)⟩,
        .element ⟨0, place⟩ name [] false [] ::
          (parse source).document.nodes.map (·.renumbered (· + place)), [], []⟩,
        [⟨.unexpectedClosingTag name, ⟨stop, stop + 2 + Text.bytes name⟩⟩]⟩ := by
  intro place stop
  let start : Outline := { (Outline.ofSource (enclosed name source)).advance []
    ⟨place, source ++ Written.printClosingTag name⟩ with
      nodes := [.element ⟨0, place⟩ name [] false []] }
  let last : Outline := { start with
    cursor := ⟨stop, Written.printClosingTag name⟩
    nodes := ((parse source).document.nodes.map (·.renumbered (· + place))).reverse ++ start.nodes }
  have hopen : (Outline.ofSource (enclosed name source)).step = start := by
    have hcursor : (Outline.ofSource (enclosed name source)).cursor =
        ⟨0, (Written.void name []).print ++ (source ++ Written.printClosingTag name)⟩ := rfl
    rw [Outline.step_void ⟨hname, hvoid, List.forall_mem_nil _⟩ hcursor]
    simp [Outline.put, Outline.add, Outline.advance, Outline.ofSource, start, place, Written.print,
      Written.place, Written.placeAttributes, WrittenAttribute.placeAll, Text.spanAt]
  have hread : Outline.Leads start last := leads_behind hclean hscripts hstyles rfl rfl rfl
  have hcursor : last.cursor = ⟨stop, Written.printClosingTag name ++ []⟩ := by
    rw [List.append_nil]
  have hclose := Outline.step_closingTag hname hcursor
  have hlead : Outline.Leads (Outline.ofSource (enclosed name source)) _ :=
    ReflTransGen.head ⟨rfl, hopen⟩ (hread.tail ⟨rfl, hclose⟩)
  have hrun := hlead.run_eq rfl (parse_isFinished (enclosed name source))
  rw [parse_eq, outlineOf, hrun, bytes_enclosed]
  simp [Outline.advance, last, start, place, Outline.ofSource]

/-- The nodes of a source become children between the tags of an element, except where the
element never has content: that is so for all names of such elements, also in upper case. -/
theorem parse_enclosed (hname : IsTagName name) (hscript : isScriptName name = false)
    (hstyle : isStyleName name = false) (hclean : (parse source).errors = [])
    (hblocks : (parse source).document.scripts = [] ∧ (parse source).document.styles = []) :
    let span : Span := ⟨0, Text.bytes (enclosed name source)⟩
    let place := Text.bytes (Written.printTag name [] ['>'])
    let stop := place + Text.bytes source
    let nodes := (parse source).document.nodes.map (·.renumbered (· + place))
    (isVoid name = false →
      parse (enclosed name source) = ⟨⟨span, [.element span name [] false nodes], [], []⟩, []⟩) ∧
    (isVoid name = true →
      parse (enclosed name source) =
        ⟨⟨span, .element ⟨0, place⟩ name [] false [] :: nodes, [], []⟩,
          [⟨.unexpectedClosingTag name, ⟨stop, stop + 2 + Text.bytes name⟩⟩]⟩) :=
  ⟨fun hvoid => parse_enclosed_children hname hvoid hscript hstyle hclean hblocks.1 hblocks.2,
    fun hvoid => parse_enclosed_void hname hvoid hclean hblocks.1 hblocks.2⟩

/-- A component with an element and a text in it. -/
theorem parse_enclosed_card :
    (IsTagName "Card".toList ∧ (parse "<p>a</p>b".toList).errors = [] ∧
      isVoid "Card".toList = false) ∧
      parse "<Card><p>a</p>b</Card>".toList =
        ⟨⟨⟨0, 22⟩, [.element ⟨0, 22⟩ "Card".toList [] false
          [.element ⟨6, 14⟩ "p".toList [] false [.text ⟨9, 10⟩ false], .text ⟨14, 15⟩ false]],
            [], []⟩, []⟩ := by
  have hname : IsTagName "Card".toList :=
    ⟨'C', "ard".toList, rfl, rfl, List.all_eq_true.mp (by decide)⟩
  have hclean : (parse "<p>a</p>b".toList).errors = [] := by decide +kernel
  have hvoid : isVoid "Card".toList = false := by decide
  have hnodes : (parse "<p>a</p>b".toList).document.nodes =
      [.element ⟨0, 8⟩ "p".toList [] false [.text ⟨3, 4⟩ false], .text ⟨8, 9⟩ false] := rfl
  have hread := (parse_enclosed hname (by decide) (by decide) hclean ⟨rfl, rfl⟩).1 hvoid
  rw [hnodes] at hread
  exact ⟨⟨hname, hclean, hvoid⟩, hread⟩

/-- A component with the name of an element that never has content. -/
theorem children_lost :
    (IsTagName "Input".toList ∧ (parse "x".toList).errors = [] ∧
      (parse "x".toList).document.scripts = [] ∧ (parse "x".toList).document.styles = []) ∧
      enclosed "Input".toList "x".toList = "<Input>x</Input>".toList ∧
      parse "<Input>x</Input>".toList =
        ⟨⟨⟨0, 16⟩, [.element ⟨0, 7⟩ "Input".toList [] false [], .text ⟨7, 8⟩ false], [], []⟩,
          [⟨.unexpectedClosingTag "Input".toList, ⟨8, 15⟩⟩]⟩ ∧
      parse "<Input>x</Input>".toList ≠
        ⟨⟨⟨0, 16⟩, [.element ⟨0, 16⟩ "Input".toList [] false
          ((parse "x".toList).document.nodes.map (·.renumbered (· + 7)))], [], []⟩, []⟩ := by
  have hname : IsTagName "Input".toList :=
    ⟨'I', "nput".toList, rfl, rfl, List.all_eq_true.mp (by decide)⟩
  have hread : parse "<Input>x</Input>".toList =
      ⟨⟨⟨0, 16⟩, [.element ⟨0, 7⟩ "Input".toList [] false [], .text ⟨7, 8⟩ false], [], []⟩,
        [⟨.unexpectedClosingTag "Input".toList, ⟨8, 15⟩⟩]⟩ :=
    @parse_enclosed_void _ "x".toList hname (by decide) rfl rfl rfl
  refine ⟨⟨hname, rfl, rfl, rfl⟩, rfl, hread, ?_⟩
  rw [hread]
  simp

end Element

end Markup

end TypedComponent
