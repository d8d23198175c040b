import Mathlib.Logic.Relation
import TypedComponent.Proofs.Markup.PrintedNodes
import TypedComponent.Proofs.Markup.Progress

/-!
Reading undoes printing. Every written part, with what is inside of it, leads
from the place where it is printed to the place behind it and adds itself and
nothing else. Since reading goes on up to the end of the source, the document
that is read is the one that was written.
-/

namespace TypedComponent.Markup

open Relation (ReflTransGen)

variable {offset : Nat} {rest : Text}

/-- What is no text begins with a sign of markup. -/
theorem startsMarkup_print {item : Written} (h : item.WellFormed) (hitem : item.isText = false)
    (rest : Text) : startsMarkup (item.print ++ rest) = true := by
  have htag {name : Text} (hname : IsTagName name) (text : Text) :
      startsMarkup ('<' :: name ++ text) = true := by
    obtain ⟨c, others, rfl, hletter, -⟩ := hname
    simp [startsMarkup, hletter]
  cases item with
  | text raw => cases hitem
  | comment body => rfl
  | mustache kind inner => rfl
  | element name attributes children => simpa [Written.print, Written.printTag] using htag h.1 _
  | closed name attributes => simpa [Written.print, Written.printTag] using htag h.1 _
  | void name attributes => simpa [Written.print, Written.printTag] using htag h.1 _
  | verbatim name attributes body => simpa [Written.print, Written.printTag] using htag h.1 _

theorem print_ne_nil {item : Written} (h : item.WellFormed) : item.print ≠ [] := by
  by_cases hitem : item.isText = true
  · cases item with
    | text raw => exact h.1
    | _ => cases hitem
  · intro hnil
    have hstarts := startsMarkup_print h (Bool.eq_false_iff.mpr hitem) []
    rw [hnil] at hstarts
    cases hstarts

namespace Outline

/-- Reading that is not at its end takes a step. -/
def Advances (before after : Outline) : Prop := before.isFinished = false ∧ before.step = after

def Leads : Outline → Outline → Prop := ReflTransGen Advances

variable {outline before after : Outline}

theorem isFinished_of_cursor {text : Text} (h : outline.cursor = ⟨offset, text⟩)
    (htext : text ≠ []) : outline.isFinished = false := by
  simp [isFinished, h, htext]

/-- A run that ends can only end where the steps lead. -/
theorem Leads.run_eq (h : Leads before after) (hafter : after.isFinished = true) {steps : Nat}
    (hrun : (run steps before).isFinished = true) : run steps before = after := by
  induction h using ReflTransGen.head_induction_on generalizing steps with
  | refl =>
    cases steps with
    | zero => rfl
    | succ steps => rw [run, if_pos hafter]
  | head hstep _ ih =>
    obtain ⟨hmore, rfl⟩ := hstep
    cases steps with
    | zero =>
      rw [run, hmore] at hrun
      cases hrun
    | succ steps =>
      rw [run, if_neg (Bool.eq_false_iff.mp hmore)] at hrun ⊢
      exact ih hrun

/-- The outline with written parts as nodes. -/
def putAll (outline : Outline) (offset : Nat) (items : List Written) (rest : Text) : Outline :=
  (Written.placeAll offset items).foldl add
    (outline.advance [] ⟨offset + Text.bytes (Written.printAll items), rest⟩)

theorem add_advance (outline : Outline) (node : Node) (cursor : Cursor) :
    (outline.add node).advance [] cursor = (outline.advance [] cursor).add node := by
  unfold add
  cases hopened : outline.opened <;> simp [advance, hopened]

/-- The parts are put one after another. -/
theorem putAll_put (first : Written) (others : List Written) :
    (outline.put offset first (Written.printAll others ++ rest)).putAll
        (offset + Text.bytes first.print) others rest =
      outline.putAll offset (first :: others) rest := by
  have hstop : offset + Text.bytes (Written.printAll (first :: others)) =
      offset + Text.bytes first.print + Text.bytes (Written.printAll others) := by
    rw [Written.printAll, Text.bytes_append, Nat.add_assoc]
  unfold putAll put
  rw [add_advance, advance_advance, hstop]
  rfl

/-- Nodes that are added to an open element become its children. -/
theorem foldl_add {innermost : OpenElement} {outer : List OpenElement}
    (h : outline.opened = innermost :: outer) (nodes : List Node) :
    nodes.foldl add outline = { outline with
      opened := { innermost with children := nodes.reverse ++ innermost.children } :: outer } := by
  induction nodes generalizing outline innermost with
  | nil => rw [List.foldl_nil, List.reverse_nil, List.nil_append, ← h]
  | cons first others ih =>
    have hadd : outline.add first = { outline with
        opened := { innermost with children := first :: innermost.children } :: outer } := by
      rw [add, h]
    rw [List.foldl_cons, hadd, ih rfl]
    simp

/-- The outline inside of an element that begins at the offset, behind its children so far. -/
def within (outline : Outline) (offset : Nat) (name : Text) (attributes : List WrittenAttribute)
    (children : List Written) (rest : Text) : Outline :=
  let inside := offset + Text.bytes (Written.printTag name attributes ['>'])
  { outline.advance [] ⟨inside + Text.bytes (Written.printAll children), rest⟩ with
    opened := ⟨offset, name, Written.placeAttributes offset name attributes,
      (Written.placeAll inside children).reverse⟩ :: outline.opened }

theorem within_putAll (name : Text) (attributes : List WrittenAttribute)
    (children : List Written) (text : Text) :
    (outline.within offset name attributes [] text).putAll
        (offset + Text.bytes (Written.printTag name attributes ['>'])) children rest =
      outline.within offset name attributes children rest := by
  unfold putAll
  rw [foldl_add rfl]
  simp [within, advance, Written.placeAll]

theorem within_close (name : Text) (attributes : List WrittenAttribute) (children : List Written)
    (text : Text) :
    ((outline.within offset name attributes children text).advance []
        ⟨offset + Text.bytes (Written.element name attributes children).print, rest⟩).close =
      outline.put offset (.element name attributes children) rest := by
  simp [within, close, advance, put, Written.place, Text.spanAt]

theorem step_put_verbatim {name body : Text} {attributes : List WrittenAttribute}
    (h : (Written.verbatim name attributes body).WellFormed) (hopened : 0 < outline.opened.length)
    (hcursor : outline.cursor = ⟨offset, (Written.verbatim name attributes body).print ++ rest⟩) :
    outline.step = outline.put offset (.verbatim name attributes body) rest := by
  have hnone : outline.opened.isEmpty = false := by
    rw [List.isEmpty_eq_false_iff]
    exact List.ne_nil_of_length_pos hopened
  rw [step_verbatim h hcursor, addRaw, advance, hnone]
  rfl

/-- A part leads to the place behind it; outside of all elements, if it is no block. -/
def LeadsPast (item : Written) : Prop :=
  ∀ {outline : Outline} {offset : Nat} {rest : Text},
    (item.isBlock = true → 0 < outline.opened.length) →
    (item.isText = true → rest ≠ [] → startsMarkup rest = true) →
    outline.cursor = ⟨offset, item.print ++ rest⟩ → Leads outline (outline.put offset item rest)

/-- The parts inside of an element lead to what stands behind them. -/
def LeadsPastAll (items : List Written) : Prop :=
  ∀ {outline : Outline} {offset : Nat} {rest : Text}, 0 < outline.opened.length →
    (rest ≠ [] → startsMarkup rest = true) →
    outline.cursor = ⟨offset, Written.printAll items ++ rest⟩ →
    Leads outline (outline.putAll offset items rest)

theorem leads_of_step {item : Written} (h : item.WellFormed)
    (hcursor : outline.cursor = ⟨offset, item.print ++ rest⟩) (hstep : outline.step = after) :
    Leads outline after :=
  ReflTransGen.single
    ⟨isFinished_of_cursor hcursor (List.append_ne_nil_of_left_ne_nil (print_ne_nil h) _), hstep⟩

/-- An element is opened by its tag, takes its children and is closed by its closing tag. -/
theorem leadsPast_element {name : Text} {attributes : List WrittenAttribute}
    {children : List Written} (h : (Written.element name attributes children).WellFormed)
    (hchildren : LeadsPastAll children) : LeadsPast (.element name attributes children) := by
  intro outline offset rest _ _ hcursor
  have hbefore := leads_of_step h hcursor rfl
  obtain ⟨hname, hvoid, hscript, hstyle, hattributes, -, -⟩ := h
  have hprint : (Written.element name attributes children).print ++ rest =
      Written.printTag name attributes ['>'] ++
        (Written.printAll children ++ (Written.printClosingTag name ++ rest)) := by
    rw [Written.print, List.append_assoc, List.append_assoc]
  rw [hprint] at hcursor
  have hopen : outline.step = outline.within offset name attributes []
      (Written.printAll children ++ (Written.printClosingTag name ++ rest)) :=
    step_opening hname hvoid hscript hstyle hattributes hcursor
  have hpos : 0 < outline.step.opened.length := by
    rw [hopen]
    exact Nat.succ_pos _
  have hinside : Leads outline.step (outline.step.putAll
      (offset + Text.bytes (Written.printTag name attributes ['>'])) children
      (Written.printClosingTag name ++ rest)) :=
    hchildren hpos (fun _ => rfl) (congrArg cursor hopen)
  rw [hopen, within_putAll] at hinside
  have hstop : offset + Text.bytes (Written.element name attributes children).print =
      offset + Text.bytes (Written.printTag name attributes ['>']) +
        Text.bytes (Written.printAll children) + Text.bytes (Written.printClosingTag name) := by
    simp only [Written.print, Text.bytes_append, Nat.add_assoc]
  have hclose : (outline.within offset name attributes children
      (Written.printClosingTag name ++ rest)).step =
        outline.put offset (.element name attributes children) rest := by
    rw [← within_close, hstop]
    have hopened : (outline.within offset name attributes children
        (Written.printClosingTag name ++ rest)).opened = _ :: outline.opened := rfl
    refine step_closing ?_ hopened ?_
    · exact hname
    · rfl
  rw [hopen] at hbefore
  exact hbefore.trans (hinside.tail ⟨isFinished_of_cursor rfl (List.cons_ne_nil _ _), hclose⟩)

theorem leadsPastAll_nil : LeadsPastAll [] := by
  intro outline offset rest _ _ hcursor
  have hput : outline.putAll offset [] rest = outline := by
    have hplace : (⟨offset, rest⟩ : Cursor) = outline.cursor := hcursor.symm
    simp [putAll, Written.placeAll, Written.printAll, advance, hplace]
  rw [hput]
  exact ReflTransGen.refl

/-- A text in front of another part stands before markup. -/
theorem startsMarkup_behind {first : Written} {others : List Written}
    (hwell : Written.AllWellFormed others) (hchain : (first :: others).IsChain Written.CanFollow)
    (hrest : rest ≠ [] → startsMarkup rest = true) (hfirst : first.isText = true) :
    Written.printAll others ++ rest ≠ [] →
      startsMarkup (Written.printAll others ++ rest) = true := by
  cases others with
  | nil => exact hrest
  | cons second others =>
    intro _
    have hsecond : second.isText = false := by
      have hfollow := (List.isChain_cons_cons.mp hchain).1
      rwa [Written.CanFollow, hfirst, Bool.true_and] at hfollow
    rw [Written.printAll, List.append_assoc]
    exact startsMarkup_print hwell.1 hsecond _

theorem leadsPastAll_cons {first : Written} {others : List Written} (hfirst : LeadsPast first)
    (hothers : LeadsPastAll others) (hwell : Written.AllWellFormed others)
    (hchain : (first :: others).IsChain Written.CanFollow) : LeadsPastAll (first :: others) := by
  intro outline offset rest hopened hrest hcursor
  rw [Written.printAll, List.append_assoc] at hcursor
  have hput := hfirst (fun _ => hopened) (startsMarkup_behind hwell hchain hrest) hcursor
  have hpos : 0 < (outline.put offset first (Written.printAll others ++ rest)).opened.length := by
    rw [put, add_opened_length]
    exact hopened
  have hmore := hothers hpos hrest (add_cursor _ _)
  rw [putAll_put] at hmore
  exact hput.trans hmore

mutual

theorem leadsPast : ∀ item : Written, item.WellFormed → LeadsPast item
  | .text _, h => fun _ hrest hcursor =>
    leads_of_step h hcursor (step_text h (hrest rfl) hcursor)
  | .comment _, h => fun _ _ hcursor => leads_of_step h hcursor (step_comment h hcursor)
  | .mustache _ _, h => fun _ _ hcursor => leads_of_step h hcursor (step_mustache h hcursor)
  | .element _ _ children, h =>
    leadsPast_element h (leadsPastAll children h.2.2.2.2.2.2 h.2.2.2.2.2.1)
  | .closed _ _, h => fun _ _ hcursor => leads_of_step h hcursor (step_closed h hcursor)
  | .void _ _, h => fun _ _ hcursor => leads_of_step h hcursor (step_void h hcursor)
  | .verbatim _ _ _, h => fun hopened _ hcursor =>
    leads_of_step h hcursor (step_put_verbatim h (hopened rfl) hcursor)

theorem leadsPastAll : ∀ items : List Written, Written.AllWellFormed items →
    items.IsChain Written.CanFollow → LeadsPastAll items
  | [], _, _ => leadsPastAll_nil
  | first :: others, h, hchain =>
    leadsPastAll_cons (leadsPast first h.1) (leadsPastAll others h.2 hchain.of_cons) h.2 hchain

end

/-- The outline, outside of all elements, with parts that were read up to the cursor. -/
def collect (outline : Outline) (parts : List (Nat × Written)) (cursor : Cursor) : Outline :=
  { outline.advance [] cursor with
    nodes := (parts.filterMap Written.node?).reverse ++ outline.nodes
    scripts := (parts.filterMap Written.script?).reverse ++ outline.scripts
    styles := (parts.filterMap Written.style?).reverse ++ outline.styles }

theorem collect_collect (first second : List (Nat × Written)) (between last : Cursor) :
    (outline.collect first between).collect second last =
      outline.collect (first ++ second) last := by
  simp [collect, advance]

theorem put_eq_collect {item : Written} (hitem : item.isBlock = false)
    (hopened : outline.opened = []) :
    outline.put offset item rest =
      outline.collect [(offset, item)] ⟨offset + Text.bytes item.print, rest⟩ := by
  cases item with
  | verbatim => cases hitem
  | _ => simp [put, add, advance, collect, hopened, Written.node?, Written.script?, Written.style?]

theorem addRaw_eq_collect {name body : Text} {attributes : List WrittenAttribute} {stop : Cursor}
    (hopened : outline.opened = []) :
    (outline.advance [] stop).addRaw name
      (Written.placeAttributes offset name attributes)
      (Text.spanAt offset (Written.verbatim name attributes body).print)
      (Text.spanAt (offset + Text.bytes (Written.printTag name attributes ['>'])) body)
      (Text.allBlank body) =
    outline.collect [(offset, .verbatim name attributes body)] stop := by
  by_cases hscript : isScriptName name = true
  · simp [addRaw, advance, collect, hopened, hscript, Written.node?, Written.script?,
      Written.style?]
  · simp [addRaw, advance, collect, hopened, hscript, Written.node?, Written.script?,
      Written.style?]

/-- Outside of all elements a part is collected as a node or a block. -/
theorem leads_collect {item : Written} (h : item.WellFormed) (hopened : outline.opened = [])
    (hrest : item.isText = true → rest ≠ [] → startsMarkup rest = true)
    (hcursor : outline.cursor = ⟨offset, item.print ++ rest⟩) :
    Leads outline (outline.collect [(offset, item)] ⟨offset + Text.bytes item.print, rest⟩) := by
  cases hitem : item.isBlock with
  | false =>
    rw [← put_eq_collect hitem hopened]
    refine leadsPast item h (fun hblock => ?_) hrest hcursor
    rw [hitem] at hblock
    cases hblock
  | true =>
    cases item with
    | verbatim name attributes body =>
      apply leads_of_step h hcursor
      rw [step_verbatim h hcursor, addRaw_eq_collect hopened]
    | _ => cases hitem

theorem leads_collectAll {items : List Written} (h : Written.AllWellFormed items)
    (hchain : items.IsChain Written.CanFollow) (hopened : outline.opened = [])
    (hcursor : outline.cursor = ⟨offset, Written.printAll items⟩) :
    Leads outline (outline.collect (Written.withOffsets offset items)
      ⟨offset + Text.bytes (Written.printAll items), []⟩) := by
  induction items generalizing outline offset with
  | nil =>
    have hsame : outline.collect (Written.withOffsets offset [])
        ⟨offset + Text.bytes (Written.printAll []), []⟩ = outline := by
      have hplace : (⟨offset, []⟩ : Cursor) = outline.cursor := hcursor.symm
      simp [collect, Written.withOffsets, Written.printAll, advance, hplace]
    rw [hsame]
    exact ReflTransGen.refl
  | cons first others ih =>
    obtain ⟨hfirst, hothers⟩ := h
    have hrest (hfirst : first.isText = true) (hne : Written.printAll others ≠ []) :
        startsMarkup (Written.printAll others) = true := by
      have hnone : ([] : Text) ≠ [] → startsMarkup [] = true := fun hne => absurd rfl hne
      have hbehind := startsMarkup_behind hothers hchain hnone hfirst
      rw [List.append_nil] at hbehind
      exact hbehind hne
    have hput := leads_collect hfirst hopened hrest hcursor
    have hmore : Leads (outline.collect [(offset, first)]
        ⟨offset + Text.bytes first.print, Written.printAll others⟩) _ :=
      ih hothers hchain.of_cons hopened rfl
    rw [collect_collect] at hmore
    have hstop : offset + Text.bytes (Written.printAll (first :: others)) =
        offset + Text.bytes first.print + Text.bytes (Written.printAll others) := by
      rw [Written.printAll, Text.bytes_append, Nat.add_assoc]
    rw [hstop]
    exact hput.trans hmore

end Outline

/-- Reading what is printed gives the printed parts, at their places, and no fault. -/
theorem parse_printAll (items : List Written) (h : Written.AllWellFormed items)
    (hchain : items.IsChain Written.CanFollow) :
    parse (Written.printAll items) = ⟨Written.documentOf items, []⟩ := by
  have hlead : Outline.Leads (.ofSource (Written.printAll items)) _ :=
    Outline.leads_collectAll h hchain rfl rfl
  have hrun := hlead.run_eq rfl (parse_isFinished _)
  unfold parse
  rw [hrun]
  simp [Outline.collect, Outline.advance, Outline.ofSource, Written.documentOf]

/-- A script, an element with a value of two parts and a mustache, and an element without content. -/
def greeting : List Written :=
  [.verbatim "script".toList [.bare "module".toList] "let a;".toList,
    .element "p".toList [.quoted "class".toList '"' [.text "b ".toList, .expression "a".toList]]
      [.text "Hi ".toList, .mustache .expression "a".toList],
    .void "br".toList [.spread "a".toList]]

def greetingText : Text :=
  "<script module>let a;</script><p class=\"b \x7ba\x7d\">Hi \x7ba\x7d</p><br \x7b...a\x7d>".toList

theorem parse_greeting :
    (Written.AllWellFormed greeting ∧ greeting.IsChain Written.CanFollow) ∧
      parse greetingText = ⟨Written.documentOf greeting, []⟩ ∧
      (Written.documentOf greeting).nodes =
        [.element ⟨30, 57⟩ "p".toList
            [.named ⟨33, 46⟩ "class".toList
              [.text ⟨40, 42⟩ "b ".toList, .expression ⟨42, 45⟩ ⟨43, 44⟩]] false
            [.text ⟨47, 50⟩ false, .mustache ⟨50, 53⟩ ⟨51, 52⟩ .expression],
          .element ⟨57, 68⟩ "br".toList [.spread ⟨61, 67⟩ ⟨65, 66⟩] false []] := by
  have hname : Balanced .code "a".toList := .plain (by decide) nofun .done
  have hplain : Written.IsPlain "Hi ".toList := by
    refine ⟨by decide, fun a c b h => ?_⟩
    have hmem : '<' ∈ "Hi ".toList := by simp [h]
    exact absurd hmem (by decide)
  have hcontent : ∀ a b, "let a;".toList ≠ a ++ "</".toList ++ "script".toList ++ b := by
    intro a b h
    have hmem : '<' ∈ "let a;".toList := by simp [h]
    exact absurd hmem (by decide)
  have hmodule : (WrittenAttribute.bare "module".toList).WellFormed :=
    ⟨by decide, List.all_eq_true.mp (by decide)⟩
  have hclass : (WrittenAttribute.quoted "class".toList '"'
      [.text "b ".toList, .expression "a".toList]).WellFormed := by
    refine ⟨⟨by decide, List.all_eq_true.mp (by decide)⟩, .inl rfl, ?_, ?_⟩
    · refine List.forall_mem_cons.mpr ⟨⟨by decide, ?_⟩, List.forall_mem_singleton.mpr hname⟩
      exact List.forall_mem_cons.mpr ⟨by decide, List.forall_mem_singleton.mpr (by decide)⟩
    · exact .cons_cons rfl (.singleton _)
  have hscript : (Written.verbatim "script".toList [.bare "module".toList]
      "let a;".toList).WellFormed :=
    ⟨⟨'s', _, rfl, rfl, List.all_eq_true.mp (by decide)⟩, .inl (by decide),
      List.forall_mem_singleton.mpr hmodule, hcontent⟩
  have hparagraph : (Written.element "p".toList
      [.quoted "class".toList '"' [.text "b ".toList, .expression "a".toList]]
      [.text "Hi ".toList, .mustache .expression "a".toList]).WellFormed := by
    refine ⟨⟨'p', _, rfl, rfl, List.all_eq_true.mp (by decide)⟩, by decide, by decide,
      by decide, List.forall_mem_singleton.mpr hclass, .cons_cons rfl (.singleton _), ?_⟩
    exact ⟨⟨by decide, hplain⟩, ⟨hname, by rintro c ⟨⟩; decide⟩, trivial⟩
  have hbreak : (Written.void "br".toList [.spread "a".toList]).WellFormed :=
    ⟨⟨'b', _, rfl, rfl, List.all_eq_true.mp (by decide)⟩, by decide,
      List.forall_mem_singleton.mpr hname⟩
  have hwell : Written.AllWellFormed greeting := ⟨hscript, hparagraph, hbreak, trivial⟩
  have hchain : greeting.IsChain Written.CanFollow := .cons_cons rfl (.cons_cons rfl (.singleton _))
  have hprint : Written.printAll greeting = greetingText := by decide
  refine ⟨⟨hwell, hchain⟩, ?_, ?_⟩
  · rw [← hprint]
    exact parse_printAll greeting hwell hchain
  · rfl

end TypedComponent.Markup
