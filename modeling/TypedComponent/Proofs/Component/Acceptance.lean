import TypedComponent.Proofs.Component.Effects
import TypedComponent.Proofs.Edit.Harmony

/-!
No two edits of any two passes stand in each other's way. What is cut out of the
markup is apart from the script, the script is moved as a whole, and in the
script the tags, the parts that are cut and the places of declarations follow
each other as the statements do.
-/

namespace TypedComponent

theorem Span.LiesIn.shifted {text : Text} {outer inner : Span} (houter : outer.LiesIn text)
    (hinner : inner.LiesIn (Text.slice text outer)) :
    (inner.shifted outer.start).LiesIn text where
  start_place := Text.isBoundary_of_slice houter.start_place houter.stop_place houter.start_le
    hinner.start_place
  stop_place := Text.isBoundary_of_slice houter.start_place houter.stop_place houter.start_le
    hinner.stop_place
  start_le := Nat.add_le_add_right hinner.start_le _

namespace Component

open Markup (Document Node ScriptBlock)
open Script (Statement)

/-- Statements that lie in their script one after another, with what is cut out
of each of them at its beginning. -/
structure LaidOut (content : Text) (statements : List Statement) : Prop where
  liesIn : ∀ s ∈ statements, s.span.LiesIn content
  ordered : statements.Pairwise fun first second => first.span.stop ≤ second.span.start
  part_liesIn : ∀ s ∈ statements, ∀ part ∈ exportPart? s, part.LiesIn content
  part_start : ∀ s ∈ statements, ∀ part ∈ exportPart? s, part.start = s.span.start
  part_stop : ∀ s ∈ statements, ∀ part ∈ exportPart? s, part.stop ≤ s.span.stop

theorem keyword_liesIn {content : Text} {start : Nat} {keyword : Span}
    (h : Script.KeywordAt content start keyword) : keyword.LiesIn content := by
  obtain ⟨before, blanks, rest, htext, hstart, rfl, -, -⟩ := h
  have hsix : Text.bytes "export".toList = 6 := by decide
  refine ⟨Text.isBoundary_iff.mpr ⟨before, "export".toList ++ blanks ++ rest, ?_, hstart⟩,
    Text.isBoundary_iff.mpr ⟨before ++ "export".toList ++ blanks, rest, htext, ?_⟩, ?_⟩
  · rw [htext]
    simp only [List.append_assoc]
  · rw [Text.bytes_append, Text.bytes_append, hsix, hstart]
  · dsimp only
    omega

/-- The statements of a script are laid out in it where its parser places them
and begins what is exported with the word `export`. -/
theorem laidOut_of_placesItems {parser : Script.Parser} {content : Text}
    {statements : List Statement} (hparse : parser.statements content = .ok statements)
    (hplaces : parser.PlacesItems content) (hleads : parser.LeadsExports content) :
    LaidOut content statements where
  liesIn := fun _ hs => hplaces.statement_liesIn hparse hs
  ordered := hplaces.statements_ordered hparse
  part_liesIn := by
    intro s hs part hpart
    rcases (exportPart?_iff hparse hs part).mp hpart with ⟨-, hkeyword⟩ | ⟨-, rfl⟩
    · exact keyword_liesIn hkeyword
    · exact hplaces.statement_liesIn hparse hs
  part_start := by
    intro s hs part hpart
    rcases (exportPart?_iff hparse hs part).mp hpart with ⟨-, hkeyword⟩ | ⟨-, rfl⟩
    · obtain ⟨before, blanks, rest, -, -, rfl, -, -⟩ := hkeyword
      rfl
    · rfl
  part_stop := by
    intro s hs part hpart
    rcases (exportPart?_iff hparse hs part).mp hpart with ⟨hsome, -⟩ | ⟨-, rfl⟩
    · exact hleads.keyword_le hparse hplaces hs hsome
    · exact Nat.le_refl _

namespace LaidOut

variable {content : Text} {statements : List Statement}

theorem sublist {others : List Statement} (h : LaidOut content statements)
    (hsub : others.Sublist statements) : LaidOut content others where
  liesIn := fun s hs => h.liesIn s (hsub.subset hs)
  ordered := h.ordered.sublist hsub
  part_liesIn := fun s hs => h.part_liesIn s (hsub.subset hs)
  part_start := fun s hs => h.part_start s (hsub.subset hs)
  part_stop := fun s hs => h.part_stop s (hsub.subset hs)

theorem nil (content : Text) : LaidOut content [] where
  liesIn := List.forall_mem_nil _
  ordered := List.Pairwise.nil
  part_liesIn := List.forall_mem_nil _
  part_start := List.forall_mem_nil _
  part_stop := List.forall_mem_nil _

/-- Of two statements one comes after the other, unless they are the same. -/
theorem before_or_behind (h : LaidOut content statements) {first second : Statement}
    (hfirst : first ∈ statements) (hsecond : second ∈ statements) :
    first = second ∨ first.span.stop ≤ second.span.start ∨
      second.span.stop ≤ first.span.start := by
  have hforward : statements.Pairwise fun one other => one = other ∨
      one.span.stop ≤ other.span.start ∨ other.span.stop ≤ one.span.start :=
    h.ordered.imp fun hbefore => .inr (.inl hbefore)
  exact hforward.forall_of_forall_of_flip (fun _ _ => .inl rfl)
    (h.ordered.imp fun hbefore => .inr (.inr hbefore)) hfirst hsecond

theorem parts_apart (h : LaidOut content statements) :
    (statements.filterMap exportPart?).Pairwise Span.Apart := by
  rw [List.pairwise_filterMap]
  refine h.ordered.imp_of_mem ?_
  intro first second hfirst hsecond hbefore part hpart other hother
  have hstop := h.part_stop first hfirst part hpart
  have hstart := h.part_start second hsecond other hother
  exact .inl (by omega)

/-- No part that is cut reaches over the beginning of a statement. -/
theorem part_apart_start (h : LaidOut content statements) {part : Span}
    (hpart : part ∈ statements.filterMap exportPart?) {statement : Statement}
    (hmem : statement ∈ statements) :
    part.Apart ⟨statement.span.start, statement.span.start⟩ := by
  obtain ⟨own, hown, hcut⟩ := List.mem_filterMap.mp hpart
  have hstart := h.part_start own hown part hcut
  have hstop := h.part_stop own hown part hcut
  have hle := (h.liesIn statement hmem).start_le
  unfold Span.Apart
  dsimp only
  rcases h.before_or_behind hown hmem with rfl | hbefore | hbehind <;> omega

end LaidOut

section Script

variable (script : ScriptBlock) (statements : List Statement) (surface : Surface) (slots : Text)

/-- The edits that make a script the head of the function where it is. -/
def inPlaceEdits : List Edit :=
  [.overwrite ⟨script.span.start, script.content.start⟩ functionOpening,
    if script.content.stop = script.span.stop then
      .insertBefore script.content.stop fragmentOpening
    else .overwrite ⟨script.content.stop, script.span.stop⟩ fragmentOpening] ++
    exportCuts script.content.start statements ++
    reactiveDeclarations script.content.start surface.declared statements ++
    [.append (functionEnding (writtenProps surface.exports) slots)]

theorem headEdits_eq :
    headEdits script statements surface slots =
      (if script.span.start = 0 then [] else [Edit.move script.span 0]) ++
        inPlaceEdits script statements surface slots := by
  simp only [headEdits, scriptEdits, inPlaceEdits, List.append_assoc]

/-- The stretches that are changed in a script. The fragment begins at the end of
a script that has no closing tag, which is just where that tag would be. -/
theorem stretches_inPlaceEdits :
    (inPlaceEdits script statements surface slots).filterMap Edit.stretch? =
      [⟨script.span.start, script.content.start⟩, ⟨script.content.stop, script.span.stop⟩] ++
        (statements.filterMap exportPart?).map (·.shifted script.content.start) ++
        (firstAssignments surface.declared statements).map fun found =>
          ⟨found.1 + script.content.start, found.1 + script.content.start⟩ := by
  unfold inPlaceEdits
  split
  · next hunclosed =>
    simp [exportCuts, reactiveDeclarations, List.filterMap_cons, List.filterMap_map,
      Function.comp_def, Edit.stretch?, hunclosed]
  · simp [exportCuts, reactiveDeclarations, List.filterMap_cons, List.filterMap_map,
      Function.comp_def, Edit.stretch?]

theorem relocation?_inPlaceEdits :
    ∀ edit ∈ inPlaceEdits script statements surface slots, edit.relocation? = none := by
  intro edit hedit
  cases edit with
  | move range destination =>
    unfold inPlaceEdits at hedit
    split at hedit <;> simp [exportCuts, reactiveDeclarations] at hedit
  | _ => rfl

variable {script statements surface slots}

section Places

variable {source : Text} (hlies : script.LiesIn source)

include hlies

/-- A span of the script's text is a span of the script's content. -/
theorem shifted_within {span : Span}
    (hspan : span.LiesIn (Text.slice source script.content)) :
    script.content.start ≤ (span.shifted script.content.start).start ∧
      (span.shifted script.content.start).stop ≤ script.content.stop := by
  obtain ⟨hopen, hclose, hle⟩ := hlies.content_place
  have hstop := Text.le_bytes_of_isBoundary hspan.stop_place
  rw [Text.bytes_slice hopen hclose hle, Span.length] at hstop
  simp only [Span.shifted]
  omega

variable (hlaid : LaidOut (Text.slice source script.content) statements)

include hlaid

theorem part_within {part : Span}
    (hpart : part ∈ (statements.filterMap exportPart?).map (·.shifted script.content.start)) :
    script.content.start ≤ part.start ∧ part.stop ≤ script.content.stop := by
  obtain ⟨own, hown, rfl⟩ := List.mem_map.mp hpart
  obtain ⟨statement, hmem, hcut⟩ := List.mem_filterMap.mp hown
  exact shifted_within hlies (hlaid.part_liesIn statement hmem own hcut)

theorem declaration_within {found : Nat × Text}
    (hfound : found ∈ firstAssignments surface.declared statements) :
    script.content.start ≤ found.1 + script.content.start ∧
      found.1 + script.content.start ≤ script.content.stop := by
  obtain ⟨statement, hmem, hplace⟩ := firstAssignments_mem hfound
  have hspan := hlaid.liesIn statement hmem
  have hwithin := shifted_within hlies hspan
  have hle := hspan.start_le
  simp only [Span.shifted] at hwithin
  omega

/-- Every stretch that is changed in a script is a part of it. -/
theorem stretch_within {stretch : Span}
    (hmem : stretch ∈ (inPlaceEdits script statements surface slots).filterMap Edit.stretch?) :
    script.span.start ≤ stretch.start ∧ stretch.stop ≤ script.span.stop := by
  have hopening := hlies.opening_lt
  have hcontent := hlies.content_place.start_le
  have hstop := hlies.stop_le
  rw [stretches_inPlaceEdits] at hmem
  rcases List.mem_append.mp hmem with hfront | hdeclared
  · rcases List.mem_append.mp hfront with htag | hpart
    · simp only [List.mem_cons, List.not_mem_nil, or_false] at htag
      rcases htag with rfl | rfl <;> dsimp only <;> omega
    · have hwithin := part_within hlies hlaid hpart
      omega
  · obtain ⟨found, hfound, rfl⟩ := List.mem_map.mp hdeclared
    have hwithin := declaration_within hlies hlaid hfound
    dsimp only
    omega

/-- What is changed in a script is changed stretch by stretch. -/
theorem stretches_apart :
    ((inPlaceEdits script statements surface slots).filterMap Edit.stretch?).Pairwise
      Span.Apart := by
  have hcontent := hlies.content_place.start_le
  have htags {inner : Span} (hwithin : script.content.start ≤ inner.start ∧
      inner.stop ≤ script.content.stop) :
      ∀ tag ∈ ([⟨script.span.start, script.content.start⟩,
        ⟨script.content.stop, script.span.stop⟩] : List Span), tag.Apart inner := by
    intro tag htag
    simp only [List.mem_cons, List.not_mem_nil, or_false] at htag
    unfold Span.Apart
    rcases htag with rfl | rfl <;> dsimp only <;> omega
  rw [stretches_inPlaceEdits, List.pairwise_append, List.pairwise_append, List.pairwise_map,
    List.pairwise_map]
  refine ⟨⟨?tags, ?parts, ?tagsParts⟩, ?declarations, ?others⟩
  case tags =>
    rw [List.pairwise_pair]
    exact .inl hcontent
  case parts =>
    refine hlaid.parts_apart.imp fun happart => ?_
    unfold Span.Apart at happart ⊢
    simp only [Span.shifted]
    omega
  case tagsParts => exact fun tag htag part hpart => htags (part_within hlies hlaid hpart) tag htag
  case declarations =>
    refine List.pairwise_of_forall fun first second => ?_
    unfold Span.Apart
    dsimp only
    omega
  case others =>
    intro stretch hstretch declared hdeclared
    obtain ⟨found, hfound, rfl⟩ := List.mem_map.mp hdeclared
    rcases List.mem_append.mp hstretch with htag | hpart
    · exact htags (declaration_within hlies hlaid hfound) stretch htag
    · obtain ⟨part, hcut, rfl⟩ := List.mem_map.mp hpart
      obtain ⟨statement, hmem, hplace⟩ := firstAssignments_mem hfound
      have happart := hlaid.part_apart_start hcut hmem
      unfold Span.Apart at happart ⊢
      dsimp only at happart
      simp only [Span.shifted]
      omega

theorem inPlaceEdits_getAlong :
    (inPlaceEdits script statements surface slots).Pairwise Edit.GetsAlong := by
  have hstay := relocation?_inPlaceEdits script statements surface slots
  have happart : ((inPlaceEdits script statements surface slots).filterMap
      Edit.stretch?).Pairwise Span.Apart := stretches_apart hlies hlaid
  rw [List.pairwise_filterMap] at happart
  exact happart.imp_of_mem fun hfirst hsecond hclear =>
    Edit.getsAlong_of_apart (hstay _ hfirst) (hstay _ hsecond) hclear

theorem inPlaceEdits_fit :
    ∀ edit ∈ inPlaceEdits script statements surface slots, edit.Fits source := by
  intro edit hedit
  obtain ⟨hopen, hclose, hle⟩ := hlies.content_place
  simp only [inPlaceEdits, List.mem_append, List.mem_cons, List.not_mem_nil, or_false] at hedit
  rcases hedit with (((rfl | rfl) | hcut) | hdeclared) | rfl
  · exact ⟨hlies.start_place, hopen, hlies.opening_lt⟩
  · split
    · exact hclose
    · next hne =>
      have hstop := hlies.stop_le
      exact ⟨hclose, hlies.stop_place, by dsimp only; omega⟩
  · obtain ⟨part, hpart, rfl⟩ := List.mem_map.mp hcut
    obtain ⟨statement, hmem, hcut⟩ := List.mem_filterMap.mp hpart
    obtain ⟨hstart, hstop, hspan⟩ :=
      hlies.content_place.shifted (hlaid.part_liesIn statement hmem part hcut)
    exact ⟨hstart, hstop, hspan⟩
  · obtain ⟨found, hfound, rfl⟩ := List.mem_map.mp hdeclared
    obtain ⟨statement, hmem, hplace⟩ := firstAssignments_mem hfound
    rw [Edit.Fits, hplace]
    exact (hlies.content_place.shifted (hlaid.liesIn statement hmem)).start_place
  · exact True.intro

end Places

end Script

section Markup

/-- The edits of the markup of a document. -/
def markupEdits (document : Document) : List Edit :=
  fragmentConverter document ++ document.styles.map (fun style => Edit.remove style.span)

/-- In the markup, edits cut or add to the ends of the code. -/
theorem mem_markupEdits {document : Document} {edit : Edit} (h : edit ∈ markupEdits document) :
    (∃ text, edit = .prepend text ∨ edit = .append text) ∨
      ∃ cut ∈ markupCuts document, edit = .remove cut := by
  simp only [markupEdits, fragmentConverter, List.mem_append, List.mem_cons, List.not_mem_nil,
    or_false] at h
  rcases h with ((hfirst | hcomment) | hlast) | hstyle
  · exact .inl ⟨_, .inl hfirst⟩
  · obtain ⟨node, hnode, rfl⟩ := List.mem_map.mp hcomment
    exact .inr ⟨_, List.mem_append_left _ (List.mem_map.mpr ⟨node, hnode, rfl⟩), rfl⟩
  · exact .inl ⟨_, .inr hlast⟩
  · obtain ⟨style, hmem, rfl⟩ := List.mem_map.mp hstyle
    exact .inr ⟨_, List.mem_append_right _ (List.mem_map.mpr ⟨style, hmem, rfl⟩), rfl⟩

theorem markupEdits_fit (source : Text) :
    ∀ edit ∈ markupEdits (Markup.parse source).document, edit.Fits source := by
  intro edit hedit
  rcases mem_markupEdits hedit with ⟨text, rfl | rfl⟩ | ⟨cut, hcut, rfl⟩
  · exact True.intro
  · exact True.intro
  · obtain ⟨hstart, hstop, hle⟩ := (Markup.parse_cuts source).1 cut (isCut_of_mem hcut)
    exact ⟨hstart, hstop, hle⟩

/-- An edit that changes only what is apart from all cuts gets along with the
edits of the markup. -/
theorem markupEdits_getAlong_with {document : Document} {other : Edit}
    (hmoves : other.relocation? = none)
    (hapart : ∀ cut ∈ markupCuts document, ∀ stretch ∈ other.stretch?, cut.Apart stretch) :
    ∀ edit ∈ markupEdits document, edit.GetsAlong other := by
  intro edit hedit
  rcases mem_markupEdits hedit with ⟨text, rfl | rfl⟩ | ⟨cut, hcut, rfl⟩
  · exact (Edit.getsAlong_of_no_stretch rfl rfl).symm
  · exact (Edit.getsAlong_of_no_stretch rfl rfl).symm
  · refine Edit.getsAlong_of_apart rfl hmoves ?_
    intro own hown stretch hstretch
    cases hown
    exact hapart cut hcut stretch hstretch

theorem markupEdits_getAlong (source : Text) :
    (markupEdits (Markup.parse source).document).Pairwise Edit.GetsAlong := by
  apply List.pairwise_of_forall_mem_list
  intro first hfirst second hsecond
  rcases mem_markupEdits hsecond with ⟨text, rfl | rfl⟩ | ⟨cut, hcut, rfl⟩
  · exact Edit.getsAlong_of_no_stretch rfl rfl
  · exact Edit.getsAlong_of_no_stretch rfl rfl
  rcases mem_markupEdits hfirst with ⟨text, rfl | rfl⟩ | ⟨other, hother, rfl⟩
  · exact (Edit.getsAlong_of_no_stretch rfl rfl).symm
  · exact (Edit.getsAlong_of_no_stretch rfl rfl).symm
  rcases (Markup.parse_cuts source).2 other cut (isCut_of_mem hother) (isCut_of_mem hcut)
    with rfl | happart
  · exact Edit.remove_getsAlong_self other
  · refine Edit.getsAlong_of_apart rfl rfl ?_
    intro own hown stretch hstretch
    cases hown
    cases hstretch
    exact happart

end Markup

section Document

variable {source : Text} {framing : List Edit}

theorem takes_componentEdits (ending : Text) (hfits : ∀ edit ∈ framing, edit.Fits source)
    (halong : framing.Pairwise Edit.GetsAlong)
    (hmarkup : ∀ other ∈ framing, ∀ edit ∈ markupEdits (Markup.parse source).document,
      edit.GetsAlong other) :
    (EditBuffer.ofText source).Takes
      (componentEdits (Markup.parse source).document framing ending) := by
  apply EditBuffer.takes_of_getsAlong
  · intro edit hedit
    rcases List.mem_append.mp hedit with hfront | hending
    · rcases List.mem_append.mp hfront with hmem | hmem
      · exact markupEdits_fit source edit hmem
      · exact hfits edit hmem
    · rw [List.mem_singleton.mp hending]
      exact True.intro
  · have hfront : (markupEdits (Markup.parse source).document ++ framing).Pairwise
        Edit.GetsAlong :=
      List.pairwise_append.mpr ⟨markupEdits_getAlong source, halong,
        fun edit hedit other hother => hmarkup other hother edit hedit⟩
    refine List.pairwise_append.mpr ⟨hfront, List.pairwise_singleton _ _, ?_⟩
    intro edit _ last hlast
    rw [List.mem_singleton.mp hlast]
    exact Edit.getsAlong_of_no_stretch rfl rfl

/-- Without a script, the function is opened at the start of the source, which no
cut has inside of it. -/
theorem takes_wrapEdits (source slots ending : Text) :
    (EditBuffer.ofText source).Takes
      (componentEdits (Markup.parse source).document (wrapEdits slots) ending) := by
  apply takes_componentEdits
  · intro edit hedit
    simp only [wrapEdits, List.mem_cons, List.not_mem_nil, or_false] at hedit
    rcases hedit with rfl | rfl
    · exact Text.isBoundary_zero source
    · exact True.intro
  · rw [wrapEdits, List.pairwise_pair]
    exact Edit.getsAlong_of_no_stretch rfl rfl
  · intro other hother
    simp only [wrapEdits, List.mem_cons, List.not_mem_nil, or_false] at hother
    rcases hother with rfl | rfl
    · refine markupEdits_getAlong_with rfl ?_
      intro cut _ stretch hstretch
      cases hstretch
      exact .inr (Nat.zero_le _)
    · exact fun _ _ => Edit.getsAlong_of_no_stretch rfl rfl

section Moved

variable {script : ScriptBlock} {statements : List Statement}
  (hscript : script ∈ (Markup.parse source).document.scripts)

include hscript

/-- What is cut out of the markup stays where it is when the script goes to the
front. -/
theorem markupEdits_getAlong_move :
    ∀ edit ∈ markupEdits (Markup.parse source).document,
      edit.GetsAlong (.move script.span 0) := by
  intro edit hedit
  rcases mem_markupEdits hedit with ⟨text, rfl | rfl⟩ | ⟨cut, hcut, rfl⟩
  · exact (Edit.getsAlong_of_no_stretch rfl rfl).symm
  · exact (Edit.getsAlong_of_no_stretch rfl rfl).symm
  · refine (Edit.move_getsAlong rfl ?_ ?_).symm
    · intro own _
      simp [Span.containsInner]
    · intro own hown
      cases hown
      exact .inl (markupCuts_apart source hscript cut hcut).symm

variable (hlaid : LaidOut (Text.slice source script.content) statements) {surface : Surface}
  {slots : Text}

include hlaid

theorem inPlaceEdits_within :
    ∀ edit ∈ inPlaceEdits script statements surface slots, ∀ stretch ∈ edit.stretch?,
      script.span.start ≤ stretch.start ∧ stretch.stop ≤ script.span.stop :=
  fun edit hedit _ hstretch => stretch_within (Markup.parse_scripts source hscript) hlaid
    (List.mem_filterMap.mpr ⟨edit, hedit, hstretch⟩)

/-- What is changed in a script goes to the front with it. -/
theorem move_getsAlong_inPlaceEdits :
    ∀ edit ∈ inPlaceEdits script statements surface slots,
      (Edit.move script.span 0).GetsAlong edit := by
  intro edit hedit
  refine Edit.move_getsAlong (relocation?_inPlaceEdits script statements surface slots edit hedit)
    ?_ ?_
  · intro own _
    simp [Span.containsInner]
  · intro own hown
    have hinside := inPlaceEdits_within hscript hlaid edit hedit own hown
    exact .inr ((Span.containsSpan_iff _ _).mpr hinside)

theorem markupEdits_getAlong_inPlaceEdits :
    ∀ edit ∈ inPlaceEdits script statements surface slots,
      ∀ other ∈ markupEdits (Markup.parse source).document, other.GetsAlong edit := by
  intro edit hedit
  refine markupEdits_getAlong_with
    (relocation?_inPlaceEdits script statements surface slots edit hedit) ?_
  intro cut hcut stretch hstretch
  have hinside := inPlaceEdits_within hscript hlaid edit hedit stretch hstretch
  have happart := markupCuts_apart source hscript cut hcut
  unfold Span.Apart at happart ⊢
  omega

end Moved

/-- The edits of all passes are accepted, whatever is wrong with the source,
provided that the statements of the script are laid out in it. -/
theorem takes_headEdits {script : ScriptBlock} {statements : List Statement}
    (surface : Surface) (slots ending : Text)
    (hscript : script ∈ (Markup.parse source).document.scripts)
    (hlaid : LaidOut (Text.slice source script.content) statements) :
    (EditBuffer.ofText source).Takes (componentEdits (Markup.parse source).document
      (headEdits script statements surface slots) ending) := by
  have hlies := Markup.parse_scripts source hscript
  have hopening := hlies.opening_lt
  have hcontent := hlies.content_place.start_le
  have hstop := hlies.stop_le
  rw [headEdits_eq]
  apply takes_componentEdits
  · intro edit hedit
    rcases List.mem_append.mp hedit with hmove | hmem
    · split at hmove
      · cases hmove
      · rw [List.mem_singleton.mp hmove]
        exact ⟨hlies.start_place, hlies.stop_place, by omega, Text.isBoundary_zero source,
          by simp [Span.containsInner]⟩
    · exact inPlaceEdits_fit hlies hlaid edit hmem
  · refine List.pairwise_append.mpr ⟨?_, inPlaceEdits_getAlong hlies hlaid, ?_⟩
    · split
      · exact List.Pairwise.nil
      · exact List.pairwise_singleton _ _
    · intro edit hedit other hother
      split at hedit
      · cases hedit
      · rw [List.mem_singleton.mp hedit]
        exact move_getsAlong_inPlaceEdits hscript hlaid other hother
  · intro edit hedit
    rcases List.mem_append.mp hedit with hmove | hmem
    · split at hmove
      · cases hmove
      · rw [List.mem_singleton.mp hmove]
        exact markupEdits_getAlong_move hscript
    · exact markupEdits_getAlong_inPlaceEdits hscript hlaid edit hmem

end Document

end Component

end TypedComponent
