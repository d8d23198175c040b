import TypedComponent.Proofs.Component.Passes
import TypedComponent.Proofs.Component.SwappedMarkup

/-!
The typed form of a component does not depend on what its comments and its
style blocks say. Two sources that differ in the body of one of them go through
the same passes, each edit at its place in either source, and the stretch in
which they differ is cut out.
-/

namespace TypedComponent

namespace Except.Alongside

variable {ε δ α β γ : Type} {R : α → β → Prop} {x : Except ε α} {y : Except δ β}

/-- What is known of every result of the first computation. -/
theorem and_ok {P : α → Prop} (h : Alongside R x y) (hok : ∀ a, x = .ok a → P a) :
    Alongside (fun a b => R a b ∧ P a) x y := by
  cases h with
  | ok related => exact .ok ⟨related, hok _ rfl⟩
  | error refusal other => exact .error refusal other

theorem toOption_map_eq {f : α → γ} {g : β → γ} (h : Alongside (fun a b => g b = f a) x y) :
    y.toOption.map g = x.toOption.map f := by
  cases h with
  | ok related => exact congrArg some related
  | error refusal other => rfl

end Except.Alongside

namespace Component

open EditBuffer (Carried)
open TypedComponent.Except (Alongside)
open Markup (Node ScriptBlock)
open Markup.Outline (Reread)
open Script (Binding ExportSpecifier Statement)

section Survey

variable (place other : ScriptPlace) (span : Span)

theorem addBinding_alongside (isExported : Bool) (surface : Surface) (binding : Binding) :
    Alongside (fun added also => also = added) (surface.addBinding place span isExported binding)
      (surface.addBinding other span isExported binding) := by
  cases binding with
  | name name => exact .ok rfl
  | pattern own names =>
    unfold Surface.addBinding
    cases isExported
    · exact .ok rfl
    · exact .error _ _

theorem addSpecifier_alongside (surface : Surface) (specifier : ExportSpecifier) :
    Alongside (fun added also => also = added) (surface.addSpecifier place span specifier)
      (surface.addSpecifier other span specifier) := by
  obtain ⟨own, localName, exported, typeOnly⟩ := specifier
  rcases localName with name | raw
  · rcases exported with _ | name | raw
    · exact .ok rfl
    · exact .ok rfl
    · exact .error _ _
  · exact .error _ _

/-- Where a script stands shows in errors only. -/
theorem add_alongside (surface : Surface) (statement : Statement) :
    Alongside (fun added also => also = added) (surface.add place statement)
      (surface.add other statement) := by
  have hfold {α : Type} {f g : Surface → α → Except Error Surface}
      (hstep : ∀ surface a, Alongside (fun added also => also = added) (f surface a) (g surface a))
      (values : List α) :
      Alongside (fun added also => also = added) (values.foldlM f surface)
        (values.foldlM g surface) := by
    have halong : Alongside (fun added also => also = added) (values.foldlM f surface)
        ((values.map id).foldlM g surface) :=
      Alongside.foldlM (fun a _ surface also hsame => hsame ▸ hstep surface a) rfl
    rwa [List.map_id] at halong
  unfold Surface.add
  cases statement.kind with
  | variableDeclaration keyword bindings => exact hfold (addBinding_alongside place other _ _) _
  | exportClause fromSource typeOnly specifiers =>
    dsimp only
    split
    · exact .ok rfl
    · exact hfold (addSpecifier_alongside place other _) _
  | exportDefault => exact .error _ _
  | functionDeclaration | classDeclaration | typeDeclaration | labeled | other => exact .ok rfl

theorem survey_alongside (surface : Surface) (statements : List Statement) :
    Alongside (fun found also => also = found) (survey place surface statements).2
      (survey other surface statements).2 := by
  induction statements generalizing surface with
  | nil => exact .ok rfl
  | cons statement rest ih =>
    have hadd := add_alongside place other surface statement
    unfold survey
    generalize surface.add place statement = first, surface.add other statement = second at hadd ⊢
    cases hadd with
    | error error also => exact .error _ _
    | ok hsame =>
      rw [hsame]
      exact ih _

end Survey

section Passes

variable {swap : Swap} {buffer other : EditBuffer} {statements : List Statement}
  {start start' : Nat}

theorem applyEdits_alongside (h : Carried swap buffer other) {edits : List Edit}
    (hedits : ∀ edit ∈ edits, edit.Outside swap) :
    Alongside (Carried swap) (applyEdits buffer edits)
      (applyEdits other (edits.map (·.renumbered swap.place))) :=
  (EditBuffer.applyAll_alongside h hedits).mapError _ _

theorem append_carried (h : Carried swap buffer other) (text : Text) :
    Carried swap (buffer.append text) (other.append text) := by
  have happlied : Alongside (Carried swap) (buffer.apply (.append text))
      (other.apply (.append text)) :=
    EditBuffer.apply_alongside h trivial
  cases happlied with
  | ok related => exact related

/-- The same run of edits, written down for either source. -/
theorem applyUntil_map_alongside {α : Type} (h : Carried swap buffer other) {values : List α}
    {f g : α → Edit} (hplaced : ∀ a ∈ values, (f a).Outside swap ∧
      (f a).renumbered swap.place = g a) :
    (∃ last last', buffer.applyUntil (values.map f) = (last, none) ∧
        other.applyUntil (values.map g) = (last', none) ∧ Carried swap last last') ∨
      ∃ last last' refusal refusal', buffer.applyUntil (values.map f) = (last, some refusal) ∧
        other.applyUntil (values.map g) = (last', some refusal') := by
  have hrenumbered : values.map g = (values.map f).map (·.renumbered swap.place) := by
    rw [List.map_map]
    exact List.map_congr_left fun a ha => (hplaced a ha).2.symm
  have houtside : ∀ edit ∈ values.map f, edit.Outside swap := by
    intro edit hedit
    obtain ⟨a, ha, rfl⟩ := List.mem_map.mp hedit
    exact (hplaced a ha).1
  rw [hrenumbered]
  exact EditBuffer.applyUntil_alongside h houtside

theorem cutExports_alongside (h : Carried swap buffer other)
    (hparts : ∀ part ∈ statements.filterMap exportPart?, swap.Spares (part.shifted start) ∧
      (part.shifted start).renumbered swap.place = part.shifted start') :
    (∃ next next' surface, cutExports buffer statements start = (next, .ok surface) ∧
        cutExports other statements start' = (next', .ok surface) ∧ Carried swap next next') ∨
      ∃ next next' refusal refusal', cutExports buffer statements start = (next, .error refusal) ∧
        cutExports other statements start' = (next', .error refusal') := by
  have hsurvey := survey_alongside ⟨buffer.source, start⟩ ⟨other.source, start'⟩ .empty statements
  unfold cutExports
  generalize hfirst : survey ⟨buffer.source, start⟩ .empty statements = first,
    hsecond : survey ⟨other.source, start'⟩ .empty statements = second at hsurvey ⊢
  obtain ⟨parts, outcome⟩ := first
  obtain ⟨parts', outcome'⟩ := second
  dsimp only at hsurvey ⊢
  cases hsurvey with
  | error error error' =>
    refine .inr ?_
    rcases buffer.applyUntil _ with ⟨last, _ | refusal⟩ <;>
      rcases other.applyUntil _ with ⟨last', _ | refusal'⟩ <;>
        exact ⟨_, _, _, _, rfl, rfl⟩
  | ok hsame =>
    obtain ⟨rfl, -⟩ := survey_ok hfirst
    obtain ⟨rfl, -⟩ := survey_ok hsecond
    have hplaced : ∀ part ∈ statements.filterMap exportPart?,
        (Edit.remove (part.shifted start)).Outside swap ∧
          (Edit.remove (part.shifted start)).renumbered swap.place =
            .remove (part.shifted start') :=
      fun part hpart => ⟨(hparts part hpart).1, congrArg Edit.remove (hparts part hpart).2⟩
    rcases applyUntil_map_alongside h hplaced with
      ⟨last, last', hrun, hrun', hlast⟩ | ⟨last, last', refusal, refusal', hrun, hrun'⟩
    · rw [hrun, hrun', hsame]
      exact .inl ⟨_, _, _, rfl, rfl, hlast⟩
    · rw [hrun, hrun']
      exact .inr ⟨_, _, _, _, rfl, rfl⟩

theorem declareReactive_alongside (h : Carried swap buffer other) {declared : List Text}
    (hplaces : ∀ found ∈ firstAssignments declared statements, swap.Outside (found.1 + start) ∧
      swap.place (found.1 + start) = found.1 + start') :
    (∃ next next' found, declareReactive buffer declared statements start = (next, .ok found) ∧
        declareReactive other declared statements start' = (next', .ok found) ∧
        Carried swap next next') ∨
      ∃ next next' refusal refusal',
        declareReactive buffer declared statements start = (next, .error refusal) ∧
        declareReactive other declared statements start' = (next', .error refusal') := by
  have hplaced : ∀ found ∈ firstAssignments declared statements,
      (Edit.insertBefore (found.1 + start) (declarationOf found.2)).Outside swap ∧
        (Edit.insertBefore (found.1 + start) (declarationOf found.2)).renumbered swap.place =
          .insertBefore (found.1 + start') (declarationOf found.2) :=
    fun found hfound => ⟨(hplaces found hfound).1,
      congrArg (Edit.insertBefore · _) (hplaces found hfound).2⟩
  unfold declareReactive
  rw [implicitDeclarations_eq]
  dsimp only
  rcases applyUntil_map_alongside h hplaced with
    ⟨last, last', hrun, hrun', hlast⟩ | ⟨last, last', refusal, refusal', hrun, hrun'⟩
  · rw [hrun, hrun']
    exact .inl ⟨_, _, _, rfl, rfl, hlast⟩
  · rw [hrun, hrun']
    exact .inr ⟨_, _, _, _, rfl, rfl⟩

end Passes

section Scripts

variable {parser : Script.Parser} {swap : Swap} (h : Reread swap) {script : ScriptBlock}
  (hscript : script ∈ (Markup.parse swap.first).document.scripts)
  (hplaces : parser.PlacesItems (Text.slice swap.first script.content))
include h hscript hplaces

/-- What is cut out of the script lies in it. -/
theorem exportPart?_spares {statements : List Statement}
    (hparse : parser.statements (Text.slice swap.first script.content) = .ok statements) :
    ∀ part ∈ statements.filterMap exportPart?, swap.Spares (part.shifted script.content.start) ∧
      (part.shifted script.content.start).renumbered swap.place =
        part.shifted (swap.place script.content.start) := by
  intro part hpart
  obtain ⟨statement, hstatement, hexport⟩ := List.mem_filterMap.mp hpart
  obtain ⟨hle, hstop⟩ := withinScript_of_placesItems hparse hplaces statement hstatement
  have hstart := Nat.le_trans hle hstop
  have hwithin : part.start ≤ Text.bytes (Text.slice swap.first script.content) ∧
      part.stop ≤ Text.bytes (Text.slice swap.first script.content) := by
    rcases (exportPart?_iff hparse hstatement part).mp hexport with ⟨-, hkeyword⟩ | ⟨-, rfl⟩
    · refine ⟨?_, hkeyword.stop_le⟩
      obtain ⟨before, blanks, rest, -, -, rfl, -⟩ := hkeyword
      exact hstart
    · exact ⟨hstart, hstop⟩
  obtain ⟨houter, hplace⟩ := script_offset h hscript hwithin.1
  obtain ⟨houter', hplace'⟩ := script_offset h hscript hwithin.2
  refine ⟨⟨houter, houter'⟩, ?_⟩
  rw [Span.shifted, Span.renumbered, hplace, hplace', Span.shifted]

theorem embedScript_alongside {buffer other : EditBuffer} (hbuffer : Carried swap buffer other)
    (writtenSlots : Text) :
    Alongside (fun found also => also.2 = found.2 ∧ Carried swap found.1 also.1)
      (embedScript parser buffer script writtenSlots)
      (embedScript parser other (script.renumbered swap.place) writtenSlots) := by
  unfold embedScript
  rw [scriptEdits_renumbered h hscript]
  refine (applyEdits_alongside hbuffer (scriptEdits_spare h hscript)).bind
    fun framed framed' hframed => ?_
  have hcontent : Text.slice framed'.source (script.renumbered swap.place).content =
      Text.slice framed.source script.content := by
    rw [hframed.other_eq, hframed.source]
    exact script_content h hscript
  have hstart : (script.renumbered swap.place).content.start = swap.place script.content.start :=
    rfl
  rw [hcontent, hframed.source, hstart]
  have hparsed (start start' : Nat) : Alongside
      (fun found also => also = found ∧
        parser.statements (Text.slice swap.first script.content) = .ok found)
      (parseScript parser (Text.slice swap.first script.content) start)
      (parseScript parser (Text.slice swap.first script.content) start') := by
    unfold parseScript
    cases parser.statements (Text.slice swap.first script.content) with
    | error stopped => exact .error _ _
    | ok statements => exact .ok ⟨rfl, rfl⟩
  refine (hparsed _ _).bind fun statements also hsame => ?_
  obtain ⟨rfl, hparse⟩ := hsame
  rcases cutExports_alongside hframed (exportPart?_spares h hscript hplaces hparse) with
    ⟨cut, cut', surface, hcut, hcut', hcarried⟩ | ⟨cut, cut', refusal, refusal', hcut, hcut'⟩
  · rw [hcut, hcut']
    have hassigned : ∀ found ∈ firstAssignments surface.declared also,
        swap.Outside (found.1 + script.content.start) ∧
          swap.place (found.1 + script.content.start) =
            found.1 + swap.place script.content.start := by
      intro found hfound
      obtain ⟨statement, hstatement, hplace⟩ := firstAssignments_mem hfound
      obtain ⟨hle, hstop⟩ := withinScript_of_placesItems hparse hplaces statement hstatement
      rw [hplace]
      exact script_offset h hscript (Nat.le_trans hle hstop)
    dsimp only [bind, Except.bind]
    rcases declareReactive_alongside hcarried hassigned with
      ⟨full, full', found, hfull, hfull', hlast⟩ | ⟨full, full', refusal, refusal', hfull, hfull'⟩
    · rw [hfull, hfull']
      exact .ok ⟨rfl, append_carried hlast _⟩
    · rw [hfull, hfull']
      exact .error _ _
  · rw [hcut, hcut']
    exact .error _ _

end Scripts

theorem embedMarkup_alongside {swap : Swap} {buffer other : EditBuffer}
    (h : Carried swap buffer other) (writtenSlots : Text) :
    Alongside (Carried swap) (embedMarkup buffer writtenSlots)
      (embedMarkup other writtenSlots) := by
  have hspare : ∀ edit ∈ wrapEdits writtenSlots, edit.Outside swap :=
    List.forall_mem_cons.mpr ⟨swap.outside_zero, List.forall_mem_cons.mpr
      ⟨trivial, List.forall_mem_nil _⟩⟩
  have hrun := applyEdits_alongside h hspare
  rw [wrapEdits, List.map_cons, List.map_cons, Edit.renumbered, Edit.renumbered,
    swap.place_zero] at hrun
  exact hrun

/-- A typed form as it is seen without its map. -/
def TypedForm.withoutMap (form : TypedForm) : TypedForm := { form with map := .empty }

theorem append_finish_code_eq {swap : Swap} (h : Reread swap) {buffer other : EditBuffer}
    (hcarried : Carried swap buffer other) {edits : List Edit}
    (hrecords : buffer.Records swap.first
      (markupEdits (Markup.parse swap.first).document ++ edits)) (text : Text) :
    (other.append text).finish.code = (buffer.append text).finish.code := by
  have hall := append_records hrecords text
  have hremoves : (markupEdits (Markup.parse swap.first).document ++ edits ++
      [Edit.append text]).any (Edit.removes swap.span.start) = true := by
    rw [List.any_append, List.any_append, markupEdits_removes h, Bool.true_or, Bool.true_or]
  obtain ⟨r, hr, hremoved, hin⟩ := (hall.removed_iff _).mpr hremoves
  exact (append_carried hcarried text).finish_code_eq hall.consistent hr hremoved hin

theorem assemble_alongside {parser : Script.Parser} {swap : Swap} (h : Reread swap)
    (hplaces : ∀ script, (Markup.parse swap.first).document.instanceScript? = some script →
      parser.PlacesItems (Text.slice swap.first script.content)) (options : Options) :
    Alongside (fun form other => other.withoutMap = form.withoutMap)
      (assemble parser swap.first (Markup.parse swap.first).document fragmentConverter options)
      (assemble parser swap.second (Markup.parse swap.second).document fragmentConverter
        options) := by
  unfold assemble
  rw [fragmentConverter_renumbered h, styles_renumbered h, instanceScript?_renumbered h]
  have houtside := markupEdits_outside h
  refine ((applyEdits_alongside (EditBuffer.ofText_carried swap)
    fun edit hedit => houtside edit (List.mem_append_left _ hedit)).and_ok fun _ =>
      applyEdits_records (EditBuffer.ofText_records _)).bind fun marked other hmarked => ?_
  refine (ofNodes_alongside h).bind fun _ slots hslots => ?_
  subst hslots
  refine ((applyEdits_alongside hmarked.1
    fun edit hedit => houtside edit (List.mem_append_right _ hedit)).and_ok fun _ =>
      applyEdits_records hmarked.2).bind fun bare other hbare => ?_
  obtain ⟨hcarried, hrecords⟩ := hbare
  cases hscript : (Markup.parse swap.first).document.instanceScript? with
  | none =>
    have hembed := (embedMarkup_alongside hcarried slots.written).and_ok fun _ =>
      applyEdits_records hrecords
    dsimp only [Option.map]
    generalize embedMarkup bare slots.written = first, embedMarkup other slots.written = second
      at hembed ⊢
    cases hembed with
    | error refusal refusal' => exact .error _ _
    | ok hframed =>
      refine .ok ?_
      simp only [TypedForm.withoutMap, append_finish_code_eq h hframed.1 hframed.2]
  | some script =>
    have hmem := List.mem_of_find?_eq_some hscript
    refine ((embedScript_alongside h hmem (hplaces script hscript) hcarried slots.written).and_ok
      fun found => embedScript_records hrecords).bind fun found also hfound => ?_
    obtain ⟨⟨hexports, hlast⟩, _, _, -, -, -, hrecords⟩ := hfound
    refine .ok ?_
    simp only [TypedForm.withoutMap, hexports, append_finish_code_eq h hlast hrecords]

/-- What comments and style blocks say has no part in the typed form. With other
text in one of them a component has a typed form if and only if it had one, and
the two differ in their maps only. The parser is to place the items of the script
in it. -/
theorem typeComponent_rebodied {parser : Script.Parser} {source changed : Text}
    (hclean : (Markup.parse source).errors = []) (h : Markup.Rebodied source changed)
    (hplaces : ∀ script, (Markup.parse source).document.instanceScript? = some script →
      parser.PlacesItems (Text.slice source script.content)) (options : Options) :
    (typeComponent parser changed options).toOption.map TypedForm.withoutMap =
      (typeComponent parser source options).toOption.map TypedForm.withoutMap := by
  obtain ⟨swap, rfl, rfl, hreread⟩ := h.exists_swap hclean
  have hassembled := assemble_alongside hreread hplaces options
  unfold typeComponent typeDocument
  dsimp only
  rw [hclean, hreread.errors]
  exact (hassembled.mapError _ _).toOption_map_eq

def remarkedComponent : Text := "<p><!--a--></p><script>b</script>".toList

def remarkedItems : List Script.Tree.Item :=
  [⟨⟨1, 2⟩, .statement (.expression (.name "b".toList))⟩]

def remarkedParser : Script.Parser := .ofTable 1 [("b".toList, remarkedItems)]

/-- A comment in an element may come to speak of a slot. -/
theorem typeComponent_rebodied_comment :
    ((Markup.parse remarkedComponent).errors = [] ∧
      Markup.Rebodied remarkedComponent "<p><!--<slot>--></p><script>b</script>".toList) ∧
      (typeComponent remarkedParser "<p><!--<slot>--></p><script>b</script>".toList
          .default).toOption.map TypedForm.withoutMap =
        (typeComponent remarkedParser remarkedComponent .default).toOption.map
          TypedForm.withoutMap ∧
      (typeComponent remarkedParser remarkedComponent .default).isOk = true := by
  have hclean : (Markup.parse remarkedComponent).errors = [] := by decide +kernel
  have hcomments : ⟨3, 11⟩ ∈ ((Markup.parse remarkedComponent).document.allNodes.filter
      Node.isComment).map Node.span := by decide +kernel
  obtain ⟨node, hnode, hspan⟩ := List.mem_map.mp hcomments
  obtain ⟨hnode, hcomment⟩ := List.mem_filter.mp hnode
  have hrebodied : Markup.Rebodied remarkedComponent
      "<p><!--<slot>--></p><script>b</script>".toList := by
    cases node with
    | comment span =>
      have hchanged : "<p><!--<slot>--></p><script>b</script>".toList =
          Text.replaced remarkedComponent ⟨span.start + 4, span.stop - 3⟩ "<slot>".toList := by
        rw [show span = ⟨3, 11⟩ from hspan]
        decide +kernel
      rw [hchanged]
      refine .comment hnode ?_ _ (by decide +kernel)
      rw [show span = ⟨3, 11⟩ from hspan]
      decide +kernel
    | element | text | mustache => cases hcomment
  have hcontent : (Markup.parse remarkedComponent).document.instanceScript?.map
      ScriptBlock.content = some ⟨23, 24⟩ := by
    decide +kernel
  have hslice : Text.slice remarkedComponent ⟨23, 24⟩ = "b".toList := by decide +kernel
  have hplaces : ∀ script, (Markup.parse remarkedComponent).document.instanceScript? =
      some script → remarkedParser.PlacesItems (Text.slice remarkedComponent script.content) := by
    intro script hscript
    rw [hscript] at hcontent
    rw [Option.some.inj hcontent, hslice]
    refine Script.Parser.placesItems_of_parse rfl ?_ (List.pairwise_singleton _ _)
    rintro item hitem
    rw [List.mem_singleton.mp hitem]
    exact ⟨by decide, by decide, by decide⟩
  exact ⟨⟨hclean, hrebodied⟩, typeComponent_rebodied hclean hrebodied hplaces .default,
    by decide +kernel⟩

end Component

end TypedComponent
