import Mathlib.Data.List.Basic
import TypedComponent.Proofs.Script.Places

/-!
A statement of a script by itself. Its text and what it is do not depend on where
it stands: the same statement at another place has all its spans moved, and but for
spans nothing of it is told otherwise.
-/

namespace TypedComponent

theorem Span.shifted_shiftedBack (span : Span) (delta : Nat) :
    (span.shifted delta).shiftedBack delta = span := by
  simp [Span.shifted, Span.shiftedBack]

theorem Span.shiftedBack_shifted {span : Span} {delta : Nat} (hstart : delta ≤ span.start)
    (hstop : delta ≤ span.stop) : (span.shiftedBack delta).shifted delta = span := by
  simp [Span.shifted, Span.shiftedBack, Nat.sub_add_cancel hstart, Nat.sub_add_cancel hstop]

/-- A span of a text in front of which and behind which there is more. -/
theorem Text.slice_within {text : Text} {span : Span} (h : span.LiesIn text)
    (before behind : Text) :
    Text.slice (before ++ text ++ behind) (span.shifted (Text.bytes before)) =
      Text.slice text span := by
  obtain ⟨front, rest, htext, hfront, hbytes⟩ :=
    Text.exists_slice span h.start_place h.stop_place h.start_le
  apply Text.slice_of_append (a := before ++ front) (b := rest ++ behind)
  · refine (congrArg (before ++ · ++ behind) htext).trans ?_
    simp only [List.append_assoc]
  · rw [Text.bytes_append, hfront, Span.shifted, Nat.add_comm]
  · rw [hbytes, Span.shifted]
    simp only [Span.length]
    omega

/-- A place of a text that is not outside of a slice is one of the slice. -/
theorem Text.isBoundary_slice {text : Text} {span : Span} (h : span.LiesIn text) {offset : Nat}
    (hoffset : Text.isBoundary text offset = true) (hstart : span.start ≤ offset)
    (hstop : offset ≤ span.stop) :
    Text.isBoundary (Text.slice text span) (offset - span.start) = true := by
  obtain ⟨front, rest, htext, hfront, hbytes⟩ :=
    Text.exists_slice span h.start_place h.stop_place h.start_le
  obtain ⟨before, behind, hcut, hbefore⟩ := Text.isBoundary_iff.mp hoffset
  rw [List.append_assoc] at htext
  obtain ⟨first, rfl, hmiddle⟩ :=
    Text.append_eq_append_of_bytes_le (htext.symm.trans hcut) (by omega)
  rw [Text.bytes_append] at hbefore
  obtain ⟨last, hslice, -⟩ := Text.append_eq_append_of_bytes_le hmiddle.symm (by
    rw [hbytes]
    unfold Span.length
    omega)
  exact Text.isBoundary_iff.mpr ⟨first, last, hslice, by omega⟩

theorem Span.LiesIn.shiftedBack {text : Text} {outer inner : Span} (h : inner.LiesIn text)
    (houter : outer.LiesIn text) (hstart : outer.start ≤ inner.start)
    (hstop : inner.stop ≤ outer.stop) :
    (inner.shiftedBack outer.start).LiesIn (Text.slice text outer) := by
  have hle := h.start_le
  exact {
    start_place := Text.isBoundary_slice houter h.start_place hstart (by omega)
    stop_place := Text.isBoundary_slice houter h.stop_place (by omega) hstop
    start_le := Nat.sub_le_sub_right hle _ }

namespace Script

namespace Tree

section MapSpans

variable (f : Span → Span)

def Declarator.mapSpan (declarator : Declarator) : Declarator :=
  { declarator with span := f declarator.span }

def Declaration.mapSpans : Declaration → Declaration
  | .variableDeclaration isAmbient declarators =>
    .variableDeclaration isAmbient (declarators.map (Declarator.mapSpan f))
  | other => other

def Statement.mapSpans : Statement → Statement
  | .declaration declared => .declaration (declared.mapSpans f)
  | .labeled label body => .labeled label body.mapSpans
  | .expression value => .expression value
  | .other => .other

def ExportName.mapSpan : ExportName → ExportName
  | .identifier name => .identifier name
  | .string span => .string (f span)

def ExportSpecifier.mapSpans : ExportSpecifier → ExportSpecifier
  | .named span original exported isTypeOnly =>
    .named (f span) (original.mapSpan f) (exported.map (ExportName.mapSpan f)) isTypeOnly
  | other => other

/-- An item with all spans in it replaced, as they are when it stands elsewhere. -/
def ItemKind.mapSpans : ItemKind → ItemKind
  | .exportedDeclaration declared => .exportedDeclaration (declared.mapSpans f)
  | .exportedNames specifiers source isTypeOnly =>
    .exportedNames (specifiers.map (ExportSpecifier.mapSpans f)) source isTypeOnly
  | .statement inner => .statement (inner.mapSpans f)
  | other => other

end MapSpans

section Inverse

variable {f g : Span → Span}

theorem Declaration.mapSpans_mapSpans {declared : Declaration}
    (h : ∀ part ∈ declared.parts, g (f part) = part) :
    (declared.mapSpans f).mapSpans g = declared := by
  cases declared with
  | variableDeclaration isAmbient declarators =>
    rw [Declaration.mapSpans, Declaration.mapSpans, List.map_map]
    congr 1
    refine (List.map_congr_left fun declarator hmem => ?_).trans (List.map_id _)
    rw [Function.comp_apply, Declarator.mapSpan, Declarator.mapSpan,
      h declarator.span (List.mem_map_of_mem hmem)]
    rfl
  | _ => rfl

theorem Statement.mapSpans_mapSpans {statement : Statement}
    (h : ∀ part ∈ statement.parts, g (f part) = part) :
    (statement.mapSpans f).mapSpans g = statement := by
  induction statement with
  | declaration declared => exact congrArg Statement.declaration (Declaration.mapSpans_mapSpans h)
  | labeled label body ih => exact congrArg (Statement.labeled label) (ih h)
  | expression value | other => rfl

theorem ExportName.mapSpan_mapSpan {name : ExportName}
    (h : ∀ part ∈ name.parts, g (f part) = part) : (name.mapSpan f).mapSpan g = name := by
  cases name with
  | identifier name => rfl
  | string span => exact congrArg ExportName.string (h span List.mem_cons_self)

theorem ExportSpecifier.mapSpans_mapSpans {specifier : ExportSpecifier}
    (h : ∀ part ∈ specifier.parts, g (f part) = part) :
    (specifier.mapSpans f).mapSpans g = specifier := by
  cases specifier with
  | named span original exported isTypeOnly =>
    have hspan := h span List.mem_cons_self
    have horiginal : (original.mapSpan f).mapSpan g = original :=
      ExportName.mapSpan_mapSpan fun part hpart =>
        h part (List.mem_cons_of_mem _ (List.mem_append_left _ hpart))
    have hexported : (exported.map (ExportName.mapSpan f)).map (ExportName.mapSpan g) =
        exported := by
      cases exported with
      | none => rfl
      | some name =>
        refine congrArg some (ExportName.mapSpan_mapSpan fun part hpart =>
          h part (List.mem_cons_of_mem _ (List.mem_append_right _ ?_)))
        simpa using hpart
    rw [ExportSpecifier.mapSpans, ExportSpecifier.mapSpans, hspan, horiginal, hexported]
  | everything | byDefault => rfl

theorem ItemKind.mapSpans_mapSpans {kind : ItemKind}
    (h : ∀ part ∈ kind.parts, g (f part) = part) : (kind.mapSpans f).mapSpans g = kind := by
  cases kind with
  | exportedDeclaration declared =>
    exact congrArg ItemKind.exportedDeclaration (Declaration.mapSpans_mapSpans h)
  | exportedNames specifiers source isTypeOnly =>
    rw [ItemKind.mapSpans, ItemKind.mapSpans, List.map_map]
    congr 1
    refine (List.map_congr_left fun specifier hmem => ?_).trans (List.map_id _)
    exact ExportSpecifier.mapSpans_mapSpans fun part hpart =>
      h part (List.mem_flatMap.mpr ⟨specifier, hmem, hpart⟩)
  | statement inner => exact congrArg ItemKind.statement (Statement.mapSpans_mapSpans h)
  | _ => rfl

theorem ExportName.parts_mapSpan (name : ExportName) :
    (name.mapSpan f).parts = name.parts.map f := by
  cases name <;> rfl

theorem ExportSpecifier.parts_mapSpans (specifier : ExportSpecifier) :
    (specifier.mapSpans f).parts = specifier.parts.map f := by
  cases specifier with
  | named span original exported isTypeOnly =>
    cases exported <;>
      simp [ExportSpecifier.mapSpans, ExportSpecifier.parts, ExportName.parts_mapSpan]
  | everything | byDefault => rfl

theorem Statement.assigns?_mapSpans (statement : Statement) :
    (statement.mapSpans f).assigns? = statement.assigns? := by
  cases statement <;> rfl

end Inverse

end Tree

section Unplaced

/-- What a declarator binds, but for places. -/
def Binding.unplaced : Binding → Binding
  | .name own => .name own
  | .pattern _ names => .pattern (.empty 0) names

/-- What a statement is, but for places. -/
def StatementKind.unplaced : StatementKind → StatementKind
  | .variableDeclaration keyword bindings =>
    .variableDeclaration (keyword.map fun _ => .empty 0) (bindings.map Binding.unplaced)
  | .functionDeclaration keyword name =>
    .functionDeclaration (keyword.map fun _ => .empty 0) name
  | .classDeclaration keyword name => .classDeclaration (keyword.map fun _ => .empty 0) name
  | .typeDeclaration keyword => .typeDeclaration (keyword.map fun _ => .empty 0)
  | .exportClause fromSource typeOnly specifiers =>
    .exportClause fromSource typeOnly
      (specifiers.map fun specifier => { specifier with span := .empty 0 })
  | kind => kind

end Unplaced

/-- A statement by its text, with spans that count from the start of that text.
The names of an export clause lie in it, and what is exported is behind the word
`export`. -/
structure Phrase where
  text : Text
  kind : Tree.ItemKind
  names_lieIn : ∀ specifiers source isTypeOnly,
    kind = .exportedNames specifiers source isTypeOnly → ∀ part ∈ kind.parts, part.LiesIn text
  leads : ∀ declared, kind = .exportedDeclaration declared → ExportsDeclaration text

/-- A statement that exports nothing, by its text. -/
def Phrase.ofStatement (text : Text) (statement : Tree.Statement) : Phrase where
  text := text
  kind := .statement statement
  names_lieIn := nofun
  leads := nofun

theorem Phrase.ext {p q : Phrase} (htext : p.text = q.text) (hkind : p.kind = q.kind) : p = q := by
  obtain ⟨text, kind, names, leads⟩ := p
  obtain ⟨otherText, otherKind, otherNames, otherLeads⟩ := q
  cases htext
  cases hkind
  rfl

/-- What a statement is by its own text, but for places. -/
def Phrase.meaning (phrase : Phrase) : StatementKind :=
  (Lowering.kind ⟨phrase.text, 0⟩ 0 phrase.kind).unplaced

section Meaning

variable {f : Span → Span} (lower other : Lowering)

theorem Lowering.binding_unplaced (declarator : Tree.Declarator) :
    (lower.binding (declarator.mapSpan f)).unplaced = (other.binding declarator).unplaced := by
  obtain ⟨span, target⟩ := declarator
  cases target <;> rfl

/-- A declaration is the same elsewhere if it is exported there as well. -/
theorem Lowering.declaration_unplaced {keyword keyword' : Option Span}
    (hkeyword : keyword.isSome = keyword'.isSome) (declared : Tree.Declaration) :
    (lower.declaration keyword (declared.mapSpans f)).unplaced =
      (other.declaration keyword' declared).unplaced := by
  have hsame : keyword.map (fun _ => Span.empty 0) = keyword'.map fun _ => Span.empty 0 := by
    cases keyword <;> cases keyword' <;> first | rfl | cases hkeyword
  cases declared with
  | variableDeclaration isAmbient declarators =>
    cases isAmbient with
    | true => exact congrArg StatementKind.typeDeclaration hsame
    | false =>
      simp only [Tree.Declaration.mapSpans, Lowering.declaration, StatementKind.unplaced, hsame,
        List.map_map]
      congr 1
      exact List.map_congr_left fun declarator _ => lower.binding_unplaced other declarator
  | functionDeclaration isAmbient name =>
    cases isAmbient with
    | true => exact congrArg StatementKind.typeDeclaration hsame
    | false => exact congrArg (StatementKind.functionDeclaration · name) hsame
  | classDeclaration isAmbient name =>
    cases isAmbient with
    | true => exact congrArg StatementKind.typeDeclaration hsame
    | false => exact congrArg (StatementKind.classDeclaration · name) hsame
  | usingDeclaration => rfl
  | _ => exact congrArg StatementKind.typeDeclaration hsame

theorem Lowering.statement_unplaced (statement : Tree.Statement) :
    (lower.statement (statement.mapSpans f)).unplaced = (other.statement statement).unplaced := by
  cases statement with
  | declaration declared => exact lower.declaration_unplaced other rfl declared
  | labeled label body =>
    exact congrArg (StatementKind.labeled label) (Tree.Statement.assigns?_mapSpans body)
  | expression value | other => rfl

variable {text before behind : Text} {base : Nat}

theorem Lowering.span_shifted (span : Span) :
    (⟨text, base⟩ : Lowering).span (span.shifted (base + Text.bytes before)) =
      span.shifted (Text.bytes before) := by
  simp only [Lowering.span, Span.shifted, Span.shiftedBack, Span.mk.injEq]
  omega

theorem Lowering.exportName_shifted {name : Tree.ExportName}
    (h : ∀ part ∈ name.parts, part.LiesIn text) :
    Lowering.exportName ⟨before ++ text ++ behind, base⟩
        (name.mapSpan (·.shifted (base + Text.bytes before))) =
      Lowering.exportName ⟨text, 0⟩ name := by
  cases name with
  | identifier name => rfl
  | string span =>
    refine congrArg ExportName.quoted ?_
    rw [Lowering.span_shifted, Text.slice_within (h span List.mem_cons_self)]
    rfl

theorem Lowering.exportSpecifier?_shifted {specifier : Tree.ExportSpecifier}
    (h : ∀ part ∈ specifier.parts, part.LiesIn text) :
    (Lowering.exportSpecifier? ⟨before ++ text ++ behind, base⟩
        (specifier.mapSpans (·.shifted (base + Text.bytes before)))).map
          (fun found => { found with span := Span.empty 0 }) =
      (Lowering.exportSpecifier? ⟨text, 0⟩ specifier).map
        fun found => { found with span := Span.empty 0 } := by
  cases specifier with
  | named span original exported isTypeOnly =>
    have horiginal : Lowering.exportName ⟨before ++ text ++ behind, base⟩
        (original.mapSpan (·.shifted (base + Text.bytes before))) =
          Lowering.exportName ⟨text, 0⟩ original :=
      Lowering.exportName_shifted fun part hpart =>
        h part (List.mem_cons_of_mem _ (List.mem_append_left _ hpart))
    have hexported : (exported.map (Tree.ExportName.mapSpan
        (·.shifted (base + Text.bytes before)))).map
          (Lowering.exportName ⟨before ++ text ++ behind, base⟩) =
            exported.map (Lowering.exportName ⟨text, 0⟩) := by
      cases exported with
      | none => rfl
      | some name =>
        refine congrArg some (Lowering.exportName_shifted fun part hpart =>
          h part (List.mem_cons_of_mem _ (List.mem_append_right _ ?_)))
        simpa using hpart
    simp only [Tree.ExportSpecifier.mapSpans, Lowering.exportSpecifier?, Option.map_some, horiginal,
      hexported]
  | everything | byDefault => rfl

/-- A statement that is exported has its keyword wherever it stands. -/
theorem ExportsDeclaration.exportKeyword?_isSome (h : ExportsDeclaration text)
    (before behind : Text) :
    (exportKeyword? (before ++ text ++ behind) (Text.bytes before)).isSome = true := by
  obtain ⟨blanks, first, rest, rfl, -, -⟩ := h
  rw [List.append_assoc before, exportKeyword?_append, List.append_assoc, List.append_assoc,
    Text.after?_append]
  rfl

/-- What a statement is does not depend on what stands around it. -/
theorem Lowering.kind_shifted (phrase : Phrase) (before behind : Text) (base : Nat) :
    (Lowering.kind ⟨before ++ phrase.text ++ behind, base⟩ (Text.bytes before)
        (phrase.kind.mapSpans (·.shifted (base + Text.bytes before)))).unplaced =
      phrase.meaning := by
  obtain ⟨text, kind, hnames, hleads⟩ := phrase
  unfold Phrase.meaning
  cases kind with
  | exportedDeclaration declared =>
    have hexports := hleads declared rfl
    have hown := hexports.exportKeyword?_isSome [] []
    rw [List.append_nil] at hown
    exact Lowering.declaration_unplaced _ _
      ((hexports.exportKeyword?_isSome before behind).trans hown.symm) declared
  | exportedNames specifiers source isTypeOnly =>
    have hlies := hnames specifiers source isTypeOnly rfl
    refine congrArg (StatementKind.exportClause _ _) ?_
    rw [List.map_filterMap, List.map_filterMap, List.filterMap_map]
    refine List.filterMap_congr fun specifier hmem => ?_
    exact Lowering.exportSpecifier?_shifted fun part hpart =>
      hlies part (List.mem_flatMap.mpr ⟨specifier, hmem, hpart⟩)
  | statement inner => exact Lowering.statement_unplaced _ _ inner
  | _ => rfl

end Meaning

end Script

end TypedComponent
