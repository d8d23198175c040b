import TypedComponent.Proofs.Component.Exports
import TypedComponent.Proofs.Component.Registry

/-!
Which props a script declares by its exports. Exports are collected by their
local name, so there is one prop for each local name: the one that it was
exported as last. Where no local name is exported under two names, the props
are the exports, all of them and nothing else.
-/

namespace TypedComponent.Component

open Script (Binding ExportName ExportSpecifier Statement)

/-- A name of an export as it is written. -/
def writtenExport : ExportName → Text
  | .identifier name => name
  | .quoted literal => literal

/-- The local name and the name outside that a specifier ties together. -/
def specifierNames (specifier : ExportSpecifier) : Text × Text :=
  (writtenExport specifier.localName,
    writtenExport (specifier.exported.getD specifier.localName))

/-- What a statement exports of its own script: each local name with its name
outside. Types are not exported, nor what comes from another module. -/
def exportedNames (statement : Statement) : List (Text × Text) :=
  match statement.kind with
  | .variableDeclaration keyword bindings =>
    if keyword.isSome then (bindings.flatMap Binding.names).map fun name => (name, name) else []
  | .functionDeclaration keyword name | .classDeclaration keyword name =>
    if keyword.isSome then [(name, name)] else []
  | .exportClause fromSource typeOnly specifiers =>
    if fromSource || typeOnly then []
    else (specifiers.filter fun specifier => !specifier.typeOnly).map specifierNames
  | .exportDefault | .typeDeclaration _ | .labeled .. | .other => []

/-- A prop in an object, by its local name and its name outside. -/
def writtenProp (prop : Text × Text) : Text :=
  if prop.2 = prop.1 then prop.1 else prop.2 ++ ": ".toList ++ prop.1

/-- How an export is kept: the name outside only where it is another one. -/
def exportEntry (names : Text × Text) : Text × Option Text :=
  (names.1, if names.2 = names.1 then none else some names.2)

/-- The names of an export that is kept. -/
def entryNames (entry : Text × Option Text) : Text × Text :=
  (entry.1, entry.2.getD entry.1)

theorem entryNames_exportEntry (names : Text × Text) : entryNames (exportEntry names) = names := by
  obtain ⟨name, outside⟩ := names
  by_cases h : outside = name <;> simp [entryNames, exportEntry, h]

theorem propEntry_exportEntry (names : Text × Text) :
    propEntry (exportEntry names) = writtenProp names := by
  obtain ⟨name, outside⟩ := names
  by_cases h : outside = name <;> simp [propEntry, exportEntry, writtenProp, h]

/-- Exports kept in a registry, after those that are in it. -/
def keepExports (exports : Registry (Option Text)) (names : List (Text × Text)) :
    Registry (Option Text) :=
  names.foldl (fun registry pair => registry.insert pair.1 (exportEntry pair).2) exports

theorem keepExports_empty (names : List (Text × Text)) :
    keepExports .empty names = .ofList (names.map exportEntry) := by
  rw [Registry.ofList, List.foldl_map]
  rfl

namespace Surface

/-- A fold keeps what its steps export, one after another. -/
theorem foldlM_exports {α : Type} {step : Surface → α → Except Error Surface}
    {names : α → List (Text × Text)}
    (hstep : ∀ surface a next, step surface a = .ok next →
      next.exports = keepExports surface.exports (names a))
    {values : List α} {surface last : Surface} (h : values.foldlM step surface = .ok last) :
    last.exports = keepExports surface.exports (values.flatMap names) := by
  induction values generalizing surface with
  | nil =>
    cases h
    rfl
  | cons a rest ih =>
    rw [List.foldlM_cons] at h
    obtain ⟨next, hfirst, hrest⟩ := Except.bind_eq_ok.mp h
    rw [ih hrest, hstep surface a next hfirst, List.flatMap_cons, keepExports, keepExports,
      ← List.foldl_append]
    rfl

theorem declare_exports (surface : Surface) (isExported : Bool) (name : Text) :
    (surface.declare isExported name).exports =
      keepExports surface.exports (if isExported then [(name, name)] else []) := by
  cases isExported <;> simp [declare, keepExports, exportEntry]

theorem addBinding_exports {place : ScriptPlace} {span : Span} {isExported : Bool}
    (surface : Surface) (binding : Binding) (next : Surface)
    (h : addBinding place span isExported surface binding = .ok next) :
    next.exports = keepExports surface.exports
      (if isExported then binding.names.map fun name => (name, name) else []) := by
  cases binding with
  | name name =>
    cases h
    exact declare_exports surface isExported name
  | pattern patternSpan names =>
    unfold addBinding at h
    cases isExported with
    | true => cases h
    | false =>
      cases h
      rfl

theorem addSpecifier_exports {place : ScriptPlace} {span : Span} (surface : Surface)
    (specifier : ExportSpecifier) (next : Surface)
    (h : addSpecifier place span surface specifier = .ok next) :
    next.exports = keepExports surface.exports [specifierNames specifier] := by
  obtain ⟨specifierSpan, localName, exported, typeOnly⟩ := specifier
  unfold addSpecifier at h
  obtain ⟨name, hname, h⟩ := Except.bind_eq_ok.mp h
  obtain ⟨outside, houtside, h⟩ := Except.bind_eq_ok.mp h
  cases h
  cases localName with
  | quoted literal => cases hname
  | identifier own =>
    cases hname
    cases exported with
    | none =>
      cases houtside
      simp [keepExports, exportEntry, specifierNames, writtenExport]
    | some other =>
      obtain ⟨found, hfound, hsome⟩ := Except.bind_eq_ok.mp houtside
      cases other with
      | quoted literal => cases hfound
      | identifier renamed =>
        cases hfound
        cases hsome
        by_cases hsame : found = name <;>
          simp [keepExports, exportEntry, specifierNames, writtenExport, Option.filter, hsame]

theorem add_exports {place : ScriptPlace} (surface : Surface) (statement : Statement)
    (next : Surface) (h : surface.add place statement = .ok next) :
    next.exports = keepExports surface.exports (exportedNames statement) := by
  obtain ⟨span, kind⟩ := statement
  cases kind with
  | variableDeclaration keyword bindings =>
    rw [foldlM_exports addBinding_exports h]
    cases hkeyword : keyword.isSome with
    | true => simp [exportedNames, hkeyword, List.map_flatMap]
    | false =>
      have hnone : bindings.flatMap (fun _ => ([] : List (Text × Text))) = [] :=
        List.flatMap_eq_nil_iff.mpr fun _ _ => rfl
      simp [exportedNames, hkeyword, hnone]
  | functionDeclaration keyword name =>
    cases h
    exact declare_exports surface keyword.isSome name
  | classDeclaration keyword name =>
    cases h
    exact declare_exports surface keyword.isSome name
  | exportClause fromSource typeOnly specifiers =>
    simp only [add] at h
    split at h
    · next hoff =>
      cases h
      simp [exportedNames, hoff, keepExports]
    · next hon =>
      rw [foldlM_exports addSpecifier_exports h, exportedNames]
      simp [hon, ← List.map_eq_flatMap]
  | exportDefault => cases h
  | typeDeclaration keyword =>
    cases h
    rfl
  | labeled label assigns =>
    cases h
    rfl
  | other =>
    cases h
    rfl

end Surface

/-- The exports of a script are kept as they come. -/
theorem exports_of_cutExports {buffer last : EditBuffer} {statements : List Statement}
    {start : Nat} {surface : Surface} (h : cutExports buffer statements start = (last, .ok surface)) :
    surface.exports = .ofList ((statements.flatMap exportedNames).map exportEntry) := by
  unfold cutExports at h
  cases hsurvey : survey ⟨buffer.source, start⟩ .empty statements with
  | mk parts outcome =>
    rw [hsurvey] at h
    dsimp only at h
    split at h
    · next cut hcut =>
      cases h
      obtain ⟨-, hfold⟩ := survey_ok hsurvey
      rw [Surface.foldlM_exports Surface.add_exports hfold, ← keepExports_empty]
      rfl
    · cases h

theorem isLast_exportEntry {exports : List (Text × Text)} {name : Text} {kept : Option Text} :
    Registry.IsLast (exports.map exportEntry) name kept ↔
      ∃ outside, Registry.IsLast exports name outside ∧ exportEntry (name, outside) = (name, kept) := by
  constructor
  · rintro ⟨front, rest, hsplit, hlast⟩
    obtain ⟨first, others, rfl, rfl, hothers⟩ := List.map_eq_append_iff.mp hsplit
    obtain ⟨names, behind, rfl, hnames, rfl⟩ := List.map_eq_cons_iff.mp hothers
    obtain ⟨own, outside⟩ := names
    obtain ⟨rfl, -⟩ := Prod.mk.inj hnames
    refine ⟨outside, ⟨first, behind, rfl, ?_⟩, hnames⟩
    simpa [exportEntry, Function.comp_def] using hlast
  · rintro ⟨outside, ⟨front, rest, rfl, hlast⟩, hkept⟩
    refine ⟨front.map exportEntry, rest.map exportEntry, by rw [List.map_append, List.map_cons, hkept],
      ?_⟩
    simpa [exportEntry, Function.comp_def] using hlast

/-- Where every export of a local name is under one name, the last of them is any
of them. -/
theorem isLast_iff_mem {exports : List (Text × Text)}
    (h : ∀ name a b, (name, a) ∈ exports → (name, b) ∈ exports → a = b) {name outside : Text} :
    Registry.IsLast exports name outside ↔ (name, outside) ∈ exports := by
  constructor
  · rintro ⟨front, rest, rfl, -⟩
    simp
  · intro hmem
    have hlocal : name ∈ (Registry.ofList exports).names := by
      rw [Registry.names_ofList, List.mem_eraseDups]
      exact List.mem_map.mpr ⟨_, hmem, rfl⟩
    obtain ⟨⟨own, last⟩, hentry, rfl⟩ := List.mem_map.mp hlocal
    have hlast := Registry.mem_entries_ofList.mp hentry
    obtain ⟨front, rest, hsplit, -⟩ := hlast
    have hsame : last = outside := h own last outside (by rw [hsplit]; simp) hmem
    exact hsame ▸ Registry.mem_entries_ofList.mp hentry

/-- The props of a script, in the order in which local names are first exported.
A local name has one prop, which is the last of its exports; so all exports are
props where no local name is exported under two names. -/
theorem cutExports_props {buffer last : EditBuffer} {statements : List Statement} {start : Nat}
    {surface : Surface} (h : cutExports buffer statements start = (last, .ok surface)) :
    ∃ props : List (Text × Text),
      writtenProps surface.exports =
          Text.inBraces (Text.join " , ".toList (props.map writtenProp)) ∧
        props.map Prod.fst = ((statements.flatMap exportedNames).map Prod.fst).eraseDups ∧
        (∀ name outside, (name, outside) ∈ props ↔
          Registry.IsLast (statements.flatMap exportedNames) name outside) ∧
        ((∀ name a b, (name, a) ∈ statements.flatMap exportedNames →
            (name, b) ∈ statements.flatMap exportedNames → a = b) →
          ∀ names, names ∈ props ↔ names ∈ statements.flatMap exportedNames) := by
  have hexports := exports_of_cutExports h
  have hentries (name : Text) (kept : Option Text) : (name, kept) ∈ surface.exports.entries ↔
      ∃ outside, Registry.IsLast (statements.flatMap exportedNames) name outside ∧
        exportEntry (name, outside) = (name, kept) := by
    rw [hexports, Registry.mem_entries_ofList, isLast_exportEntry]
  have hmem (name outside : Text) : (name, outside) ∈ surface.exports.entries.map entryNames ↔
      Registry.IsLast (statements.flatMap exportedNames) name outside := by
    constructor
    · intro hprop
      obtain ⟨⟨own, kept⟩, hentry, hnames⟩ := List.mem_map.mp hprop
      obtain ⟨found, hlast, hkept⟩ := (hentries own kept).mp hentry
      rw [← hkept, entryNames_exportEntry] at hnames
      cases hnames
      exact hlast
    · intro hlast
      refine List.mem_map.mpr ⟨exportEntry (name, outside), ?_, entryNames_exportEntry _⟩
      exact (hentries name _).mpr ⟨outside, hlast, rfl⟩
  refine ⟨surface.exports.entries.map entryNames, ?_, ?_, hmem, ?_⟩
  · rw [writtenProps, List.map_map]
    congr 2
    refine List.map_congr_left ?_
    rintro ⟨name, kept⟩ hentry
    obtain ⟨outside, -, hkept⟩ := (hentries name kept).mp hentry
    rw [Function.comp_apply, ← hkept, entryNames_exportEntry, propEntry_exportEntry]
  · have hnames : (surface.exports.entries.map entryNames).map Prod.fst = surface.exports.names := by
      rw [List.map_map]
      rfl
    rw [hnames, hexports, Registry.names_ofList, List.map_map]
    rfl
  · rintro hone ⟨name, outside⟩
    rw [hmem, isLast_iff_mem hone]

/-- A script that exports one name twice, each time as it is, and another name
under a new one. -/
def reexportingScript : Text := "let c;export let a;export\x7bc as d, a\x7d".toList

def reexportingStatements : List Statement :=
  [⟨⟨0, 6⟩, .variableDeclaration none [.name "c".toList]⟩,
    ⟨⟨6, 19⟩, .variableDeclaration (some ⟨6, 13⟩) [.name "a".toList]⟩,
    ⟨⟨19, 36⟩, .exportClause false false
      [⟨⟨26, 32⟩, .identifier "c".toList, some (.identifier "d".toList), false⟩,
        ⟨⟨34, 35⟩, .identifier "a".toList, none, false⟩]⟩]

theorem cutExports_props_reexporting :
    ∃ last surface, cutExports (.ofText reexportingScript) reexportingStatements 0 =
        (last, .ok surface) ∧
      ∃ props : List (Text × Text),
        writtenProps surface.exports =
          Text.inBraces (Text.join " , ".toList (props.map writtenProp)) ∧
        props.map Prod.fst = ["a".toList, "c".toList] ∧
        ∀ names, names ∈ props ↔
          names = ("a".toList, "a".toList) ∨ names = ("c".toList, "d".toList) := by
  have hsucceeds : (cutExports (.ofText reexportingScript) reexportingStatements 0).2.isOk = true := by
    decide +kernel
  have hexports : reexportingStatements.flatMap exportedNames =
      [("a".toList, "a".toList), ("c".toList, "d".toList), ("a".toList, "a".toList)] := by
    decide +kernel
  cases hcut : cutExports (.ofText reexportingScript) reexportingStatements 0 with
  | mk last outcome =>
    rw [hcut] at hsucceeds
    cases outcome with
    | error error => cases hsucceeds
    | ok surface =>
      obtain ⟨props, htext, horder, -, hall⟩ := cutExports_props hcut
      rw [hexports] at horder hall
      refine ⟨last, surface, rfl, props, htext, horder.trans (by decide +kernel), ?_⟩
      have hone (name a b : Text) (ha : (name, a) ∈ reexportingStatements.flatMap exportedNames)
          (hb : (name, b) ∈ reexportingStatements.flatMap exportedNames) : a = b := by
        simp only [hexports, List.mem_cons, Prod.mk.injEq, List.not_mem_nil, or_false] at ha hb
        rcases ha with ⟨rfl, rfl⟩ | ⟨rfl, rfl⟩ | ⟨rfl, rfl⟩ <;> exact Eq.symm (by simpa using hb)
      rw [hexports] at hone
      intro names
      rw [hall hone names]
      simp only [List.mem_cons, List.not_mem_nil, or_false]
      tauto

theorem mem_join {separator text : Text} {texts : List Text} (h : text ∈ texts) {c : Char}
    (hc : c ∈ text) : c ∈ Text.join separator texts := by
  fun_induction Text.join separator texts with
  | case1 => cases h
  | case2 only => rwa [← List.mem_singleton.mp h]
  | case3 first second rest ih =>
    rcases List.mem_cons.mp h with rfl | hrest
    · simp [hc]
    · simp [ih hrest]

/-- A clause that exports one name under two others. -/
def aliasedStatements : List Statement :=
  [⟨⟨0, 6⟩, .variableDeclaration none [.name "a".toList]⟩,
    ⟨⟨6, 32⟩, .exportClause false false
      [⟨⟨15, 21⟩, .identifier "a".toList, some (.identifier "b".toList), false⟩,
        ⟨⟨23, 29⟩, .identifier "a".toList, some (.identifier "c".toList), false⟩]⟩]

/-- An export is lost where its local name is exported again under another name. -/
theorem exports_not_all_props :
    ¬ ∀ (buffer last : EditBuffer) (statements : List Statement) (start : Nat) (surface : Surface),
      cutExports buffer statements start = (last, .ok surface) →
      ∃ props : List (Text × Text),
        writtenProps surface.exports =
          Text.inBraces (Text.join " , ".toList (props.map writtenProp)) ∧
        ∀ names, names ∈ props ↔ names ∈ statements.flatMap exportedNames := by
  intro h
  have hwritten : (cutExports (.ofText "let a;export \x7b a as b, a as c \x7d;".toList)
      aliasedStatements 0).2.toOption.map (fun surface => writtenProps surface.exports) =
        some "\x7bc: a\x7d".toList := by
    decide +kernel
  cases hcut : cutExports (.ofText "let a;export \x7b a as b, a as c \x7d;".toList)
      aliasedStatements 0 with
  | mk last outcome =>
    rw [hcut] at hwritten
    cases outcome with
    | error error => cases hwritten
    | ok surface =>
      obtain ⟨props, htext, hall⟩ := h _ last _ 0 surface hcut
      have hlost : ("a".toList, "b".toList) ∈ props := (hall _).mpr (by decide +kernel)
      have hwrittenLost : 'b' ∈ Text.join " , ".toList (props.map writtenProp) :=
        mem_join (List.mem_map_of_mem hlost) (by decide +kernel)
      have hb : 'b' ∈ writtenProps surface.exports := by
        rw [htext]
        exact List.mem_cons_of_mem _ (List.mem_append_left _ hwrittenLost)
      have hobject : writtenProps surface.exports = "\x7bc: a\x7d".toList := Option.some.inj hwritten
      rw [hobject] at hb
      revert hb
      decide

end TypedComponent.Component
