import TypedComponent.Proofs.Component.CutScript
import TypedComponent.Proofs.Component.ExportedProps
import TypedComponent.Proofs.Component.Outcome

/-!
How cutting the exports out of a script ends, and what is then in the buffer.
The statements need not come from a parser. It is enough that they lie one after
another in the source, wherever the script begins in it.

At the first construct that no prop can stand for the cutting ends, with the cuts
of the statements before. In one statement the first construct is the one that is
listed first, since nothing is asked about where those of one statement stand.
-/

namespace TypedComponent

namespace EditBuffer

/-- A source of which stretches are left out, and with no other edits. -/
def leavingOut (source : Text) (ranges : List Span) : EditBuffer :=
  { ofText source with replacements := ranges.map fun range => ⟨range, none⟩ }

section Removals

variable {source : Text} {removed : List Span}

theorem remove_leavingOut {range : Span} (hstart : Text.isBoundary source range.start = true)
    (hstop : Text.isBoundary source range.stop = true) (hlt : range.start < range.stop)
    (hapart : ∀ earlier ∈ removed, earlier.Apart range) :
    (leavingOut source removed).remove range = .ok (leavingOut source (removed ++ [range])) := by
  have hreplaced : ∀ r ∈ (leavingOut source removed).replacements, r.range.Apart range := by
    intro r hr
    obtain ⟨earlier, hearlier, rfl⟩ := List.mem_map.mp hr
    exact hapart earlier hearlier
  obtain ⟨next, hnext⟩ : ∃ next, (leavingOut source removed).remove range = .ok next :=
    remove_accepts hstart hstop (Nat.le_of_lt hlt) (fun r hr => .inl (hreplaced r hr))
      (List.forall_mem_nil _) (List.forall_mem_nil _) (List.forall_mem_nil _)
  rw [hnext]
  obtain ⟨-, -, -, ⟨-, hempty | ⟨r, hr, -, hcovers⟩⟩ | ⟨-, rfl, -⟩⟩ := remove_ok hnext
  · omega
  · have hclear := hreplaced r hr
    rw [Span.containsSpan_iff] at hcovers
    unfold Span.Apart at hclear
    omega
  · have hkept : (leavingOut source removed).replacements.filter
        (fun r => !r.range.overlaps range) = (leavingOut source removed).replacements :=
      List.filter_eq_self.mpr fun r hr => by
        rw [(Span.overlaps_eq_false _ _).mpr (hreplaced r hr)]
        rfl
    rw [hkept]
    simp [leavingOut]

/-- Stretches that are apart are left out one after another. -/
theorem applyUntil_leavingOut {ranges : List Span}
    (hplaces : ∀ range ∈ ranges, Text.isBoundary source range.start = true ∧
      Text.isBoundary source range.stop = true ∧ range.start < range.stop)
    (hapart : (removed ++ ranges).Pairwise Span.Apart) :
    (leavingOut source removed).applyUntil (ranges.map Edit.remove) =
      (leavingOut source (removed ++ ranges), none) := by
  induction ranges generalizing removed with
  | nil => rw [List.append_nil]; rfl
  | cons range rest ih =>
    obtain ⟨hstart, hstop, hlt⟩ := hplaces range List.mem_cons_self
    have hremove : (leavingOut source removed).apply (.remove range) =
        .ok (leavingOut source (removed ++ [range])) :=
      remove_leavingOut hstart hstop hlt fun earlier hearlier =>
        (List.pairwise_append.mp hapart).2.2 earlier hearlier range List.mem_cons_self
    rw [List.append_cons] at hapart ⊢
    rw [List.map_cons, applyUntil, hremove]
    exact ih (fun other hother => hplaces other (List.mem_cons_of_mem _ hother)) hapart

/-- The text of a buffer that has taken in removals only. -/
theorem Records.code_of_removals {buffer : EditBuffer} {ranges : List Span}
    (h : buffer.Records source (ranges.map Edit.remove)) :
    buffer.finish.code = Text.without source ranges := by
  have hcode : buffer.finish.code = _ := h.pieces_agree.text
  rw [hcode, Cellwise.removed_text]

end Removals

end EditBuffer

namespace Component

open Script (Statement)

/-- Statements of a script that begins somewhere in a source. They lie in the
source one after another, an export keyword is the beginning of its statement, and
what is in the way of props is in its statement. -/
structure PlacedScript (source : Text) (start : Nat) (statements : List Statement) : Prop where
  liesIn : ∀ s ∈ statements, (s.span.shifted start).LiesIn source
  start_lt : ∀ s ∈ statements, s.span.start < s.span.stop
  ordered : statements.Pairwise fun first second => first.span.stop ≤ second.span.start
  keyword_begins : ∀ s ∈ statements, ∀ keyword ∈ s.kind.keyword?,
    keyword.start = s.span.start ∧ keyword.start < keyword.stop ∧ keyword.stop ≤ s.span.stop ∧
      Text.isBoundary source (keyword.shifted start).stop = true
  obstacle_within : ∀ s ∈ statements, ∀ obstacle ∈ obstacles s,
    s.span.start ≤ obstacle.offset ∧ obstacle.offset ≤ s.span.stop

/-- What makes the statements of a script exports, as stretches of the source. -/
def exportSpans (start : Nat) (statements : List Statement) : List Span :=
  (statements.filterMap exportPart?).map (·.shifted start)

theorem exportCuts_eq (start : Nat) (statements : List Statement) :
    exportCuts start statements = (exportSpans start statements).map Edit.remove := by
  rw [exportSpans, List.map_map]
  rfl

namespace PlacedScript

variable {source : Text} {start : Nat} {statements : List Statement}

theorem sublist {others : List Statement} (h : PlacedScript source start statements)
    (hsub : others.Sublist statements) : PlacedScript source start others where
  liesIn := fun s hs => h.liesIn s (hsub.subset hs)
  start_lt := fun s hs => h.start_lt s (hsub.subset hs)
  ordered := h.ordered.sublist hsub
  keyword_begins := fun s hs => h.keyword_begins s (hsub.subset hs)
  obstacle_within := fun s hs => h.obstacle_within s (hsub.subset hs)

theorem part_place (h : PlacedScript source start statements) {statement : Statement}
    (hmem : statement ∈ statements) {part : Span} (hpart : part ∈ exportPart? statement) :
    part.start = statement.span.start ∧ part.start < part.stop ∧
      part.stop ≤ statement.span.stop ∧
      Text.isBoundary source (part.shifted start).stop = true := by
  have hkeyword := h.keyword_begins statement hmem
  have hlt := h.start_lt statement hmem
  have hspan := h.liesIn statement hmem
  obtain ⟨span, kind⟩ := statement
  cases kind with
  | variableDeclaration keyword bindings => exact hkeyword part hpart
  | functionDeclaration keyword name => exact hkeyword part hpart
  | classDeclaration keyword name => exact hkeyword part hpart
  | typeDeclaration keyword => exact hkeyword part hpart
  | exportClause fromSource typeOnly specifiers =>
    cases hpart
    exact ⟨rfl, hlt, Nat.le_refl _, hspan.stop_place⟩
  | exportDefault => cases hpart
  | labeled label assigns => cases hpart
  | other => cases hpart

theorem exportSpans_place (h : PlacedScript source start statements) :
    ∀ span ∈ exportSpans start statements, Text.isBoundary source span.start = true ∧
      Text.isBoundary source span.stop = true ∧ span.start < span.stop := by
  intro span hspan
  obtain ⟨part, hpart, rfl⟩ := List.mem_map.mp hspan
  obtain ⟨statement, hmem, hcut⟩ := List.mem_filterMap.mp hpart
  obtain ⟨hstart, hlt, -, hstop⟩ := h.part_place hmem hcut
  refine ⟨?_, hstop, Nat.add_lt_add_right hlt start⟩
  have hplace := (h.liesIn statement hmem).start_place
  rwa [Span.shifted, hstart]

theorem exportSpans_apart (h : PlacedScript source start statements) :
    (exportSpans start statements).Pairwise Span.Apart := by
  rw [exportSpans, List.pairwise_map, List.pairwise_filterMap]
  refine h.ordered.imp_of_mem ?_
  intro first second hfirst hsecond hbefore part hpart other hother
  obtain ⟨-, -, hstop, -⟩ := h.part_place hfirst hpart
  obtain ⟨hstart, -⟩ := h.part_place hsecond hother
  refine .inl ?_
  simp only [Span.shifted]
  omega

/-- Of a fresh buffer just the exports are left out. -/
theorem applyUntil_exportCuts (h : PlacedScript source start statements) :
    (EditBuffer.ofText source).applyUntil (exportCuts start statements) =
      (.leavingOut source (exportSpans start statements), none) := by
  have hapart : ([] ++ exportSpans start statements).Pairwise Span.Apart := h.exportSpans_apart
  rw [exportCuts_eq]
  exact EditBuffer.applyUntil_leavingOut h.exportSpans_place hapart

theorem leavingOut_code (h : PlacedScript source start statements) :
    (EditBuffer.leavingOut source (exportSpans start statements)).finish.code =
      Text.without source (exportSpans start statements) := by
  have hrecords := EditBuffer.applyUntil_records (EditBuffer.ofText_records source)
    h.applyUntil_exportCuts
  rw [List.nil_append, exportCuts_eq] at hrecords
  exact hrecords.code_of_removals

/-- What is first in the way stands before all that is in the way in later
statements. -/
theorem first_offset_le {statement : Statement} {rest : List Statement}
    (h : PlacedScript source start (statement :: rest)) {first : Obstacle}
    (hfirst : first ∈ obstacles statement) {s : Statement} (hs : s ∈ rest) {other : Obstacle}
    (hother : other ∈ obstacles s) : first.offset ≤ other.offset := by
  have hwithin := (h.obstacle_within statement List.mem_cons_self first hfirst).2
  have hlater := (h.obstacle_within s (List.mem_cons_of_mem _ hs) other hother).1
  have hbefore := List.rel_of_pairwise_cons h.ordered hs
  omega

end PlacedScript

/-- The surface of statements that were all taken in: each local name once, in the
order of the first exports, as it was exported last, and all declared names. -/
structure Collected (statements : List Statement) (surface : Surface) : Prop where
  names_eq : surface.exports.names = ((statements.flatMap exportedNames).map Prod.fst).eraseDups
  mem_entries : ∀ name kept, (name, kept) ∈ surface.exports.entries ↔
    ∃ outside, Registry.IsLast (statements.flatMap exportedNames) name outside ∧
      kept = if outside = name then none else some outside
  declared_eq : surface.declared = statements.flatMap declaredNames

theorem collected_of_cutExports {buffer last : EditBuffer} {statements : List Statement}
    {start : Nat} {surface : Surface}
    (h : cutExports buffer statements start = (last, .ok surface))
    (hfold : statements.foldlM (Surface.add ⟨buffer.source, start⟩) .empty = .ok surface) :
    Collected statements surface where
  names_eq := by
    rw [exports_of_cutExports h, Registry.names_ofList, List.map_map]
    rfl
  mem_entries := by
    intro name kept
    rw [exports_of_cutExports h, Registry.mem_entries_ofList, isLast_exportEntry]
    simp only [exportEntry, Prod.mk.injEq, true_and, eq_comm]
  declared_eq := Surface.declared_of_foldlM hfold

/-- How cutting the exports out of a fresh buffer ends. -/
structure ExportOutcome (source : Text) (start : Nat) (statements : List Statement)
    (result : EditBuffer × Except Error Surface) : Prop where
  fails_iff : (∃ error, result.2 = .error error) ↔ ∃ s ∈ statements, Unsupported s
  fails : ∀ front statement rest, statements = front ++ statement :: rest →
    (∀ s ∈ front, ¬ Unsupported s) → ∀ first others, obstacles statement = first :: others →
      result = (.leavingOut source (exportSpans start front),
        .error (first.error ⟨source, start⟩ statement.span)) ∧
      ∀ s ∈ rest, ∀ other ∈ obstacles s, first.offset ≤ other.offset
  succeeds : (∀ s ∈ statements, ¬ Unsupported s) → ∃ surface,
    result = (.leavingOut source (exportSpans start statements), .ok surface) ∧
      result.1.finish.code = Text.without source (exportSpans start statements) ∧
      Collected statements surface

section Ends

variable {source : Text} {start : Nat} {front rest : List Statement} {statement : Statement}

theorem exists_surface {statements : List Statement} (h : ∀ s ∈ statements, ¬ Unsupported s) :
    ∃ surface, statements.foldlM (Surface.add ⟨source, start⟩) .empty = .ok surface := by
  rcases foldlM_ends (add_ok ⟨source, start⟩) (add_error ⟨source, start⟩) statements .empty
    with ⟨-, hlast⟩ | ⟨earlier, bad, later, -, -, rfl, hbad, -⟩
  · exact hlast
  · exact absurd hbad (h bad (by simp))

theorem cutExports_collected {statements : List Statement}
    (h : PlacedScript source start statements) (hall : ∀ s ∈ statements, ¬ Unsupported s) :
    ∃ surface, cutExports (.ofText source) statements start =
        (.leavingOut source (exportSpans start statements), .ok surface) ∧
      Collected statements surface := by
  obtain ⟨surface, hsurface⟩ : ∃ surface,
      statements.foldlM (Surface.add ⟨source, start⟩) .empty = .ok surface := exists_surface hall
  have hcut : cutExports (.ofText source) statements start =
      (.leavingOut source (exportSpans start statements), .ok surface) :=
    cutExports_ok hsurface h.applyUntil_exportCuts
  exact ⟨surface, hcut, collected_of_cutExports hcut hsurface⟩

theorem cutExports_first (h : PlacedScript source start (front ++ statement :: rest))
    (hfront : ∀ s ∈ front, ¬ Unsupported s) {first : Obstacle} {others : List Obstacle}
    (hfirst : obstacles statement = first :: others) :
    cutExports (.ofText source) (front ++ statement :: rest) start =
      (.leavingOut source (exportSpans start front),
        .error (first.error ⟨source, start⟩ statement.span)) := by
  obtain ⟨between, hbetween⟩ : ∃ between,
      front.foldlM (Surface.add ⟨source, start⟩) .empty = .ok between := exists_surface hfront
  have herror : between.add ⟨source, start⟩ statement =
      .error (first.error ⟨source, start⟩ statement.span) := add_error_first _ between hfirst
  exact cutExports_error hbetween herror
    (h.sublist (List.sublist_append_left _ _)).applyUntil_exportCuts

/-- Statements of which one is unsupported have a first such statement. -/
theorem exists_first_unsupported {statements : List Statement} {s : Statement}
    (hs : s ∈ statements) (h : Unsupported s) : ∃ front statement rest first others,
      statements = front ++ statement :: rest ∧ (∀ s ∈ front, ¬ Unsupported s) ∧
        obstacles statement = first :: others := by
  have hsome : (statements.find? fun s => !(obstacles s).isEmpty).isSome = true := by
    rw [List.find?_isSome]
    exact ⟨s, hs, by simpa using unsupported_iff.mp h⟩
  obtain ⟨statement, hfound⟩ := Option.isSome_iff_exists.mp hsome
  obtain ⟨hstatement, front, rest, rfl, hfront⟩ := List.find?_eq_some_iff_append.mp hfound
  obtain ⟨first, others, hfirst⟩ : ∃ first others, obstacles statement = first :: others :=
    List.exists_cons_of_ne_nil (by simpa using hstatement)
  refine ⟨front, statement, rest, first, others, rfl, ?_, hfirst⟩
  intro earlier hearlier
  rw [unsupported_iff]
  simpa using hfront earlier hearlier

end Ends

/-- Cutting the exports out of a script that lies anywhere in a source fails for
the first construct that no prop can stand for, and if there is none, just the
exports are gone from the source. -/
theorem cutExports_outcome {source : Text} {start : Nat} {statements : List Statement}
    (h : PlacedScript source start statements) :
    ExportOutcome source start statements
      (cutExports (.ofText source) statements start) where
  fails_iff := by
    constructor
    · rintro ⟨error, herror⟩
      by_contra hnone
      obtain ⟨surface, hcut, -⟩ := cutExports_collected h fun s hs hbad => hnone ⟨s, hs, hbad⟩
      rw [hcut] at herror
      cases herror
    · rintro ⟨s, hs, hbad⟩
      obtain ⟨front, statement, rest, first, others, rfl, hfront, hfirst⟩ :=
        exists_first_unsupported hs hbad
      exact ⟨_, by rw [cutExports_first h hfront hfirst]⟩
  fails := by
    rintro front statement rest rfl hfront first others hfirst
    have hcut := cutExports_first h hfront hfirst
    have hplaced : PlacedScript source start (statement :: rest) :=
      h.sublist (List.sublist_append_right _ _)
    have hmem : first ∈ obstacles statement := by rw [hfirst]; exact List.mem_cons_self
    exact ⟨hcut, fun s hs other hother => hplaced.first_offset_le hmem hs hother⟩
  succeeds := by
    intro hall
    obtain ⟨surface, hcut, hcollected⟩ := cutExports_collected h hall
    rw [hcut]
    exact ⟨surface, rfl, h.leavingOut_code, hcollected⟩

/-- A script behind two characters, which exports a name and then a pattern. -/
def patternScript : Text := "# export let a;export let \x7bb\x7d;".toList

def patternStatements : List Statement :=
  [⟨⟨0, 13⟩, .variableDeclaration (some ⟨0, 7⟩) [.name "a".toList]⟩,
    ⟨⟨13, 28⟩, .variableDeclaration (some ⟨13, 20⟩) [.pattern ⟨24, 27⟩ ["b".toList]]⟩]

theorem patternStatements_placed : PlacedScript patternScript 2 patternStatements where
  liesIn := by
    simp only [patternStatements, List.mem_cons, List.not_mem_nil, or_false]
    rintro s (rfl | rfl) <;> exact ⟨by decide +kernel, by decide +kernel, by decide⟩
  start_lt := by simp [patternStatements]
  ordered := by simp [patternStatements]
  keyword_begins := by
    simp only [patternStatements, List.mem_cons, List.not_mem_nil, or_false]
    rintro s (rfl | rfl) keyword hkeyword <;> cases hkeyword <;>
      exact ⟨rfl, by decide, by decide, by decide +kernel⟩
  obstacle_within := by
    simp [patternStatements, obstacles, patternObstacle?, Script.Binding.patternSpan?]

theorem cutExports_outcome_pattern :
    PlacedScript patternScript 2 patternStatements ∧
      cutExports (.ofText patternScript) patternStatements 2 =
        (.leavingOut patternScript [⟨2, 9⟩],
          .error (.unsupportedExport "destructuring export `export let \x7bb\x7d;`".toList 26)) ∧
      ∃ surface, cutExports (.ofText patternScript) (patternStatements.take 1) 2 =
          (.leavingOut patternScript [⟨2, 9⟩], .ok surface) ∧
        (EditBuffer.leavingOut patternScript [⟨2, 9⟩]).finish.code =
          "# let a;export let \x7bb\x7d;".toList ∧
        surface.exports.names = ["a".toList] ∧ surface.declared = ["a".toList] := by
  have hplaced := patternStatements_placed
  refine ⟨hplaced, ?_, ?_⟩
  · obtain ⟨hcut, -⟩ := (cutExports_outcome hplaced).fails [_] _ [] rfl
      (by simp [Unsupported, UnsupportedBinding]) ⟨"destructuring export", 24⟩ [] rfl
    rw [hcut]
    decide +kernel
  · obtain ⟨surface, hcut, hcode, hcollected⟩ :=
      (cutExports_outcome (hplaced.sublist (List.take_sublist 1 _))).succeeds
        (by simp [patternStatements, Unsupported, UnsupportedBinding])
    have hspans : exportSpans 2 (patternStatements.take 1) = [⟨2, 9⟩] := by decide +kernel
    rw [hspans] at hcut hcode
    refine ⟨surface, hcut, ?_, ?_, ?_⟩
    · rw [hcut] at hcode
      exact hcode.trans (by decide +kernel)
    · exact hcollected.names_eq.trans (by decide +kernel)
    · exact hcollected.declared_eq

end Component

end TypedComponent
