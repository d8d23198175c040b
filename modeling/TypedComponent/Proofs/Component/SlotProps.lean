import Mathlib.Algebra.BigOperators.Group.List.Basic
import TypedComponent.Proofs.Component.SlotRegistry
import TypedComponent.Proofs.Component.Sums
import TypedComponent.Proofs.Markup.Expressions
import TypedComponent.Proofs.Markup.Pieces

/-!
The props of a slot as they are written in its object. Keys, literals and sums
are one piece between the commas of the object, whatever is in them; an expression
that stands alone is written as it is, with the commas that it has.
-/

namespace TypedComponent

namespace Text

theorem dropWhile_objectKey (name rest : Text) :
    (objectKey name ++ rest).dropWhile (· = ' ') = objectKey name ++ rest := by
  unfold objectKey
  split_ifs with hplain
  · cases name with
    | nil => cases hplain
    | cons c name =>
      have hc : c ≠ ' ' := by
        rintro rfl
        exact absurd (isPlainKey_mem hplain List.mem_cons_self) (by decide)
      simp [hc]
  · simp [quoted]

end Text

namespace Markup

open Place

section Written

variable {text : Text} {opened : List Bracket}

theorem InQuotes.keeps {quote : Char} (h : InQuotes quote text) :
    Keeps text ⟨.quoted quote, opened⟩ ⟨.quoted quote, opened⟩ := by
  have hquoted : ¬ IsOutside ⟨.quoted quote, opened⟩ := by simp [IsOutside]
  have hescape : ¬ IsOutside ⟨.quotedEscape quote, opened⟩ := by simp [IsOutside]
  induction h with
  | done => exact Keeps.nil _
  | plain away more ih =>
    exact Keeps.cons (by simp [past?, away.1, away.2]) (fun hcomma => hquoted hcomma.2) ih
  | escaped c more ih =>
    exact Keeps.cons rfl (fun hcomma => hquoted hcomma.2)
      (Keeps.cons rfl (fun hcomma => hescape hcomma.2) ih)

theorem inQuotes_escaped (c : Char) {rest : Text} (h : InQuotes '"' rest) :
    InQuotes '"' (Text.escaped c ++ rest) := by
  unfold Text.escaped
  split_ifs with quote backslash
  · exact .escaped _ h
  · exact .escaped _ h
  · exact .escaped _ h
  · exact .escaped _ h
  · exact .escaped _ h
  · exact .escaped _ (.plain (by decide) (.plain (by decide) (.plain (by decide)
      (.plain (by decide) h))))
  · exact .escaped _ (.plain (by decide) (.plain (by decide) (.plain (by decide)
      (.plain (by decide) h))))
  · exact .plain ⟨quote, backslash⟩ h

theorem inQuotes_flatMap_escaped (text : Text) : InQuotes '"' (text.flatMap Text.escaped) := by
  induction text with
  | nil => exact .done
  | cons c text ih => exact inQuotes_escaped c ih

theorem keeps_quoted (text : Text) : Keeps (Text.quoted text) start start := by
  refine Keeps.cons rfl (by decide) ((inQuotes_flatMap_escaped text).keeps.append ?_)
  exact Keeps.char rfl (by decide)

/-- Characters that mean nothing in code are kept. -/
theorem keeps_plain (h : ∀ c ∈ text, c ∉ "()[]\x7b\x7d\"'\x60/,".toList) :
    Keeps text start start := by
  induction text with
  | nil => exact Keeps.nil _
  | cons c text ih =>
    obtain ⟨hc, htext⟩ := List.forall_mem_cons.mp h
    have hpast : start.past? c = some start := by
      simp only [past?, start, pastCode?]
      split <;> first | rfl | exact absurd (by decide) hc
    exact Keeps.cons hpast (fun hcomma => hc (by rw [hcomma.1]; decide)) (ih htext)

theorem keeps_objectKey (name : Text) : Keeps (Text.objectKey name) start start := by
  unfold Text.objectKey
  split_ifs with hplain
  · apply keeps_plain
    intro c hc hspecial
    have hkey := Text.isPlainKey_mem hplain hc
    have hnone : ("()[]\x7b\x7d\"'\x60/,".toList.all fun d =>
        !(Text.isAlphanumeric d || d = '_' || d = '$')) = true := by decide
    have hother := List.all_eq_true.mp hnone c hspecial
    rw [hkey] at hother
    cases hother
  · exact keeps_quoted name

theorem keeps_operand {stop : Place} (h : start.pastAll? text = some stop)
    (hstop : stop.IsOutside) :
    Keeps ('(' :: (text ++ [')'])) start start := by
  have hinside : Keeps text ⟨.code, [.round]⟩ (stop.inside [.round]) :=
    keeps_inside (List.cons_ne_nil _ _) h
  refine Keeps.cons rfl (by decide) (hinside.append (Keeps.char ?_ (by simp)))
  obtain ⟨lexis, opened⟩ := stop
  obtain ⟨rfl | rfl, rfl⟩ := hstop <;> rfl

theorem keeps_join {separator : Text} (hseparator : Keeps separator start start)
    {parts : List Text} (hparts : ∀ part ∈ parts, Keeps part start start) :
    Keeps (Text.join separator parts) start start := by
  induction parts with
  | nil => exact Keeps.nil _
  | cons first rest ih =>
    obtain ⟨hfirst, hrest⟩ := List.forall_mem_cons.mp hparts
    cases rest with
    | nil => exact hfirst
    | cons second rest => exact (hfirst.append hseparator).append (ih hrest)

/-- Parts with commas between them, given how each of them is cut on its own. -/
theorem piecesFrom?_join {α : Type} {written : α → Text} {cut : α → List Text} {first : α}
    {rest : List α}
    (h : ∀ part ∈ first :: rest, start.piecesFrom? (written part) = some (cut part)) :
    start.piecesFrom? (Text.join ", ".toList ((first :: rest).map written)) =
      some (cut first ++ rest.flatMap fun part => (cut part).modifyHead (' ' :: ·)) := by
  induction rest generalizing first with
  | nil => simpa [Text.join] using h first List.mem_cons_self
  | cons second rest ih =>
    obtain ⟨hfirst, hrest⟩ := List.forall_mem_cons.mp h
    have hgap : Keeps [' '] start start := Keeps.char rfl (by decide)
    have hjoin : Text.join ", ".toList ((first :: second :: rest).map written) =
        written first ++ ',' ::
          ([' '] ++ Text.join ", ".toList ((second :: rest).map written)) := by
      simp [Text.join]
    rw [hjoin, piecesFrom?_comma hfirst, hgap, ih hrest, List.flatMap_cons]
    have hne : cut second ≠ [] := piecesFrom?_ne_nil (hrest second List.mem_cons_self)
    obtain ⟨piece, pieces, hcut⟩ := List.exists_cons_of_ne_nil hne
    simp [hcut]

end Written

end Markup

namespace Component

open Markup (Attribute BracketsPair Fragment Node Place pieces?)
open Markup.Place (Keeps start)

/-- Text that is one expression: no comma cuts it, and there is something in it. -/
def IsOneExpression (text : Text) : Prop :=
  pieces? text = some [text] ∧ Text.allBlank text = false

instance (text : Text) : Decidable (IsOneExpression text) :=
  inferInstanceAs (Decidable (_ ∧ _))

/-- The props of a slot between the braces of its object. -/
def propsPart (props : Registry Text) : Text :=
  Text.join ", ".toList (props.entries.map Slots.propsEntry)

/-- The property of an entry: its key, a colon and some value. Behind a comma
there is a space in front of it. -/
def IsProperty (piece : Text) (entry : Text × Text) : Prop :=
  ∃ value, piece.dropWhile (· = ' ') = Text.objectKey entry.1 ++ ':' :: value ∧
    Text.allBlank value = false

/-- The props as they are written have one property for each entry, in order,
and no other. -/
def OnePropertyEach (props : Registry Text) : Prop :=
  ∃ pieces, pieces? (propsPart props) = some pieces ∧
    List.Forall₂ IsProperty pieces props.entries

theorem isOneExpression_iff {text : Text} :
    IsOneExpression text ↔ start.piecesFrom? text = some [text] ∧ Text.allBlank text = false := by
  cases text with
  | nil => simp [IsOneExpression, pieces?, Text.allBlank]
  | cons c rest => rfl

theorem isProperty_propsEntry {entry : Text × Text} :
    IsProperty (Slots.propsEntry entry) entry ↔ Text.allBlank entry.2 = false := by
  simp [IsProperty, Slots.propsEntry, Text.dropWhile_objectKey]

theorem isProperty_spaced {piece : Text} {entry : Text × Text} :
    IsProperty (' ' :: piece) entry ↔ IsProperty piece entry := by
  simp [IsProperty]

theorem piecesFrom?_propsEntry (entry : Text × Text) :
    start.piecesFrom? (Slots.propsEntry entry) =
      (start.piecesFrom? entry.2).map
        (·.modifyHead (Text.objectKey entry.1 ++ [':'] ++ ·)) := by
  have hkey : Keeps (Text.objectKey entry.1 ++ [':']) start start :=
    (Markup.keeps_objectKey entry.1).append (Keeps.char rfl (by decide))
  have hentry : Slots.propsEntry entry = Text.objectKey entry.1 ++ [':'] ++ entry.2 := by
    simp [Slots.propsEntry]
  rw [hentry]
  exact hkey entry.2

theorem piecesFrom?_propsEntry_single {entry : Text × Text} :
    start.piecesFrom? (Slots.propsEntry entry) = some [Slots.propsEntry entry] ↔
      start.piecesFrom? entry.2 = some [entry.2] := by
  rw [piecesFrom?_propsEntry]
  constructor
  · intro h
    obtain ⟨cut, hcut, hsingle⟩ := Option.map_eq_some_iff.mp h
    have hlength : cut.length = 1 := by simpa using congrArg List.length hsingle
    obtain ⟨piece, rfl⟩ := List.length_eq_one_iff.mp hlength
    rw [hcut, Place.eq_of_piecesFrom?_singleton hcut]
  · intro h
    simp [h, Slots.propsEntry]

/-- If every part is cut in at least one piece, and there are no more pieces than
parts, then every part is one piece. -/
theorem length_eq_one_of_flatMap {α β : Type} {parts : List α} {cut : α → List β}
    (hne : ∀ part ∈ parts, cut part ≠ []) (h : (parts.flatMap cut).length ≤ parts.length) :
    ∀ part ∈ parts, (cut part).length = 1 := by
  induction parts with
  | nil => exact List.forall_mem_nil _
  | cons first rest ih =>
    obtain ⟨hfirst, hrest⟩ := List.forall_mem_cons.mp hne
    have hpieces : rest.length ≤ (rest.flatMap cut).length := by
      rw [List.length_flatMap]
      simpa using List.length_le_sum_of_one_le (rest.map fun part => (cut part).length)
        (by simpa [Nat.one_le_iff_ne_zero] using hrest)
    have hone : 1 ≤ (cut first).length := List.length_pos_of_ne_nil hfirst
    rw [List.flatMap_cons, List.length_append, List.length_cons] at h
    exact List.forall_mem_cons.mpr ⟨by omega, ih hrest (by omega)⟩

section Pieces

variable {first : Text × Text} {rest : List (Text × Text)} {cut : Text × Text → List Text}

/-- The pieces of the props, given those of each entry. -/
theorem pieces?_propsPart
    (h : ∀ entry ∈ first :: rest, start.piecesFrom? (Slots.propsEntry entry) = some (cut entry)) :
    pieces? (propsPart ⟨first :: rest⟩) =
      some (cut first ++ rest.flatMap fun entry => (cut entry).modifyHead (' ' :: ·)) := by
  have hne : propsPart ⟨first :: rest⟩ ≠ [] := by
    cases rest <;> simp [propsPart, Text.join, Slots.propsEntry]
  rw [pieces?, if_neg hne]
  exact Markup.piecesFrom?_join h

/-- With one piece for each entry there are no others. -/
theorem spaced_eq (h : ∀ entry ∈ first :: rest, cut entry = [Slots.propsEntry entry]) :
    (cut first ++ rest.flatMap fun entry => (cut entry).modifyHead (' ' :: ·)) =
      Slots.propsEntry first :: rest.map fun entry => ' ' :: Slots.propsEntry entry := by
  obtain ⟨hfirst, hrest⟩ := List.forall_mem_cons.mp h
  rw [hfirst, List.singleton_append, List.map_eq_flatMap]
  congr 1
  refine List.flatMap_congr fun entry hentry => ?_
  rw [hrest entry hentry]
  rfl

/-- Entries that are one piece each are the properties. -/
theorem forall₂_isProperty :
    List.Forall₂ IsProperty
        (Slots.propsEntry first :: rest.map fun entry => ' ' :: Slots.propsEntry entry)
        (first :: rest) ↔
      ∀ entry ∈ first :: rest, Text.allBlank entry.2 = false := by
  rw [List.forall₂_cons, List.forall₂_map_left_iff, List.forall₂_same, List.forall_mem_cons]
  simp only [isProperty_spaced, isProperty_propsEntry]

end Pieces

theorem onePropertyEach_iff_values {props : Registry Text}
    (hcut : ∀ entry ∈ props.entries, ∃ cut, start.piecesFrom? entry.2 = some cut) :
    OnePropertyEach props ↔ ∀ entry ∈ props.entries, IsOneExpression entry.2 := by
  have hwritten : ∀ entry ∈ props.entries,
      ∃ cut, start.piecesFrom? (Slots.propsEntry entry) = some cut := by
    intro entry hentry
    obtain ⟨cut, hcut⟩ := hcut entry hentry
    exact ⟨_, by rw [piecesFrom?_propsEntry, hcut, Option.map_some]⟩
  choose! cut hcut using hwritten
  -- an entry is one expression with its value if and only if it is one piece
  have hsingle : ∀ entry ∈ props.entries, IsOneExpression entry.2 ↔
      cut entry = [Slots.propsEntry entry] ∧ Text.allBlank entry.2 = false := by
    intro entry hentry
    rw [isOneExpression_iff, ← piecesFrom?_propsEntry_single, hcut entry hentry,
      Option.some.injEq]
  obtain ⟨entries⟩ := props
  cases entries with
  | nil => simp [OnePropertyEach, propsPart, Text.join, pieces?]
  | cons first rest =>
    have hpieces := pieces?_propsPart hcut
    constructor
    · rintro ⟨pieces, hsome, hproperties⟩
      rw [hpieces, Option.some.injEq] at hsome
      subst hsome
      -- pieces and entries are matched by number only, so no entry can have two pieces
      have hone : ∀ entry ∈ first :: rest, (cut entry).length = 1 := by
        refine length_eq_one_of_flatMap ?_ (by simpa using hproperties.length_eq.le)
        exact fun entry hentry => Place.piecesFrom?_ne_nil (hcut entry hentry)
      have hentries : ∀ entry ∈ first :: rest, cut entry = [Slots.propsEntry entry] := by
        intro entry hentry
        obtain ⟨piece, hpiece⟩ := List.length_eq_one_iff.mp (hone entry hentry)
        have hwhole := hcut entry hentry
        rw [hpiece] at hwhole
        rw [hpiece, Place.eq_of_piecesFrom?_singleton hwhole]
      rw [spaced_eq hentries, forall₂_isProperty] at hproperties
      exact fun entry hentry =>
        (hsingle entry hentry).mpr ⟨hentries entry hentry, hproperties entry hentry⟩
    · intro hvalues
      refine ⟨_, hpieces, ?_⟩
      rw [spaced_eq fun entry hentry => ((hsingle entry hentry).mp (hvalues entry hentry)).1,
        forall₂_isProperty]
      exact fun entry hentry => (hvalues entry hentry).2

/-- Whether a value is an expression that stands alone. -/
def isLone : List Fragment → Bool
  | [.expression ..] => true
  | _ => false

section Values

variable {source : Text} {values : List Fragment}

/-- An expression that ends outside of everything can be put in parentheses. -/
theorem keeps_operands (h : ∀ outer inner, .expression outer inner ∈ values →
      ∃ stop, start.pastAll? (Text.slice source inner) = some stop ∧ stop.IsOutside) :
    ∀ part ∈ operands source values, Keeps part start start := by
  have hoperand : ∀ value ∈ values, Keeps (operand source value) start start := by
    intro value hvalue
    cases value with
    | text span raw => exact Markup.keeps_quoted raw
    | expression outer inner =>
      obtain ⟨stop, hpast, hstop⟩ := h outer inner hvalue
      exact Markup.keeps_operand hpast hstop
  intro part hpart
  unfold operands at hpart
  split at hpart
  · rcases List.mem_cons.mp hpart with rfl | hpart
    · exact Markup.keeps_quoted []
    · obtain ⟨value, hvalue, rfl⟩ := List.mem_map.mp hpart
      exact hoperand value hvalue
  · obtain ⟨value, hvalue, rfl⟩ := List.mem_map.mp hpart
    exact hoperand value hvalue

/-- A value that is no lone expression begins with a literal. -/
theorem exists_valueExpression_eq (source : Text) (hvalues : values ≠ [])
    (hlone : isLone values = false) :
    ∃ raw rest, valueExpression source values = Text.quoted raw ++ rest := by
  match values with
  | [.text _ raw] => exact ⟨raw, [], (List.append_nil _).symm⟩
  | .text _ raw :: second :: rest => exact ⟨raw, _, List.append_assoc ..⟩
  | .expression .. :: second :: rest => exact ⟨[], _, List.append_assoc ..⟩

theorem isOneExpression_valueExpression (hvalues : values ≠ []) (hlone : isLone values = false)
    (h : ∀ outer inner, .expression outer inner ∈ values →
      ∃ stop, start.pastAll? (Text.slice source inner) = some stop ∧ stop.IsOutside) :
    IsOneExpression (valueExpression source values) := by
  have hkeeps : Keeps (valueExpression source values) start start := by
    match values with
    | [.text _ raw] => exact Markup.keeps_quoted raw
    | .text .. :: _ :: _ | .expression .. :: _ :: _ =>
      exact Markup.keeps_join (Keeps.char rfl (by decide)) (keeps_operands h)
  obtain ⟨raw, rest, hquoted⟩ := exists_valueExpression_eq source hvalues hlone
  refine isOneExpression_iff.mpr ⟨hkeeps.single (by decide), ?_⟩
  simp [hquoted, Text.quoted, Text.allBlank, show Text.isBlank '"' = false by decide]

end Values

/-- The values from which a slot's props come: those of its attributes that are
among the props. A slot of the same name with other props is another slot. -/
def valuesBehind (source : Text) (nodes : List Node) (name : Text) (props : Registry Text) :
    List (List Fragment) :=
  ((slotsAmong nodes).filter fun slot =>
      givenName slot = name ∧ slotProps source slot.attributes = props).flatMap fun slot =>
    slot.attributes.filterMap fun
      | .named _ key values =>
        if key ≠ nameAttribute ∧ values ≠ [] ∧ (key, valueExpression source values) ∈ props.entries
        then some values else none
      | .spread .. => none

section Registered

variable {source : Text} {nodes : List Node} {slots : Slots} {name : Text} {props : Registry Text}

theorem mem_valuesBehind {values : List Fragment} :
    values ∈ valuesBehind source nodes name props ↔
      ∃ slot ∈ slotsAmong nodes,
        (givenName slot = name ∧ slotProps source slot.attributes = props) ∧
          ∃ span key, .named span key values ∈ slot.attributes ∧ key ≠ nameAttribute ∧
            values ≠ [] ∧ (key, valueExpression source values) ∈ props.entries := by
  rw [valuesBehind, List.mem_flatMap]
  constructor
  · rintro ⟨slot, hslot, hvalues⟩
    obtain ⟨hmem, hnamed⟩ := List.mem_filter.mp hslot
    obtain ⟨attr, hattr, hsome⟩ := List.mem_filterMap.mp hvalues
    cases attr with
    | spread span inner => cases hsome
    | named span key own =>
      obtain ⟨hbehind, hown⟩ := Option.ite_none_right_eq_some.mp hsome
      cases hown
      exact ⟨slot, hmem, of_decide_eq_true hnamed, span, key, hattr, hbehind⟩
  · rintro ⟨slot, hslot, hnamed, span, key, hattr, hbehind⟩
    exact ⟨slot, List.mem_filter.mpr ⟨hslot, decide_eq_true hnamed⟩,
      List.mem_filterMap.mpr ⟨_, hattr, if_pos hbehind⟩⟩

/-- Registered props are those of a slot. -/
theorem exists_slot (hslots : Slots.ofNodes source nodes = .ok slots)
    (hprops : (name, props) ∈ slots.entries) :
    ∃ slot ∈ slotsAmong nodes,
      givenName slot = name ∧ slotProps source slot.attributes = props := by
  rw [Slots.ofNodes, ← slotsAmong_eq, foldlM_add] at hslots
  cases hnamed : (slotsAmong nodes).findSome? misnaming? with
  | some span => simp [hnamed] at hslots
  | none =>
    rw [hnamed] at hslots
    cases hslots
    obtain ⟨front, rest, hsplit, -⟩ := Registry.mem_entries_ofList.mp hprops
    have hmem : (name, props) ∈
        (slotsAmong nodes).map fun slot => (givenName slot, propsOf source slot) := by
      rw [hsplit]
      simp
    obtain ⟨slot, hslot, hentry⟩ := List.mem_map.mp hmem
    cases hentry
    exact ⟨slot, hslot, rfl, slotProps_eq source slot⟩

/-- Each of the props comes from a value. -/
theorem exists_valuesBehind (hslots : Slots.ofNodes source nodes = .ok slots)
    (hprops : (name, props) ∈ slots.entries) {entry : Text × Text}
    (hentry : entry ∈ props.entries) :
    ∃ values ∈ valuesBehind source nodes name props, entry.2 = valueExpression source values := by
  obtain ⟨slot, hslot, hname, hown⟩ := exists_slot hslots hprops
  have hlast : (entry.1, entry.2) ∈ (slotProps source slot.attributes).entries := by
    rw [hown]
    exact hentry
  obtain ⟨front, rest, hsplit, -⟩ := Registry.mem_entries_ofList.mp hlast
  have hmem : entry ∈ slot.attributes.filterMap (slotProp? source) := by
    rw [hsplit]
    simp
  obtain ⟨attr, hattr, hprop⟩ := List.mem_filterMap.mp hmem
  cases attr with
  | spread span inner => cases hprop
  | named span key values =>
    rw [slotProp?] at hprop
    split_ifs at hprop with hnone
    cases hprop
    rw [not_or] at hnone
    exact ⟨values, mem_valuesBehind.mpr
      ⟨slot, hslot, ⟨hname, hown⟩, span, key, hattr, hnone.1, hnone.2, hentry⟩, rfl⟩

end Registered

/-- The props of a slot are written with one property for each entry of the
registry if and only if every lone expression among them is one expression. All
other values are, whatever is in them, as long as the brackets pair up in their
expressions. -/
theorem onePropertyEach_iff {source : Text} {slots : Slots} {name : Text} {props : Registry Text}
    (hslots : Slots.ofNodes source (Markup.parse source).document.nodes = .ok slots)
    (hprops : (name, props) ∈ slots.entries)
    (hpairs : ∀ values ∈ valuesBehind source (Markup.parse source).document.nodes name props,
      ∀ text ∈ expressions source values, BracketsPair text) :
    Slots.slotEntry (name, props) =
        Text.objectKey name ++ ": ".toList ++ Text.inBraces (propsPart props) ∧
      (OnePropertyEach props ↔
        ∀ values ∈ valuesBehind source (Markup.parse source).document.nodes name props,
          isLone values = true → IsOneExpression (valueExpression source values)) := by
  refine ⟨rfl, ?_⟩
  -- an expression is found by its closing brace, so only other brackets can be open in the end
  have hends : ∀ values ∈ valuesBehind source (Markup.parse source).document.nodes name props,
      ∀ outer inner, .expression outer inner ∈ values →
        ∃ stop, start.pastAll? (Text.slice source inner) = some stop ∧ stop.IsOutside := by
    intro values hvalues outer inner hinner
    have hmem : Text.slice source inner ∈ expressions source values :=
      List.mem_filterMap.mpr ⟨_, hinner, rfl⟩
    obtain ⟨slot, hslot, -, span, key, hattr, -⟩ := mem_valuesBehind.mp hvalues
    rw [slotsAmong_eq] at hslot
    have hbalanced := Markup.parse_isBalanced (List.mem_of_mem_filter hslot) hattr
    exact (hpairs values hvalues _ hmem).outside (hbalanced outer inner hinner)
  have hother : ∀ values ∈ valuesBehind source (Markup.parse source).document.nodes name props,
      isLone values = false → IsOneExpression (valueExpression source values) := by
    intro values hvalues hlone
    obtain ⟨-, -, -, -, -, -, -, hsome, -⟩ := mem_valuesBehind.mp hvalues
    exact isOneExpression_valueExpression hsome hlone (hends values hvalues)
  rw [onePropertyEach_iff_values]
  · constructor
    · intro h values hvalues _
      obtain ⟨-, -, -, -, key, -, -, -, hentry⟩ := mem_valuesBehind.mp hvalues
      exact h _ hentry
    · intro h entry hentry
      obtain ⟨values, hvalues, hvalue⟩ := exists_valuesBehind hslots hprops hentry
      rw [hvalue]
      cases hlone : isLone values with
      | true => exact h values hvalues hlone
      | false => exact hother values hvalues hlone
  · intro entry hentry
    obtain ⟨values, hvalues, hvalue⟩ := exists_valuesBehind hslots hprops hentry
    rw [hvalue]
    cases hlone : isLone values with
    | true =>
      match values, hlone with
      | [.expression outer inner], _ =>
        obtain ⟨stop, hpast, hstop⟩ := hends _ hvalues outer inner List.mem_cons_self
        exact Place.exists_piecesFrom? hpast hstop
    | false => exact ⟨_, (isOneExpression_iff.mp (hother values hvalues hlone)).1⟩

/-- A slot with a lone expression, a literal and a sum, each with a comma. -/
def listedSource : Text :=
  "<slot item=\x7bpick(a, b)\x7d label=\"One, two\" note=\"\x7bx, y\x7d of \x7bn\x7d\"/>".toList

def listedProps : Registry Text :=
  ⟨[("item".toList, "pick(a, b)".toList), ("label".toList, "\"One, two\"".toList),
    ("note".toList, "\"\"+(x, y)+\" of \"+(n)".toList)]⟩

theorem onePropertyEach_iff_listed :
    Slots.ofNodes listedSource (Markup.parse listedSource).document.nodes =
        .ok ⟨[(defaultSlot, listedProps)]⟩ ∧
      (∀ values ∈ valuesBehind listedSource (Markup.parse listedSource).document.nodes defaultSlot
          listedProps, ∀ text ∈ expressions listedSource values, BracketsPair text) ∧
      OnePropertyEach listedProps := by
  have hslots : Slots.ofNodes listedSource (Markup.parse listedSource).document.nodes =
      .ok ⟨[(defaultSlot, listedProps)]⟩ := by decide +kernel
  have hpairs : ∀ values ∈ valuesBehind listedSource (Markup.parse listedSource).document.nodes
      defaultSlot listedProps, ∀ text ∈ expressions listedSource values, BracketsPair text := by
    decide +kernel
  obtain ⟨-, hiff⟩ := onePropertyEach_iff hslots List.mem_cons_self hpairs
  exact ⟨hslots, hpairs, hiff.mpr (by decide +kernel)⟩

/-- A slot with a lone expression that a comma cuts. -/
def cutSource : Text := "<slot a=\x7bx, y\x7d/>".toList

/-- What stands alone is not put in parentheses, and behind its comma begins
another property. -/
theorem not_onePropertyEach :
    ¬ ∀ (source : Text) (slots : Slots), (Markup.parse source).errors = [] →
      Slots.ofNodes source (Markup.parse source).document.nodes = .ok slots →
        ∀ entry ∈ slots.entries, OnePropertyEach entry.2 := by
  intro h
  obtain ⟨pieces, hpieces, hproperties⟩ := h cutSource
    ⟨[(defaultSlot, ⟨[("a".toList, "x, y".toList)]⟩)]⟩ (by decide +kernel) (by decide +kernel)
    _ List.mem_cons_self
  have hcut : pieces? (propsPart ⟨[("a".toList, "x, y".toList)]⟩) =
      some ["a:x".toList, " y".toList] := by decide +kernel
  rw [hcut, Option.some.injEq] at hpieces
  subst hpieces
  exact absurd hproperties.length_eq (by decide)

end Component

end TypedComponent
