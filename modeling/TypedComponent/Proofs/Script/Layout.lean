import TypedComponent.Proofs.Script.Phrases

/-!
A script as a row of statements with gaps. A parser reads such a row if it finds
each statement where it stands. What is asked of the parser is that two scripts can
be crossed at a statement that both have: the first up to it, the second behind it.
Then a row is read if and only if every two neighbours in it are neighbours in some
script, with the same gap.
-/

namespace TypedComponent.Script

/-- The statements of a script with what stands in front of each, and what stands
behind all of them. -/
structure Layout where
  passages : List (Text × Phrase)
  tail : Text

namespace Layout

def written (passages : List (Text × Phrase)) : Text :=
  passages.flatMap fun passage => passage.1 ++ passage.2.text

def text (layout : Layout) : Text := written layout.passages ++ layout.tail

/-- The items of passages that begin at a position. -/
def itemsFrom (position : Nat) : List (Text × Phrase) → List Tree.Item
  | [] => []
  | (gap, phrase) :: others =>
    ⟨⟨position + Text.bytes gap, position + Text.bytes gap + Text.bytes phrase.text⟩,
        phrase.kind.mapSpans (·.shifted (position + Text.bytes gap))⟩ ::
      itemsFrom (position + Text.bytes gap + Text.bytes phrase.text) others

/-- A script behind some passages. -/
def behind (front : List (Text × Phrase)) (rest : Layout) : Layout :=
  ⟨front ++ rest.passages, rest.tail⟩

/-- A script behind a gap, which becomes a part of its first gap. -/
def lead (gap : Text) : Layout → Layout
  | ⟨[], tail⟩ => ⟨[], gap ++ tail⟩
  | ⟨(first, phrase) :: others, tail⟩ => ⟨(gap ++ first, phrase) :: others, tail⟩

@[simp] theorem written_nil : written [] = [] := rfl

@[simp] theorem written_cons (gap : Text) (phrase : Phrase) (others : List (Text × Phrase)) :
    written ((gap, phrase) :: others) = gap ++ phrase.text ++ written others := rfl

@[simp] theorem written_append (front others : List (Text × Phrase)) :
    written (front ++ others) = written front ++ written others := List.flatMap_append

theorem behind_nil (front : List (Text × Phrase)) (tail : Text) :
    behind front ⟨[], tail⟩ = ⟨front, tail⟩ := by
  rw [behind, List.append_nil]

theorem text_behind (front : List (Text × Phrase)) (rest : Layout) :
    (behind front rest).text = written front ++ rest.text := by
  rw [text, behind, written_append, List.append_assoc, text]

theorem text_lead (gap : Text) (layout : Layout) : (layout.lead gap).text = gap ++ layout.text := by
  obtain ⟨passages, tail⟩ := layout
  cases passages with
  | nil => rfl
  | cons passage others =>
    obtain ⟨first, phrase⟩ := passage
    simp [lead, text]

theorem meanings_lead (gap : Text) (layout : Layout) :
    (layout.lead gap).passages.map (·.2.meaning) = layout.passages.map (·.2.meaning) := by
  obtain ⟨passages, tail⟩ := layout
  cases passages <;> rfl

section Unique

variable {position : Nat}

/-- The text and the items tell the passages. -/
theorem passages_unique {passages others : List (Text × Phrase)} {tail rest : Text}
    (htext : written passages ++ tail = written others ++ rest)
    (hitems : itemsFrom position passages = itemsFrom position others) :
    passages = others ∧ tail = rest := by
  induction passages generalizing others position with
  | nil =>
    cases others with
    | nil => exact ⟨rfl, htext⟩
    | cons passage others => cases hitems
  | cons passage passages ih =>
    cases others with
    | nil => cases hitems
    | cons other others =>
      obtain ⟨gap, phrase⟩ := passage
      obtain ⟨otherGap, otherPhrase⟩ := other
      simp only [itemsFrom, List.cons.injEq, Tree.Item.mk.injEq, Span.mk.injEq] at hitems
      obtain ⟨⟨⟨hstart, hstop⟩, hkind⟩, hrest⟩ := hitems
      simp only [written_cons, List.append_assoc] at htext
      obtain ⟨rfl, hbehind⟩ := Text.append_inj_of_bytes htext (Nat.add_left_cancel hstart)
      obtain ⟨hphrase, hothers⟩ := Text.append_inj_of_bytes hbehind (Nat.add_left_cancel hstop)
      have hown : phrase = otherPhrase := by
        refine Phrase.ext hphrase ?_
        have hback := congrArg (Tree.ItemKind.mapSpans (·.shiftedBack (position + Text.bytes gap)))
          hkind
        rwa [Tree.ItemKind.mapSpans_mapSpans fun part _ => Span.shifted_shiftedBack part _,
          Tree.ItemKind.mapSpans_mapSpans fun part _ => Span.shifted_shiftedBack part _] at hback
      subst hown
      obtain ⟨rfl, htail⟩ := ih hothers hrest
      exact ⟨rfl, htail⟩

theorem unique {layout other : Layout} (htext : layout.text = other.text)
    (hitems : itemsFrom position layout.passages = itemsFrom position other.passages) :
    layout = other := by
  obtain ⟨passages, tail⟩ := layout
  obtain ⟨others, rest⟩ := other
  obtain ⟨hpassages, htail⟩ := passages_unique htext hitems
  cases hpassages
  cases htail
  rfl

end Unique

end Layout

open Layout (itemsFrom)

variable {parser : Parser}

/-- A text without a byte order mark. With one, positions may count from behind it. -/
def Unmarked (text : Text) : Prop := text.head? ≠ some '\uFEFF'

namespace Parser

/-- A parser finds the statements of a script, each in its place. -/
structure Reads (parser : Parser) (layout : Layout) : Prop where
  unmarked : Unmarked layout.text
  parse : parser.parse layout.text = .ok (itemsFrom parser.base layout.passages)

/-- Where a parser finds the statements of a text and what they consist of can be
relied on. -/
structure Locates (parser : Parser) (content : Text) : Prop where
  unmarked : Unmarked content
  places : parser.PlacesItems content
  leads : parser.LeadsExports content
  nests : parser.NestsParts content

/-- A script is read in one way. -/
theorem Reads.unique {layout other : Layout} (h : parser.Reads layout)
    (hother : parser.Reads other) (htext : layout.text = other.text) : layout = other := by
  refine Layout.unique htext (Except.ok.inj (h.parse.symm.trans ?_))
  rw [htext]
  exact hother.parse

section Statements

/-- What a script is read as are the meanings of its passages, wherever they stand. -/
theorem lowered_itemsFrom (before behind : Text) (base : Nat) (passages : List (Text × Phrase)) :
    ((itemsFrom (base + Text.bytes before) passages).map fun item =>
      (Lowering.item ⟨before ++ Layout.written passages ++ behind, base⟩ item).kind.unplaced) =
        passages.map (·.2.meaning) := by
  induction passages generalizing before with
  | nil => rfl
  | cons passage others ih =>
    obtain ⟨gap, phrase⟩ := passage
    have hrest := ih (before ++ gap ++ phrase.text)
    have hown := Lowering.kind_shifted phrase (before ++ gap) (Layout.written others ++ behind) base
    simp only [Text.bytes_append, List.append_assoc, ← Nat.add_assoc] at hrest hown
    simp only [itemsFrom, List.map_cons, Layout.written_cons, List.append_assoc]
    refine List.cons_eq_cons.mpr ⟨?_, hrest⟩
    refine Eq.trans (congrArg StatementKind.unplaced ?_) hown
    simp only [Lowering.item, Lowering.span, Span.shiftedBack]
    congr 1
    omega

theorem Reads.statements {layout : Layout} (h : parser.Reads layout) :
    ∃ statements, parser.statements layout.text = .ok statements ∧
      statements.map (·.kind.unplaced) = layout.passages.map (·.2.meaning) := by
  refine ⟨_, statements_ok.mpr ⟨_, h.parse, rfl⟩, ?_⟩
  have hlowered := lowered_itemsFrom [] layout.tail parser.base layout.passages
  rw [List.map_map]
  exact hlowered

end Statements

section Existence

/-- An item of a script by itself. -/
theorem exists_phrase {content : Text} {items : List Tree.Item} {item : Tree.Item}
    (hparse : parser.parse content = .ok items) (hplaces : parser.PlacesItems content)
    (hleads : parser.LeadsExports content) (hnests : parser.NestsParts content)
    (hmem : item ∈ items) :
    ∃ phrase : Phrase, phrase.text = Text.slice content (parser.place item.span) ∧
      phrase.kind.mapSpans (·.shifted item.span.start) = item.kind := by
  have hlies := hplaces.liesIn items hparse item hmem
  obtain ⟨hbase, hlt⟩ := hnests.item_start items hparse item hmem
  have hback (part : Span) (hpart : part ∈ item.kind.parts) :
      (part.shiftedBack item.span.start).shifted item.span.start = part := by
    obtain ⟨hstart, hle, -⟩ := hnests.part_within items hparse item hmem part hpart
    exact Span.shiftedBack_shifted hstart (by omega)
  have hinside (part : Span) (hpart : part ∈ item.kind.parts) :
      (part.shiftedBack item.span.start).LiesIn (Text.slice content (parser.place item.span)) := by
    obtain ⟨hstart, hle, hstop⟩ := hnests.part_within items hparse item hmem part hpart
    have hpartLies := hnests.part_liesIn items hparse item hmem part hpart
    have hown : part.shiftedBack item.span.start =
        (parser.place part).shiftedBack (parser.place item.span).start := by
      simp only [place, Span.shiftedBack, Span.mk.injEq]
      omega
    rw [hown]
    refine hpartLies.shiftedBack hlies ?_ ?_ <;>
      simp only [place, Span.shiftedBack] <;> omega
  refine ⟨⟨Text.slice content (parser.place item.span),
    item.kind.mapSpans (·.shiftedBack item.span.start), ?_, ?_⟩, rfl,
    Tree.ItemKind.mapSpans_mapSpans hback⟩
  · intro specifiers source isTypeOnly hkind part hpart
    cases hitem : item.kind with
    | exportedNames own ownSource ownTypeOnly =>
      rw [hitem] at hpart hinside
      obtain ⟨specifier, hspecifier, hown⟩ := List.mem_flatMap.mp hpart
      obtain ⟨original, horiginal, rfl⟩ := List.mem_map.mp hspecifier
      rw [Tree.ExportSpecifier.parts_mapSpans] at hown
      obtain ⟨first, hfirst, rfl⟩ := List.mem_map.mp hown
      exact hinside first (List.mem_flatMap.mpr ⟨original, horiginal, hfirst⟩)
    | _ =>
      rw [hitem] at hkind
      cases hkind
  · intro declared hkind
    cases hitem : item.kind with
    | exportedDeclaration own => exact hleads items hparse item hmem own hitem
    | _ =>
      rw [hitem] at hkind
      cases hkind

/-- The items that are left of a script, behind what is read of it already. -/
theorem exists_passages {content : Text} {items : List Tree.Item}
    (hitems : ∀ item ∈ items, (parser.place item.span).LiesIn content ∧
      parser.base ≤ item.span.start ∧ item.span.start < item.span.stop ∧
      ∃ phrase : Phrase, phrase.text = Text.slice content (parser.place item.span) ∧
        phrase.kind.mapSpans (·.shifted item.span.start) = item.kind)
    (hordered : items.Pairwise fun first second => first.span.stop ≤ second.span.start)
    {before rest : Text} (hcontent : content = before ++ rest)
    (hbefore : ∀ item ∈ items, parser.base + Text.bytes before ≤ item.span.start) :
    ∃ layout : Layout, layout.text = rest ∧
      itemsFrom (parser.base + Text.bytes before) layout.passages = items := by
  induction items generalizing before rest with
  | nil => exact ⟨⟨[], rest⟩, rfl, rfl⟩
  | cons item items ih =>
    obtain ⟨hlies, hbase, hlt, phrase, hphrase, hkind⟩ := hitems item List.mem_cons_self
    have hfirst := hbefore item List.mem_cons_self
    obtain ⟨front, behind, hcut, hfront, hbytes⟩ :=
      Text.exists_slice _ hlies.start_place hlies.stop_place hlies.start_le
    rw [← hphrase] at hcut hbytes
    simp only [place, Span.shiftedBack, Span.length] at hfront hbytes
    obtain ⟨gap, hgap, hrest⟩ := Text.append_eq_append_of_bytes_le
      (hcontent.symm.trans (hcut.trans (List.append_assoc _ _ _))) (by omega)
    subst hgap
    rw [Text.bytes_append] at hfront
    have hstart : parser.base + Text.bytes before + Text.bytes gap = item.span.start := by omega
    have hstop : item.span.start + Text.bytes phrase.text = item.span.stop := by omega
    have hat : parser.base + Text.bytes (before ++ gap ++ phrase.text) = item.span.stop := by
      rw [Text.bytes_append, Text.bytes_append]
      omega
    obtain ⟨⟨passages, tail⟩, htext, hothers⟩ :=
      ih (fun other hother => hitems other (List.mem_cons_of_mem _ hother)) hordered.of_cons hcut
        fun other hother => hat ▸ List.rel_of_pairwise_cons hordered hother
    refine ⟨⟨(gap, phrase) :: passages, tail⟩, ?_, ?_⟩
    · rw [hrest, ← htext]
      simp [Layout.text]
    · rw [hat] at hothers
      rw [itemsFrom, hstart, hstop, hothers, hkind]

/-- What a parser says of a script whose statements it places is a layout. -/
theorem exists_layout {content : Text} {items : List Tree.Item}
    (hparse : parser.parse content = .ok items) (h : parser.Locates content) :
    ∃ layout : Layout, layout.text = content ∧ parser.Reads layout := by
  obtain ⟨layout, htext, hitems⟩ := exists_passages
    (fun item hmem => ⟨h.places.liesIn items hparse item hmem,
      (h.nests.item_start items hparse item hmem).1, (h.nests.item_start items hparse item hmem).2,
      exists_phrase hparse h.places h.leads h.nests hmem⟩)
    (h.places.ordered items hparse) (List.nil_append content).symm
    fun item hmem => (h.nests.item_start items hparse item hmem).1
  refine ⟨layout, htext, htext ▸ h.unmarked, ?_⟩
  rw [htext, hparse]
  exact congrArg Except.ok hitems.symm

/-- The statements of a text are the meanings of a layout of it. -/
theorem Locates.exists_layout {content : Text} {statements : List Statement}
    (h : parser.Locates content) (hparse : parser.statements content = .ok statements) :
    ∃ layout : Layout, layout.text = content ∧ parser.Reads layout ∧
      statements.map (·.kind.unplaced) = layout.passages.map (·.2.meaning) := by
  obtain ⟨items, hitems, -⟩ := statements_ok.mp hparse
  obtain ⟨layout, rfl, hreads⟩ := Parser.exists_layout hitems h
  obtain ⟨found, hfound, hmeanings⟩ := hreads.statements
  cases hparse.symm.trans hfound
  exact ⟨layout, rfl, hreads, hmeanings⟩

end Existence

end Parser

/-- Two statements that follow one another with a gap between them. At the start of
a script there is none in front of the gap, at its end none behind it. -/
structure Junction where
  last? : Option Phrase
  gap : Text
  next? : Option Phrase

namespace Layout

/-- How a script begins, behind a statement or at the start. -/
def opening (last? : Option Phrase) : Layout → Junction
  | ⟨[], tail⟩ => ⟨last?, tail, none⟩
  | ⟨(gap, phrase) :: _, _⟩ => ⟨last?, gap, some phrase⟩

/-- The last of some statements. -/
def lastOf (front : List (Text × Phrase)) : Option Phrase := front.getLast?.map Prod.snd

def junctionsFrom (last? : Option Phrase) (tail : Text) : List (Text × Phrase) → List Junction
  | [] => [⟨last?, tail, none⟩]
  | (gap, phrase) :: others =>
    ⟨last?, gap, some phrase⟩ :: junctionsFrom (some phrase) tail others

/-- Where the statements of a script meet each other and its ends. -/
def junctions (layout : Layout) : List Junction := junctionsFrom none layout.tail layout.passages

@[simp] theorem lastOf_concat (front : List (Text × Phrase)) (gap : Text) (phrase : Phrase) :
    lastOf (front ++ [(gap, phrase)]) = some phrase := by
  simp [lastOf]

theorem opening_mem_junctionsFrom (last? : Option Phrase) (tail : Text)
    (passages : List (Text × Phrase)) :
    opening last? ⟨passages, tail⟩ ∈ junctionsFrom last? tail passages := by
  cases passages <;> exact List.mem_cons_self

theorem mem_junctionsFrom {last? : Option Phrase} {tail : Text} {passages : List (Text × Phrase)}
    {junction : Junction} :
    junction ∈ junctionsFrom last? tail passages ↔ ∃ front rest, passages = front ++ rest ∧
      junction = opening ((lastOf front).or last?) ⟨rest, tail⟩ := by
  induction passages generalizing last? with
  | nil =>
    constructor
    · intro h
      exact ⟨[], [], rfl, List.mem_singleton.mp h⟩
    · rintro ⟨front, rest, hsplit, rfl⟩
      obtain ⟨rfl, rfl⟩ := List.append_eq_nil_iff.mp hsplit.symm
      exact opening_mem_junctionsFrom last? tail []
  | cons passage others ih =>
    obtain ⟨gap, phrase⟩ := passage
    have hlast (front : List (Text × Phrase)) :
        (lastOf ((gap, phrase) :: front)).or last? = (lastOf front).or (some phrase) := by
      unfold lastOf
      rw [List.getLast?_cons]
      cases front.getLast? <;> rfl
    rw [junctionsFrom, List.mem_cons, ih]
    constructor
    · rintro (rfl | ⟨front, rest, rfl, rfl⟩)
      · exact ⟨[], (gap, phrase) :: others, rfl, rfl⟩
      · exact ⟨(gap, phrase) :: front, rest, rfl, by rw [hlast]⟩
    · rintro ⟨front, rest, hsplit, rfl⟩
      cases front with
      | nil =>
        cases hsplit
        exact .inl rfl
      | cons first front =>
        obtain ⟨rfl, rfl⟩ := List.cons_eq_cons.mp hsplit
        exact .inr ⟨front, rest, rfl, by rw [hlast]⟩

/-- A junction is where a script can be taken apart. -/
theorem mem_junctions {layout : Layout} {junction : Junction} :
    junction ∈ layout.junctions ↔ ∃ front rest, behind front rest = layout ∧
      opening (lastOf front) rest = junction := by
  rw [junctions, mem_junctionsFrom]
  constructor
  · rintro ⟨front, rest, hsplit, rfl⟩
    exact ⟨front, ⟨rest, layout.tail⟩, by rw [behind, ← hsplit], by rw [Option.or_none]⟩
  · rintro ⟨front, rest, rfl, rfl⟩
    exact ⟨front, rest.passages, rfl, by rw [Option.or_none]; rfl⟩

end Layout

open Layout (behind lastOf opening)

namespace Parser

/-- Two scripts can be crossed at a statement that they have in common: in front of
it stands what stands there in the first, behind it what stands there in the second. -/
def Crosses (parser : Parser) : Prop :=
  ∀ front gap phrase rest front' gap' rest',
    parser.Reads (behind (front ++ [(gap, phrase)]) rest) →
      parser.Reads (behind (front' ++ [(gap', phrase)]) rest') →
        parser.Reads (behind (front ++ [(gap, phrase)]) rest')

/-- Some script has its statements meet this way. -/
def Joins (parser : Parser) (junction : Junction) : Prop :=
  ∃ layout, parser.Reads layout ∧ junction ∈ layout.junctions

/-- Behind what begins some script there can be what some script has there. -/
theorem Joins.exists_rest (hcross : parser.Crosses) {front : List (Text × Phrase)} {rest : Layout}
    (hjoins : parser.Joins (opening (lastOf front) rest))
    (hfront : front = [] ∨ ∃ other, parser.Reads (behind front other)) :
    ∃ other, parser.Reads (behind front other) ∧
      opening (lastOf front) other = opening (lastOf front) rest := by
  obtain ⟨layout, hreads, hmem⟩ := hjoins
  obtain ⟨before, other, rfl, hsame⟩ := Layout.mem_junctions.mp hmem
  have hlast : lastOf before = lastOf front := by
    have hown := congrArg Junction.last? hsame
    obtain ⟨passages, tail⟩ := other
    obtain ⟨others, otherTail⟩ := rest
    cases passages <;> cases others <;> exact hown
  rw [hlast] at hsame
  refine ⟨other, ?_, hsame⟩
  rcases List.eq_nil_or_concat front with rfl | ⟨front, ⟨gap, phrase⟩, rfl⟩
  · have hnil : before = [] := by
      simpa [lastOf] using hlast
    rwa [hnil] at hreads
  · obtain ⟨started, hstarted⟩ := hfront.resolve_left (by simp)
    rcases List.eq_nil_or_concat before with rfl | ⟨before, ⟨otherGap, otherPhrase⟩, rfl⟩
    · simp [lastOf] at hlast
    · simp only [List.concat_eq_append, Layout.lastOf_concat, Option.some.injEq] at hlast
      subst hlast
      rw [List.concat_eq_append] at hreads hstarted ⊢
      exact hcross _ _ _ _ _ _ _ hstarted hreads

/-- A script can be put behind the beginning of another one if somewhere its first
statement is behind the last one there, with the same gap. -/
theorem reads_lead (hcross : parser.Crosses) {front : List (Text × Phrase)} {started other : Layout}
    {gap : Text} (hstarted : parser.Reads (behind front started)) (hother : parser.Reads other)
    (hjoins : parser.Joins (opening (lastOf front) (other.lead gap))) :
    parser.Reads (behind front (other.lead gap)) := by
  obtain ⟨⟨passages, rest⟩, hreads, hsame⟩ := hjoins.exists_rest hcross (.inr ⟨started, hstarted⟩)
  obtain ⟨others, tail⟩ := other
  cases others with
  | nil =>
    cases passages with
    | nil =>
      cases hsame
      exact hreads
    | cons passage passages => exact nomatch congrArg Junction.next? hsame
  | cons first others =>
    obtain ⟨ownGap, phrase⟩ := first
    cases passages with
    | nil => exact nomatch congrArg Junction.next? hsame
    | cons passage passages =>
      obtain ⟨firstGap, firstPhrase⟩ := passage
      cases hsame
      have hfirst : parser.Reads (behind (front ++ [(gap ++ ownGap, phrase)]) ⟨passages, rest⟩) := by
        simpa [behind] using hreads
      have hsecond : parser.Reads (behind ([] ++ [(ownGap, phrase)]) ⟨others, tail⟩) := hother
      simpa [behind, Layout.lead] using hcross _ _ _ _ _ _ _ hfirst hsecond

theorem reads_behind (hcross : parser.Crosses) {front passages : List (Text × Phrase)}
    {tail : Text} (hfront : front = [] ∨ ∃ other, parser.Reads (behind front other))
    (hjoins : ∀ junction ∈ Layout.junctionsFrom (lastOf front) tail passages,
      parser.Joins junction) : parser.Reads (behind front ⟨passages, tail⟩) := by
  induction passages generalizing front with
  | nil =>
    obtain ⟨⟨others, rest⟩, hreads, hsame⟩ :=
      (hjoins _ (Layout.opening_mem_junctionsFrom _ tail [])).exists_rest hcross hfront
    cases others with
    | nil =>
      cases hsame
      exact hreads
    | cons passage others => cases hsame
  | cons passage passages ih =>
    obtain ⟨⟨others, rest⟩, hreads, hsame⟩ :=
      (hjoins _ (Layout.opening_mem_junctionsFrom _ tail _)).exists_rest hcross hfront
    cases others with
    | nil => cases hsame
    | cons other others =>
      obtain ⟨gap, phrase⟩ := passage
      obtain ⟨otherGap, otherPhrase⟩ := other
      cases hsame
      have hnext : parser.Reads (behind (front ++ [(gap, phrase)]) ⟨others, rest⟩) := by
        simpa [behind] using hreads
      have hall := ih (.inr ⟨_, hnext⟩) fun junction hmem =>
        hjoins junction (List.mem_cons_of_mem _ (by rwa [Layout.lastOf_concat] at hmem))
      simpa [behind] using hall

/-- A script is read if and only if its statements meet as they do in scripts. -/
theorem reads_iff_joins (hcross : parser.Crosses) {layout : Layout} :
    parser.Reads layout ↔ ∀ junction ∈ layout.junctions, parser.Joins junction :=
  ⟨fun h _ hmem => ⟨layout, h, hmem⟩, fun h => reads_behind hcross (.inl rfl) h⟩

end Parser

end TypedComponent.Script
