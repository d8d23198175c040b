import TypedComponent.Proofs.Markup.Layout
import TypedComponent.Proofs.Markup.Twins

/-!
The tokens of a text. Each token is the longest match of its kind behind some
separators, and which tokens follow a place does not depend on how much was read
before it: reading that goes on between two tokens finds the same ones.
-/

namespace TypedComponent.Markup

open Cursor (Reaches)

namespace TokenKind

/-- The sign that stands for a kind of token. A name is none of them, and the end
of a text is no part of it. -/
def sign? : TokenKind → Option Text
  | angle => some ['<']
  | angleSlash => some ['<', '/']
  | commentOpen => some ['<', '!', '-', '-']
  | angleBang => some ['<', '!']
  | closeAngle => some ['>']
  | slashAngle => some ['/', '>']
  | slash => some ['/']
  | equals => some ['=']
  | doubleQuote => some ['"']
  | singleQuote => some ['\'']
  | brace => some ['\x7b']
  | braceHash => some ['\x7b', '#']
  | braceColon => some ['\x7b', ':']
  | braceSlash => some ['\x7b', '/']
  | braceAt => some ['\x7b', '@']
  | closeBrace => some ['\x7d']
  | name | finish => none

/-- Whether a text can be a token of a kind: its sign, or some characters that
names are made of. -/
def Matches : TokenKind → Text → Prop
  | name, text => text ≠ [] ∧ ∀ c ∈ text, isNameChar c = true
  | kind, text => kind.sign? = some text

/-- No other token begins where one does and goes on for longer, or is as long
and of another kind. -/
structure IsLongest (kind : TokenKind) (text rest : Text) : Prop where
  matched : kind.Matches text
  longest : ∀ other longer more, Matches other longer → text ++ rest = longer ++ more →
    longer.length ≤ text.length ∧ (longer.length = text.length → other = kind)

variable {kind : TokenKind} {text rest sign : Text}

theorem matches_of_sign (h : kind.sign? = some text) : kind.Matches text := by
  cases kind with
  | name => cases h
  | _ => exact h

theorem Matches.cases (h : kind.Matches text) :
    (kind = name ∧ text ≠ [] ∧ ∀ c ∈ text, isNameChar c = true) ∨ kind.sign? = some text := by
  cases kind with
  | name => exact .inl ⟨rfl, h⟩
  | _ => exact .inr h

theorem Matches.ne_nil (h : kind.Matches text) : text ≠ [] := by
  rcases h.cases with ⟨-, hne, -⟩ | hsign
  · exact hne
  · rintro rfl
    cases kind <;> cases hsign

/-- What begins with a sign is read as this sign or as a longer one. -/
theorem leading_of_sign (h : kind.sign? = some sign) (more : Text) :
    (leading (sign ++ more)).1 ≠ name ∧ sign.length ≤ (leading (sign ++ more)).2 ∧
      (sign.length = (leading (sign ++ more)).2 → kind = (leading (sign ++ more)).1) := by
  cases kind <;> cases h
  all_goals
    unfold leading
    split <;> grind

theorem leading_matched {length : Nat} (h : leading text = (kind, length)) (hname : kind ≠ name)
    (hfinish : kind ≠ finish) : kind.sign? = some (text.take length) := by
  unfold leading at h
  split at h <;> cases h <;> first
    | rfl
    | contradiction

theorem leading_longest (hname : (leading text).1 ≠ name) (hfinish : (leading text).1 ≠ finish) :
    IsLongest (leading text).1 (text.take (leading text).2) (text.drop (leading text).2) where
  matched := matches_of_sign (leading_matched rfl hname hfinish)
  longest := by
    intro other longer more hother heq
    rw [List.take_append_drop] at heq
    have hlength : (text.take (leading text).2).length = (leading text).2 := by
      rw [List.length_take]
      exact Nat.min_eq_left (leading_length_le text)
    rw [hlength]
    rcases hother.cases with ⟨-, hne, hall⟩ | hsign
    · -- A text that begins with a character of names is read as a name.
      obtain ⟨c, run, rfl⟩ := List.exists_cons_of_ne_nil hne
      refine absurd ?_ hname
      rw [heq, List.cons_append, leading_nameChar (hall c List.mem_cons_self)]
    · rw [heq]
      exact (leading_of_sign hsign more).2

theorem name_longest {c : Char} (hc : isNameChar c = true) (text : Text) :
    IsLongest name ((c :: text).takeWhile isNameChar) ((c :: text).dropWhile isNameChar) where
  matched := by
    refine ⟨?_, fun d hd => List.mem_takeWhile_imp hd⟩
    rw [List.takeWhile_cons_of_pos hc]
    exact List.cons_ne_nil _ _
  longest := by
    intro other longer more hother heq
    rw [List.takeWhile_append_dropWhile] at heq
    rcases hother.cases with ⟨rfl, -, hall⟩ | hsign
    · rw [heq, List.takeWhile_append_of_pos hall, List.length_append]
      exact ⟨Nat.le_add_right _ _, fun _ => rfl⟩
    · refine absurd ?_ (leading_of_sign hsign more).1
      rw [← heq, leading_nameChar hc]

/-- There is only one longest match at a place. -/
theorem IsLongest.unique {other : TokenKind} {text' rest' : Text} (h : IsLongest kind text rest)
    (h' : IsLongest other text' rest') (heq : text ++ rest = text' ++ rest') :
    kind = other ∧ text = text' ∧ rest = rest' := by
  have hback := h.longest other text' rest' h'.matched heq
  have hforth := h'.longest kind text rest h.matched heq.symm
  have hlength := Nat.le_antisymm hforth.1 hback.1
  exact ⟨hforth.2 hlength, List.append_inj heq hlength⟩

/-- A name goes on up to a character that names are not made of. -/
theorem IsLongest.name_ends (h : IsLongest name text rest) :
    ∀ c ∈ rest.head?, isNameChar c = false := by
  intro c hc
  obtain ⟨more, rfl⟩ := List.head?_eq_some_iff.mp hc
  rw [← Bool.not_eq_true]
  intro hchar
  obtain ⟨hne, hall⟩ := h.matched
  have hlonger : Matches name (text ++ [c]) := by
    refine ⟨List.append_ne_nil_of_left_ne_nil hne _, fun d hd => ?_⟩
    rcases List.mem_append.mp hd with hold | hnew
    · exact hall d hold
    · rwa [List.mem_singleton.mp hnew]
  have hlength := (h.longest name (text ++ [c]) more hlonger (by simp)).1
  rw [List.length_append, List.length_singleton] at hlength
  omega

/-- No token begins with a separator. -/
theorem Matches.head {c : Char} {more : Text} (h : kind.Matches (c :: more)) :
    isSeparator c = false := by
  rcases h.cases with ⟨-, -, hall⟩ | hsign
  · exact not_isSeparator_of_isNameChar (hall c List.mem_cons_self)
  · cases kind <;> cases hsign <;> rfl

end TokenKind

namespace Token

/-- The tokens from a place on, as a text is made of them: separators and longest
matches in turn, with the end of the text as the last. -/
inductive Lexed : Cursor → List Token → Prop
  | finish {offset : Nat} {gap : Text} (separates : ∀ c ∈ gap, isSeparator c = true) :
      Lexed ⟨offset, gap⟩ [⟨.finish, .empty (offset + Text.bytes gap)⟩]
  | next {offset : Nat} {gap text rest : Text} {kind : TokenKind} {others : List Token}
      (separates : ∀ c ∈ gap, isSeparator c = true) (longest : kind.IsLongest text rest)
      (following : Lexed ⟨offset + Text.bytes gap + Text.bytes text, rest⟩ others) :
      Lexed ⟨offset, gap ++ (text ++ rest)⟩
        (⟨kind, Text.spanAt (offset + Text.bytes gap) text⟩ :: others)

variable {offset : Nat} {gap rest : Text} {cursor : Cursor}

theorem readHere_longest {c : Char} (hc : isSeparator c = false) (offset : Nat) (rest : Text) :
    ∃ kind text more, c :: rest = text ++ more ∧ kind.IsLongest text more ∧
      readHere ⟨offset, c :: rest⟩ =
        (⟨kind, Text.spanAt offset text⟩, ⟨offset + Text.bytes text, more⟩) := by
  by_cases hname : (TokenKind.leading (c :: rest)).1 = .name
  · have hchar := TokenKind.leading_name hname hc
    refine ⟨.name, _, _, List.takeWhile_append_dropWhile.symm,
      TokenKind.name_longest hchar rest, ?_⟩
    rw [readHere]
    simp only [leading_nameChar hchar, if_true]
    rfl
  · have hfinish : (TokenKind.leading (c :: rest)).1 ≠ .finish := by
      unfold TokenKind.leading
      split <;> simp_all
    have hleading : TokenKind.leading (c :: rest) =
        ((TokenKind.leading (c :: rest)).1, (TokenKind.leading (c :: rest)).2) := rfl
    obtain ⟨passed, hpassed, hbytes⟩ := TokenKind.leading_spec hleading
    have htake := List.take_append_drop (TokenKind.leading (c :: rest)).2 (c :: rest)
    have hsame : passed = (c :: rest).take (TokenKind.leading (c :: rest)).2 :=
      List.append_cancel_right (hpassed.symm.trans htake.symm)
    refine ⟨_, _, _, htake.symm, TokenKind.leading_longest hname hfinish, ?_⟩
    rw [readHere]
    simp only [if_neg hname, ← hsame, hbytes, Text.spanAt]
    rfl

theorem kind_ne_finish {kind : TokenKind} {text : Text} (h : kind.Matches text) :
    kind ≠ .finish := by
  rintro rfl
  cases h

theorem listWithin_succ (steps : Nat) (cursor : Cursor) : listWithin (steps + 1) cursor =
    if (read cursor).1.kind = .finish then [(read cursor).1]
    else (read cursor).1 :: listWithin steps (read cursor).2 := rfl

theorem listWithin_enough {steps more : Nat} (hsteps : cursor.rest.length < steps)
    (hmore : cursor.rest.length < more) : listWithin steps cursor = listWithin more cursor := by
  induction steps generalizing more cursor with
  | zero => omega
  | succ steps ih =>
    cases more with
    | zero => omega
    | succ more =>
      rw [listWithin_succ, listWithin_succ]
      by_cases hlast : (read cursor).1.kind = .finish
      · rw [if_pos hlast, if_pos hlast]
      · have hpassed := read_passes hlast
        rw [if_neg hlast, if_neg hlast,
          ih (by omega : (read cursor).2.rest.length < steps)
            (by omega : (read cursor).2.rest.length < more)]

/-- The next token, and the tokens behind it. -/
theorem list_eq (cursor : Cursor) : list cursor =
    if (read cursor).1.kind = .finish then [(read cursor).1]
    else (read cursor).1 :: list (read cursor).2 := by
  rw [list, listWithin_succ]
  by_cases hlast : (read cursor).1.kind = .finish
  · rw [if_pos hlast, if_pos hlast]
  · rw [if_neg hlast, if_neg hlast, list,
      listWithin_enough (read_passes hlast) (Nat.lt_succ_self _)]

theorem head?_list (cursor : Cursor) : (list cursor).head? = some (peek cursor) := by
  rw [list_eq]
  split <;> rfl

/-- Separators in front change neither the next token nor those behind it. -/
theorem read_gap (hgap : ∀ c ∈ gap, isSeparator c = true) :
    read ⟨offset, gap ++ rest⟩ = read ⟨offset + Text.bytes gap, rest⟩ := by
  have hskip : Cursor.skipWhile ⟨offset, gap ++ rest⟩ isSeparator =
      Cursor.skipWhile ⟨offset + Text.bytes gap, rest⟩ isSeparator := by
    simp only [Cursor.skipWhile, Cursor.takeWhile, Cursor.past,
      List.takeWhile_append_of_pos hgap, List.dropWhile_append_of_pos hgap, Text.bytes_append,
      Nat.add_assoc]
  rw [read, hskip]
  rfl

theorem list_gap (hgap : ∀ c ∈ gap, isSeparator c = true) :
    list ⟨offset, gap ++ rest⟩ = list ⟨offset + Text.bytes gap, rest⟩ := by
  rw [list_eq, list_eq ⟨offset + Text.bytes gap, rest⟩, read_gap hgap]

theorem list_separators (hgap : ∀ c ∈ gap, isSeparator c = true) :
    list ⟨offset, gap⟩ = [⟨.finish, .empty (offset + Text.bytes gap)⟩] := by
  have hall : list ⟨offset, gap ++ []⟩ = list ⟨offset + Text.bytes gap, []⟩ := list_gap hgap
  rw [List.append_nil] at hall
  rw [hall]
  rfl

theorem list_lexed (cursor : Cursor) : Lexed cursor (list cursor) := by
  induction hlength : cursor.rest.length using Nat.strong_induction_on generalizing cursor with
  | _ length ih =>
  obtain ⟨offset, text⟩ := cursor
  have hgap : ∀ c ∈ text.takeWhile isSeparator, isSeparator c = true :=
    fun c hc => List.mem_takeWhile_imp hc
  have hsplit : text = text.takeWhile isSeparator ++ text.dropWhile isSeparator :=
    List.takeWhile_append_dropWhile.symm
  cases hrest : text.dropWhile isSeparator with
  | nil =>
    rw [hrest, List.append_nil] at hsplit
    rw [hsplit, list_separators hgap]
    exact .finish hgap
  | cons c rest =>
    have hskipped : (Cursor.skipWhile ⟨offset, text⟩ isSeparator).rest = c :: rest := hrest
    have hc : isSeparator c = false := Cursor.skipWhile_head hskipped
    obtain ⟨kind, found, more, hfound, hlongest, hread⟩ :=
      readHere_longest hc (offset + Text.bytes (text.takeWhile isSeparator)) rest
    have hshorter : more.length < length := by
      have hpos := List.length_pos_iff.mpr hlongest.matched.ne_nil
      have hall := congrArg List.length hsplit
      rw [hrest, hfound, List.length_append, List.length_append] at hall
      dsimp only at hlength
      omega
    have hlist : list ⟨offset, text⟩ =
        ⟨kind, Text.spanAt (offset + Text.bytes (text.takeWhile isSeparator)) found⟩ ::
          list ⟨offset + Text.bytes (text.takeWhile isSeparator) + Text.bytes found, more⟩ := by
      have hskip : read ⟨offset, text⟩ =
          readHere ⟨offset + Text.bytes (text.takeWhile isSeparator), c :: rest⟩ := by
        rw [← hrest]
        rfl
      rw [list_eq, hskip, hread, if_neg (kind_ne_finish hlongest.matched)]
    rw [hlist]
    have htext : text = text.takeWhile isSeparator ++ (found ++ more) := by
      rw [← hfound, ← hrest]
      exact hsplit
    have hnext : Lexed ⟨offset, text.takeWhile isSeparator ++ (found ++ more)⟩ _ :=
      .next hgap hlongest (ih _ hshorter _ rfl)
    rwa [← htext] at hnext

theorem Lexed.list_eq {tokens : List Token} (h : Lexed cursor tokens) :
    list cursor = tokens := by
  induction h with
  | finish hgap => exact list_separators hgap
  | @next offset gap text rest kind others hgap hlongest following ih =>
    obtain ⟨c, more, rfl⟩ := List.exists_cons_of_ne_nil hlongest.matched.ne_nil
    have hc := hlongest.matched.head
    obtain ⟨kind', text', rest', heq, hlongest', hread⟩ :=
      readHere_longest hc (offset + Text.bytes gap) (more ++ rest)
    obtain ⟨rfl, rfl, rfl⟩ := hlongest.unique hlongest' heq
    have hskip : read ⟨offset + Text.bytes gap, c :: (more ++ rest)⟩ =
        readHere ⟨offset + Text.bytes gap, c :: (more ++ rest)⟩ := by
      rw [read, Cursor.skipWhile_none]
      rintro _ ⟨rfl⟩
      exact hc
    rw [list_gap hgap, List.cons_append, Token.list_eq, hskip, hread,
      if_neg (kind_ne_finish hlongest.matched), ih]

/-- How the tokens from an offset of a source on lie in it: in order, between
characters, and with nothing but separators around them. Each but the last, which
is the end of the source, is the longest match where it begins; and reading that
goes on anywhere but inside a token finds the tokens that begin there or later. -/
structure LaidOut (source : Text) (start : Nat) (tokens : List Token) : Prop where
  last : ∃ front, tokens = front ++ [⟨.finish, .empty (Text.bytes source)⟩] ∧
    ∀ token ∈ front, token.kind ≠ .finish ∧ token.span.start < token.span.stop
  liesIn : ∀ token ∈ tokens, token.span.LiesIn source
  separated : Span.InLine (Attribute.OnlySeparators source) start (tokens.map span)
    (Text.bytes source)
  longest : ∀ token ∈ tokens, token.kind ≠ .finish →
    token.kind.IsLongest (Text.slice source token.span)
      (Text.dropBytes source token.span.stop)
  names : ∀ token ∈ tokens, token.kind = .name →
    ∀ c ∈ (Text.dropBytes source token.span.stop).head?, isNameChar c = false
  resumes : ∀ place, start ≤ place → place ≤ Text.bytes source →
    (∀ token ∈ tokens, token.span.containsInner place = false) →
      list (.atOffset source place) = tokens.filter (place ≤ ·.span.start) ∧
      (tokens.filter (place ≤ ·.span.start)).head? = some (peek (.atOffset source place))

section Layout

variable {source text : Text} {kind : TokenKind} {others : List Token}

theorem atOffset_of_reaches (h : (Cursor.ofText source).Reaches cursor) :
    Cursor.atOffset source cursor.offset = cursor := by
  obtain ⟨offset, rest⟩ := cursor
  obtain ⟨before, hsource, hoffset⟩ := h
  obtain rfl : source = before ++ rest := hsource
  obtain rfl : offset = Text.bytes before := by simpa [Cursor.ofText] using hoffset
  rw [Cursor.atOffset, Text.dropBytes_append]

theorem slice_of_reaches (h : (Cursor.ofText source).Reaches ⟨offset, text ++ rest⟩) :
    Text.slice source ⟨offset, offset + Text.bytes text⟩ = text := by
  have hpast : Reaches ⟨offset, text ++ rest⟩ ⟨offset + Text.bytes text, rest⟩ :=
    Reaches.past rfl
  have hslice := Text.slice_upTo h hpast
  rw [Reaches.textTo_eq rfl rfl] at hslice
  exact hslice

theorem bytes_separators (hgap : ∀ c ∈ gap, isSeparator c = true) :
    Text.bytes gap = gap.length := by
  induction gap with
  | nil => rfl
  | cons c rest ih =>
    obtain ⟨hc, hrest⟩ := List.forall_mem_cons.mp hgap
    have hsize : c.utf8Size = 1 := by
      simp only [isSeparator, Bool.or_eq_true, decide_eq_true_eq] at hc
      rcases hc with (((rfl | rfl) | rfl) | rfl) | rfl <;> rfl
    rw [Text.bytes_cons, List.length_cons, ih hrest, hsize, Nat.add_comm]

/-- A place in a gap is one between two of its separators. -/
theorem exists_of_gap (hgap : ∀ c ∈ gap, isSeparator c = true) {place : Nat}
    (hstart : offset ≤ place) (hstop : place ≤ offset + Text.bytes gap) :
    ∃ passed left, gap = passed ++ left ∧ place = offset + Text.bytes passed := by
  refine ⟨gap.take (place - offset), gap.drop (place - offset),
    (List.take_append_drop _ _).symm, ?_⟩
  rw [bytes_separators hgap] at hstop
  rw [bytes_separators fun c hc => hgap c (List.mem_of_mem_take hc), List.length_take]
  omega

/-- Reading that goes on in a gap finds what follows the gap. -/
theorem list_in_gap (h : (Cursor.ofText source).Reaches ⟨offset, gap ++ rest⟩)
    (hgap : ∀ c ∈ gap, isSeparator c = true) {place : Nat} (hstart : offset ≤ place)
    (hstop : place ≤ offset + Text.bytes gap) :
    list (.atOffset source place) = list ⟨offset, gap ++ rest⟩ := by
  obtain ⟨passed, left, rfl, rfl⟩ := exists_of_gap hgap hstart hstop
  have hplace := h.trans (Reaches.past (List.append_assoc passed left rest))
  have hat := atOffset_of_reaches hplace
  rw [Cursor.past] at hat
  rw [hat, List.append_assoc, list_gap fun c hc => hgap c (List.mem_append_left left hc)]

theorem onlySeparators_of_reaches (h : (Cursor.ofText source).Reaches ⟨offset, gap ++ rest⟩)
    (hgap : ∀ c ∈ gap, isSeparator c = true) :
    Attribute.OnlySeparators source offset (offset + Text.bytes gap) := by
  refine ⟨Nat.le_add_right _ _, ?_⟩
  rw [slice_of_reaches h]
  exact hgap

theorem LaidOut.finish (h : (Cursor.ofText source).Reaches ⟨offset, gap⟩)
    (hgap : ∀ c ∈ gap, isSeparator c = true) :
    LaidOut source offset [⟨.finish, .empty (offset + Text.bytes gap)⟩] := by
  have hgapped : (Cursor.ofText source).Reaches ⟨offset, gap ++ []⟩ := by
    rwa [List.append_nil]
  have hend : offset + Text.bytes gap = Text.bytes source :=
    (h.trans (Reaches.past (List.append_nil gap).symm)).offset_of_rest_nil rfl
  have hseparated := onlySeparators_of_reaches hgapped hgap
  rw [hend] at hseparated ⊢
  refine {
    last := ⟨[], rfl, List.forall_mem_nil _⟩
    liesIn := fun token htoken => ?_
    separated := ⟨hseparated, Nat.le_refl _, Nat.le_refl _, ?_⟩
    longest := fun token htoken hkind => ?_
    names := fun token htoken hkind => ?_
    resumes := fun place hstart hstop _ => ?_ }
  · rw [List.mem_singleton.mp htoken]
    exact ⟨Text.isBoundary_bytes _, Text.isBoundary_bytes _, Nat.le_refl _⟩
  · simp [Text.slice, Span.length, Span.empty]
  · rw [List.mem_singleton.mp htoken] at hkind
    exact absurd rfl hkind
  · rw [List.mem_singleton.mp htoken] at hkind
    cases hkind
  · have hlist := list_in_gap hgapped hgap hstart (hend.symm ▸ hstop)
    rw [List.append_nil, list_separators hgap, hend] at hlist
    have hkept : [(⟨.finish, .empty (Text.bytes source)⟩ : Token)].filter
        (place ≤ ·.span.start) = [⟨.finish, .empty (Text.bytes source)⟩] :=
      List.filter_cons_of_pos (decide_eq_true hstop)
    rw [hkept, ← head?_list, hlist]
    exact ⟨rfl, rfl⟩

theorem LaidOut.next (h : (Cursor.ofText source).Reaches ⟨offset, gap ++ (text ++ rest)⟩)
    (hgap : ∀ c ∈ gap, isSeparator c = true) (hlongest : kind.IsLongest text rest)
    (hfollowing : Lexed ⟨offset + Text.bytes gap + Text.bytes text, rest⟩ others)
    (hothers : LaidOut source (offset + Text.bytes gap + Text.bytes text) others) :
    LaidOut source offset
      (⟨kind, Text.spanAt (offset + Text.bytes gap) text⟩ :: others) := by
  have hbefore := h.trans (Reaches.past rfl)
  have hbehind := hbefore.trans (Reaches.past rfl)
  rw [Cursor.past] at hbefore
  rw [Cursor.past, Cursor.past] at hbehind
  have hslice : Text.slice source (Text.spanAt (offset + Text.bytes gap) text) = text :=
    slice_of_reaches hbefore
  have hdrop : Text.dropBytes source (Text.spanAt (offset + Text.bytes gap) text).stop = rest :=
    congrArg Cursor.rest (atOffset_of_reaches hbehind)
  have hpos := Text.bytes_pos_of_ne_nil hlongest.matched.ne_nil
  refine {
    last := ?_
    liesIn := List.forall_mem_cons.mpr ⟨?_, hothers.liesIn⟩
    separated := ⟨onlySeparators_of_reaches h hgap, Nat.le_add_right _ _, hothers.separated⟩
    longest := List.forall_mem_cons.mpr ⟨fun _ => ?_, hothers.longest⟩
    names := List.forall_mem_cons.mpr ⟨fun hkind => ?_, hothers.names⟩
    resumes := fun place hstart hstop houtside => ?_ }
  · obtain ⟨front, rfl, hfront⟩ := hothers.last
    refine ⟨_ :: front, rfl, List.forall_mem_cons.mpr ⟨⟨?_, ?_⟩, hfront⟩⟩
    · exact kind_ne_finish hlongest.matched
    · exact Nat.lt_add_of_pos_right hpos
  · exact hbefore.upTo_liesIn (Reaches.past rfl)
  · rwa [hslice, hdrop]
  · obtain rfl : kind = .name := hkind
    rw [hdrop]
    exact hlongest.name_ends
  · obtain ⟨hinside, hothers'⟩ := List.forall_mem_cons.mp houtside
    -- The place is in the gap before the token, or behind the token.
    by_cases hplace : place ≤ offset + Text.bytes gap
    · have hall := list_in_gap h hgap hstart hplace
      have hlist := (Lexed.next hgap hlongest hfollowing).list_eq
      rw [hlist] at hall
      have hkept : ∀ token ∈ (⟨kind, Text.spanAt (offset + Text.bytes gap) text⟩ :: others),
          decide (place ≤ token.span.start) = true := by
        refine List.forall_mem_cons.mpr ⟨decide_eq_true hplace, fun token htoken => ?_⟩
        have hordered : Span.Ordered _ (others.map span) _ :=
          hothers.separated.mono fun _ _ hgap => hgap.1
        have := hordered.start_le (List.mem_map_of_mem htoken)
        exact decide_eq_true (by omega)
      rw [List.filter_eq_self.mpr hkept, ← head?_list, hall]
      exact ⟨rfl, rfl⟩
    · have hpast : offset + Text.bytes gap + Text.bytes text ≤ place := by
        rw [← Bool.not_eq_true, Span.containsInner_iff] at hinside
        dsimp only [Text.spanAt] at hinside
        omega
      have hdropped : (⟨kind, Text.spanAt (offset + Text.bytes gap) text⟩ :: others).filter
          (place ≤ ·.span.start) = others.filter (place ≤ ·.span.start) :=
        List.filter_cons_of_neg fun hle => hplace (of_decide_eq_true hle)
      rw [hdropped]
      exact hothers.resumes place hpast hstop hothers'

theorem Lexed.laidOut {tokens : List Token} (h : Lexed cursor tokens)
    (hsource : (Cursor.ofText source).Reaches cursor) :
    LaidOut source cursor.offset tokens := by
  induction h with
  | finish hgap => exact .finish hsource hgap
  | @next offset gap text rest kind others hgap hlongest following ih =>
    refine .next hsource hgap hlongest following (ih ?_)
    have hbehind := (hsource.trans (Reaches.past rfl)).trans (Reaches.past rfl)
    exact hbehind

end Layout

/-- The tokens of a source from a place between its characters on lie in it as
they should, wherever that is. -/
theorem list_laidOut (source : Text) (start : Nat) (h : Text.isBoundary source start = true) :
    LaidOut source start (list (.atOffset source start)) := by
  obtain ⟨before, rest, rfl, rfl⟩ := Text.isBoundary_iff.mp h
  have hstart : (Cursor.ofText (before ++ rest)).Reaches ⟨Text.bytes before, rest⟩ :=
    ⟨before, rfl, by simp [Cursor.ofText]⟩
  have hat := atOffset_of_reaches hstart
  rw [hat]
  exact (list_lexed _).laidOut hstart

theorem list_laidOut_behind_char :
    Text.isBoundary "é<p a".toList 2 = true ∧
    LaidOut "é<p a".toList 2
      [⟨.angle, ⟨2, 3⟩⟩, ⟨.name, ⟨3, 4⟩⟩, ⟨.name, ⟨5, 6⟩⟩, ⟨.finish, ⟨6, 6⟩⟩] := by
  have hstart : Text.isBoundary "é<p a".toList 2 = true := by decide
  have hlist : list (.atOffset "é<p a".toList 2) =
      [⟨.angle, ⟨2, 3⟩⟩, ⟨.name, ⟨3, 4⟩⟩, ⟨.name, ⟨5, 6⟩⟩, ⟨.finish, ⟨6, 6⟩⟩] := by decide
  exact ⟨hstart, hlist ▸ list_laidOut _ _ hstart⟩

end Token

end TypedComponent.Markup
