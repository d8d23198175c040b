import TypedComponent.Markup.Outline
import TypedComponent.Proofs.Markup.Attributes

/-!
The tags of an element. An opening tag is its sign and name, attributes with
separators around them, and the sign at its end; a closing tag goes on up to the
first sign that ends a tag, whatever stands behind its name.
-/

namespace TypedComponent.Markup

open Cursor (Reaches)

/-- Whether no sign in a text ends a tag. The sign that ends an empty element
ends no other tag. -/
def endsNoTag : Text → Bool
  | [] => true
  | '/' :: '>' :: rest => endsNoTag rest
  | '>' :: _ => false
  | _ :: rest => endsNoTag rest

theorem endsNoTag_cons {c : Char} {rest : Text} (hc : c ≠ '>') (h : endsNoTag rest = true) :
    endsNoTag (c :: rest) = true := by
  unfold endsNoTag
  split
  · rfl
  · next heq =>
    cases heq
    cases h
  · next heq =>
    cases heq
    exact absurd rfl hc
  · next heq =>
    cases heq
    exact h

theorem endsNoTag_of_forall {text : Text} (h : ∀ c ∈ text, c ≠ '>') : endsNoTag text = true := by
  induction text with
  | nil => rfl
  | cons c rest ih =>
    rw [List.forall_mem_cons] at h
    exact endsNoTag_cons h.1 (ih h.2)

theorem endsNoTag_append {a b : Text} (ha : endsNoTag a = true) (hb : endsNoTag b = true) :
    endsNoTag (a ++ b) = true := by
  fun_induction endsNoTag a with
  | case1 => exact hb
  | case2 rest ih => exact ih ha
  | case3 => cases ha
  | case4 c rest hslash hangle ih => exact endsNoTag_cons hangle (ih ha)

theorem TokenKind.leading_closeAngle {text : Text} (h : (leading text).1 = .closeAngle) :
    ∃ rest, text = '>' :: rest ∧ (leading text).2 = 1 := by
  unfold leading at h
  split at h <;> cases h
  exact ⟨_, rfl, rfl⟩

theorem TokenKind.leading_endsNoTag {text : Text} {kind : TokenKind} {length : Nat}
    (h : leading text = (kind, length)) (hkind : kind ≠ .closeAngle) :
    endsNoTag (text.take length) = true := by
  unfold leading at h
  split at h <;> cases h <;> first
    | rfl
    | contradiction

theorem readHere_sign {cursor : Cursor} {kind : TokenKind} {length : Nat}
    (h : TokenKind.leading cursor.rest = (kind, length)) (hkind : kind ≠ .name) :
    cursor.textTo (Token.readHere cursor).2 = cursor.rest.take length := by
  obtain ⟨passed, hrest, hbytes⟩ := TokenKind.leading_spec h
  have hall := List.take_append_drop length cursor.rest
  have hpassed : passed = cursor.rest.take length :=
    List.append_cancel_right (hrest.symm.trans hall.symm)
  unfold Token.readHere
  rw [h, ← hpassed]
  dsimp only
  rw [if_neg hkind]
  exact Reaches.textTo_eq hrest (by rw [hbytes])

theorem readHere_name {cursor : Cursor} (h : (TokenKind.leading cursor.rest).1 = .name) :
    cursor.textTo (Token.readHere cursor).2 = cursor.rest.takeWhile isNameChar := by
  unfold Token.readHere
  dsimp only
  rw [if_pos h]
  exact cursor.textTo_skipWhile isNameChar

theorem readHere_closeAngle {cursor : Cursor}
    (h : (Token.readHere cursor).1.kind = .closeAngle) :
    cursor.textTo (Token.readHere cursor).2 = ['>'] := by
  obtain ⟨rest, hrest, hlength⟩ := TokenKind.leading_closeAngle h
  rw [readHere_sign (Prod.ext h hlength) (by decide), hrest]
  rfl

/-- A token that is no such sign ends no tag. -/
theorem readHere_endsNoTag {cursor : Cursor}
    (h : (Token.readHere cursor).1.kind ≠ .closeAngle) :
    endsNoTag (cursor.textTo (Token.readHere cursor).2) = true := by
  by_cases hname : (TokenKind.leading cursor.rest).1 = .name
  · rw [readHere_name hname]
    apply endsNoTag_of_forall
    rintro _ hc rfl
    exact absurd (List.mem_takeWhile_imp hc) (by decide)
  · rw [readHere_sign rfl hname]
    exact TokenKind.leading_endsNoTag rfl h

theorem read_textTo (cursor : Cursor) :
    cursor.textTo (Token.read cursor).2 = cursor.rest.takeWhile isSeparator ++
      (cursor.skipWhile isSeparator).textTo (Token.read cursor).2 := by
  rw [← Cursor.textTo_skipWhile]
  exact (Reaches.skipWhile cursor isSeparator).textTo_trans (readHere_reaches _)

theorem endsNoTag_separators (text : Text) : endsNoTag (text.takeWhile isSeparator) = true := by
  apply endsNoTag_of_forall
  rintro _ hc rfl
  exact absurd (List.mem_takeWhile_imp hc) (by decide)

theorem skipClosingTagWithin_reaches (steps : Nat) (cursor : Cursor) :
    cursor.Reaches (skipClosingTagWithin steps cursor).cursor := by
  induction steps generalizing cursor with
  | zero => exact Reaches.refl cursor
  | succ steps ih =>
    have hread := read_reaches cursor
    unfold skipClosingTagWithin
    dsimp only
    split
    · exact hread
    · exact hread
    · exact hread.trans (ih _)

theorem skipClosingTag_reaches (cursor : Cursor) :
    cursor.Reaches (skipClosingTag cursor).cursor :=
  skipClosingTagWithin_reaches _ cursor

/-- A closing tag that is not missed ends with the first sign that can end it. -/
theorem skipClosingTagWithin_spec {steps : Nat} {cursor : Cursor}
    (hsteps : cursor.rest.length < steps) :
    FaultsBehind cursor (skipClosingTagWithin steps cursor).errors ∧
      ((skipClosingTagWithin steps cursor).errors = [] →
        ∃ middle, endsNoTag middle = true ∧
          cursor.textTo (skipClosingTagWithin steps cursor).cursor = middle ++ ['>']) := by
  induction steps generalizing cursor with
  | zero => omega
  | succ steps ih =>
    have hread := read_reaches cursor
    have htext := read_textTo cursor
    have hgap := endsNoTag_separators cursor.rest
    unfold skipClosingTagWithin
    dsimp only
    split
    · next hclose =>
      refine ⟨FaultsBehind.nil _, fun _ => ⟨_, hgap, ?_⟩⟩
      rw [htext]
      exact congrArg _ (readHere_closeAngle hclose)
    · exact ⟨FaultsBehind.empty hread _, fun h => nomatch h⟩
    · next hother hfinish =>
      have hpasses := read_passes hfinish
      have hfuel : (Token.read cursor).2.rest.length < steps := by omega
      obtain ⟨hfaults, hmiddle⟩ := ih hfuel
      refine ⟨hfaults.mono hread, fun hnone => ?_⟩
      obtain ⟨middle, hends, hrest⟩ := hmiddle hnone
      refine ⟨_, endsNoTag_append (endsNoTag_append hgap (readHere_endsNoTag hother)) hends, ?_⟩
      rw [hread.textTo_trans (skipClosingTagWithin_reaches _ _), htext, hrest]
      simp only [List.append_assoc]
      rfl

theorem skipClosingTag_spec (cursor : Cursor) :
    FaultsBehind cursor (skipClosingTag cursor).errors ∧
      ((skipClosingTag cursor).errors = [] → ∃ middle, endsNoTag middle = true ∧
        cursor.textTo (skipClosingTag cursor).cursor = middle ++ ['>']) :=
  skipClosingTagWithin_spec (Nat.lt_succ_self _)

/-- A closing tag: the name behind the sign and separators, and all that follows
up to the first sign that can end the tag. -/
def IsClosingTag (name text : Text) : Prop :=
  ∃ gap middle, text = "</".toList ++ gap ++ name ++ middle ++ ">".toList ∧
    (∀ c ∈ gap, isSeparator c = true) ∧ (∀ c ∈ middle.head?, isNameChar c = false) ∧
    endsNoTag middle = true

theorem isNameChar_of_isSeparator {c : Char} (h : isSeparator c = true) : isNameChar c = false := by
  simp [isNameChar, h]

/-- The rest of a closing tag behind its name, which no more characters continue. -/
theorem skipClosingTag_middle {stop : Cursor}
    (hplace : ∀ c ∈ stop.rest.head?, isNameChar c = false)
    (hnone : (skipClosingTag stop).errors = []) :
    ∃ middle, stop.textTo (skipClosingTag stop).cursor = middle ++ ['>'] ∧
      (∀ c ∈ middle.head?, isNameChar c = false) ∧ endsNoTag middle = true := by
  obtain ⟨middle, hends, hmiddle⟩ := (skipClosingTag_spec stop).2 hnone
  refine ⟨middle, hmiddle, fun c hc => hplace c ?_, hends⟩
  rw [(skipClosingTag_reaches stop).rest_eq, hmiddle]
  cases middle with
  | nil => cases hc
  | cons d rest => exact hc

theorem head_dropWhile_not {p : Char → Bool} (text : Text) :
    ∀ c ∈ (text.dropWhile p).head?, p c = false := by
  intro c hc
  have hhead := List.head?_dropWhile_not p text
  rw [Option.mem_def.mp hc] at hhead
  simpa using hhead

/-- A tag is a closing tag for the name that it is read with, which may be empty. -/
theorem skipClosingTag_isClosingTag {start afterSign : Cursor} (hsign : start.Reaches afterSign)
    (htext : start.textTo afterSign = "</".toList) {name : Text} {stop : Cursor}
    (hname : name = ((afterSign.skipWhile isSeparator).takeWhile isNameChar).1)
    (hstop : stop = if name.isEmpty then afterSign
      else ((afterSign.skipWhile isSeparator).takeWhile isNameChar).2)
    (hnone : (skipClosingTag stop).errors = []) :
    IsClosingTag name (start.textTo (skipClosingTag stop).cursor) := by
  have hskip := skipClosingTag_reaches stop
  have hgap := Reaches.skipWhile afterSign isSeparator
  have hrun := Reaches.takeWhile (afterSign.skipWhile isSeparator) isNameChar
  split at hstop
  · next hempty =>
    subst hstop
    have hnil := List.isEmpty_iff.mp hempty
    have hplace : ∀ c ∈ stop.rest.head?, isNameChar c = false := by
      intro c hc
      by_cases hsep : isSeparator c = true
      · exact isNameChar_of_isSeparator hsep
      · -- Nothing is skipped, so the empty name stands right behind the sign.
        have hsame : stop.rest.dropWhile isSeparator = stop.rest := by
          cases hrest : stop.rest with
          | nil => rfl
          | cons d rest =>
            rw [hrest] at hc
            cases hc
            rw [List.dropWhile_cons_of_neg hsep]
        have hnone : stop.rest.takeWhile isNameChar = [] := by
          rw [← hsame]
          exact hname.symm.trans hnil
        have hdrop := List.takeWhile_append_dropWhile (p := isNameChar) (l := stop.rest)
        rw [hnone, List.nil_append] at hdrop
        rw [← hdrop] at hc
        exact head_dropWhile_not stop.rest c hc
    obtain ⟨middle, hmiddle, hhead, hends⟩ := skipClosingTag_middle hplace hnone
    refine ⟨[], middle, ?_, List.forall_mem_nil _, hhead, hends⟩
    rw [hsign.textTo_trans hskip, htext, hnil, hmiddle]
    simp
  · subst hstop
    obtain ⟨middle, hmiddle, hhead, hends⟩ :=
      skipClosingTag_middle (head_dropWhile_not _) hnone
    refine ⟨afterSign.rest.takeWhile isSeparator, middle, ?_, fun c => List.mem_takeWhile_imp,
      hhead, hends⟩
    rw [hsign.textTo_trans (hgap.trans (hrun.trans hskip)),
      hgap.textTo_trans (hrun.trans hskip), hrun.textTo_trans hskip, htext,
      Cursor.textTo_skipWhile, Cursor.textTo_takeWhile, ← hname, hmiddle]
    simp

/-- An opening tag: its sign and name, its attributes, and the sign at its end. -/
def Opens (errors : List Error) (start stop : Cursor) (name : Text)
    (attributes : List Attribute) : Prop :=
  ∃ afterName sign : Cursor, start.Reaches afterName ∧ start.textTo afterName = '<' :: name ∧
    Attribute.Row errors afterName attributes sign ∧ sign.Reaches stop ∧ sign.textTo stop = ['>']

/-- The tags of a raw element that is read from one place to another: attributes
in the opening one, the content behind it, and then the closing one. -/
def Enclosed (errors : List Error) (start stop : Cursor) (attributes : List Attribute)
    (content : Span) : Prop :=
  ∃ afterName last inside ending : Cursor, start.Reaches afterName ∧
    Attribute.Row errors afterName attributes last ∧ last.Reaches inside ∧
    inside.Reaches ending ∧ ending.Reaches stop ∧ content = inside.upTo ending

/-- A node that is read at once, from one place to another. -/
inductive Node.Whole (errors : List Error) (start stop : Cursor) : Node → Prop
  | text (blank : Bool) : Whole errors start stop (.text (start.upTo stop) blank)
  | comment : Whole errors start stop (.comment (start.upTo stop))
  | mustache {inside close : Cursor} (kind : MustacheKind) (opening : start.Reaches inside)
      (inner : inside.Reaches close) (closing : close.Reaches stop) :
      Whole errors start stop (.mustache (start.upTo stop) (inside.upTo close) kind)
  | childless {afterName last : Cursor} (name : Text) {attributes : List Attribute}
      {selfClosing : Bool} (opening : start.Reaches afterName)
      (row : Attribute.Row errors afterName attributes last) (closing : last.Reaches stop)
      (reason : selfClosing = true ∨ isVoid name = true) :
      Whole errors start stop (.element (start.upTo stop) name attributes selfClosing [])
  | raw {name : Text} {attributes : List Attribute} {content : Span} (blank : Bool)
      (enclosed : Enclosed errors start stop attributes content)
      (reason : (isScriptName name || isStyleName name) = true) :
      Whole errors start stop
        (.element (start.upTo stop) name attributes false [.text content blank])

/-- If there is a comment in such a node, it is the node. -/
theorem Node.Whole.comments {errors : List Error} {start stop : Cursor} {found : Node}
    (h : found.Whole errors start stop) {span : Span} (hcomment : .comment span ∈ found.family) :
    span = start.upTo stop := by
  cases h with
  | comment => simpa [Node.family] using hcomment
  | _ => simp [Node.family, Node.familyOfAll] at hcomment

end TypedComponent.Markup
