import TypedComponent.Proofs.Script.Stock

/-!
A semicolon and a line end between two scripts. A semicolon behind a script belongs
to a comment there, or it ends the last statement, or it is an empty statement. Where
a second semicolon is an empty statement, the first one has ended all that is in front
of it, so that any script can follow.
-/

namespace TypedComponent.Script

open Layout (behind opening written)

/-- What stands between a script and the text behind it. -/
def separator : Text := ";\n".toList

/-- The empty statement. -/
def semicolon : Phrase := .ofStatement ";".toList .other

/-- The statements of a script with a semicolon behind it that is not in a comment. -/
inductive Terminates (passages : List (Text × Phrase)) (tail : Text) :
    List (Text × Phrase) → Prop
  | empty : Terminates passages tail (passages ++ [(tail, semicolon)])
  | last {front : List (Text × Phrase)} {gap : Text} {phrase longer : Phrase}
      (split : passages = front ++ [(gap, phrase)])
      (text : longer.text = phrase.text ++ tail ++ ";".toList)
      (meaning : longer.meaning = phrase.meaning) :
      Terminates passages tail (front ++ [(gap, longer)])

variable {parser : Parser}

/-- What a parser makes of semicolons. -/
structure Parser.TakesSemicolons (parser : Parser) : Prop where
  /-- At the end of a script it is in a comment or terminates the script. -/
  atEnd : ∀ passages tail, parser.Reads ⟨passages, tail⟩ →
    parser.Reads ⟨passages, tail ++ ";".toList⟩ ∨
      ∃ terminated, Terminates passages tail terminated ∧ parser.Reads ⟨terminated, []⟩
  /-- Directly behind another one it can be left out. -/
  again : ∀ front rest, ";".toList <:+ written front →
    parser.Reads (behind (front ++ [([], semicolon)]) rest) → parser.Reads (behind front rest)

/-- Of two semicolons behind a script, the second is a statement of its own. It is none
where the script ends in a comment or in a string that is not closed. -/
def Parser.LeavesSemicolons (parser : Parser) (script : Text) : Prop :=
  ∃ passages, written passages = script ++ ";".toList ∧
    parser.Reads ⟨passages ++ [([], semicolon)], []⟩

/-- What a script begins with is on the line behind an empty statement in some script. A
line that only the start of a script can have is nowhere behind a statement. -/
def Parser.FollowsSemicolons (parser : Parser) (script : Text) : Prop :=
  ∀ layout : Layout, layout.text = script → parser.Reads layout →
    parser.Joins (opening (some semicolon) (layout.lead "\n".toList))

section Meaning

theorem Terminates.meanings {passages terminated : List (Text × Phrase)} {tail : Text}
    (h : Terminates passages tail terminated) :
    terminated.map (·.2.meaning) = passages.map (·.2.meaning) ∨
      terminated.map (·.2.meaning) = passages.map (·.2.meaning) ++ [.other] := by
  cases h with
  | empty => exact .inr List.map_append
  | last split text meaning =>
    left
    simp only [split, List.map_append, List.map_cons, List.map_nil, meaning]

theorem Terminates.written {passages terminated : List (Text × Phrase)} {tail : Text}
    (h : Terminates passages tail terminated) :
    Layout.written terminated = Layout.written passages ++ tail ++ ";".toList := by
  cases h with
  | empty => simp [semicolon, Phrase.ofStatement]
  | last split text meaning => simp [split, text]

end Meaning

namespace Parser

variable {own other : Layout}

/-- A semicolon that is left terminates the script in front of it. -/
theorem LeavesSemicolons.terminates (htakes : parser.TakesSemicolons) (hown : parser.Reads own)
    (hleaves : parser.LeavesSemicolons own.text) :
    ∃ terminated, Terminates own.passages own.tail terminated ∧
      parser.Reads ⟨terminated ++ [([], semicolon)], []⟩ := by
  obtain ⟨passages, hwritten, hreads⟩ := hleaves
  have hended : parser.Reads ⟨passages, []⟩ := by
    have hagain := htakes.again passages ⟨[], []⟩ (hwritten ▸ List.suffix_append _ _)
      (by rwa [Layout.behind_nil])
    rwa [Layout.behind_nil] at hagain
  rcases htakes.atEnd own.passages own.tail hown with hcomment | ⟨terminated, hterminates, hread⟩
  · have hsame := hended.unique hcomment (by simp [Layout.text, hwritten])
    simp at hsame
  · have hsame := hended.unique hread (by simp [Layout.text, hwritten, hterminates.written])
    cases hsame
    exact ⟨passages, hterminates, hreads⟩

/-- Behind a separator that is left, scripts are read. -/
theorem LeavesSemicolons.reads_separator (hcross : parser.Crosses) (htakes : parser.TakesSemicolons)
    (hown : parser.Reads own) (hother : parser.Reads other)
    (hleaves : parser.LeavesSemicolons own.text) (hfollows : parser.FollowsSemicolons other.text) :
    ∃ terminated, Terminates own.passages own.tail terminated ∧
      parser.Reads (behind terminated (other.lead "\n".toList)) := by
  obtain ⟨terminated, hterminates, hreads⟩ := hleaves.terminates htakes hown
  refine ⟨terminated, hterminates, htakes.again _ _ ?_ ?_⟩
  · rw [hterminates.written]
    exact List.suffix_append _ _
  · rw [← Layout.behind_nil] at hreads
    refine reads_lead hcross hreads hother ?_
    rw [Layout.lastOf_concat]
    exact hfollows other rfl hother

/-- With a separator between them, two scripts are read as the statements of both. -/
theorem LeavesSemicolons.statements (hcross : parser.Crosses) (htakes : parser.TakesSemicolons)
    (hown : parser.Reads own) (hother : parser.Reads other)
    (hleaves : parser.LeavesSemicolons own.text) (hfollows : parser.FollowsSemicolons other.text) :
    ∃ found, parser.statements (own.text ++ separator ++ other.text) = .ok found ∧
      (found.map (·.kind.unplaced) =
          own.passages.map (·.2.meaning) ++ other.passages.map (·.2.meaning) ∨
        found.map (·.kind.unplaced) =
          own.passages.map (·.2.meaning) ++ .other :: other.passages.map (·.2.meaning)) := by
  obtain ⟨terminated, hterminates, hreads⟩ :=
    hleaves.reads_separator hcross htakes hown hother hfollows
  obtain ⟨found, hfound, hmeanings⟩ := hreads.statements
  have htext : (behind terminated (other.lead "\n".toList)).text =
      own.text ++ separator ++ other.text := by
    have hown : own.text = written own.passages ++ own.tail := rfl
    have hseparator : separator = ";".toList ++ "\n".toList := by decide
    rw [Layout.text_behind, hterminates.written, Layout.text_lead, hown, hseparator]
    simp only [List.append_assoc]
  rw [htext] at hfound
  refine ⟨found, hfound, ?_⟩
  rw [hmeanings, behind, List.map_append, Layout.meanings_lead]
  rcases hterminates.meanings with hsame | hempty
  · exact .inl (by rw [hsame])
  · exact .inr (by rw [hempty, List.append_assoc]; rfl)

end Parser

section Stock

variable {stock : Stock} (hsemicolon : semicolon ∈ stock.phrases) (base : Nat)

include hsemicolon

/-- Where the empty statement is in stock, it can end every script of the stock. -/
theorem Stock.takesSemicolons : (stock.parser base).TakesSemicolons where
  atEnd passages tail h := by
    rw [reads_iff] at h
    refine .inr ⟨_, .empty, reads_iff.mpr ⟨?_, ?_, rfl⟩⟩ <;>
      simp only [List.mem_append, List.mem_singleton]
    · rintro passage (hmem | rfl)
      exacts [h.gap passage hmem, h.tail]
    · rintro passage (hmem | rfl)
      exacts [h.phrase passage hmem, hsemicolon]
  again front rest _ h := by
    rw [reads_iff, makes_behind] at *
    exact ⟨fun passage hmem => h.1 passage (List.mem_append_left _ hmem),
      fun passage hmem => h.2.1 passage (List.mem_append_left _ hmem), h.2.2⟩

theorem Stock.followsSemicolons (script : Text) :
    (stock.parser base).FollowsSemicolons script := by
  intro layout _ h
  refine ⟨behind [([], semicolon)] (layout.lead "\n".toList), ?_,
    Layout.mem_junctions.mpr ⟨_, _, rfl, rfl⟩⟩
  rw [reads_iff] at h ⊢
  refine makes_behind.mpr ⟨?_, ?_, h.lead rfl⟩ <;> rintro passage hmem <;>
    cases List.mem_singleton.mp hmem
  · rfl
  · exact hsemicolon

end Stock

end TypedComponent.Script
