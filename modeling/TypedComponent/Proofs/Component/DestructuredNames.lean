import TypedComponent.Component.Assembly
import TypedComponent.Proofs.Script.Destructuring

/-!
A variable statement whose one declarator is a destructuring pattern. Its statement holds
one pattern, with the names that the pattern binds in the order of the source, and these
are the names that the script declares. Keys of properties and names in default values
are not among them.
-/

namespace TypedComponent.Component

open Script (Destructuring)

/-- A variable statement with a destructuring pattern, however the pattern nests and is
laid out, is one statement with one pattern if the parser has the tree of the pattern for
it. Its names are those that the pattern binds, in the order of the source, and they are
what the script declares. -/
theorem declared_destructuring {parser : Script.Parser} (pattern : Destructuring)
    (gaps : List Text) (buffer : EditBuffer) (start : Nat)
    (hparse : parser.parse (pattern.declaration gaps) = .ok [pattern.item gaps parser.base]) :
    parseScript parser (pattern.declaration gaps) start = .ok [pattern.statement gaps] ∧
      (pattern.statement gaps).kind = .variableDeclaration none
        [.pattern ⟨4, 4 + Text.bytes (pattern.text gaps)⟩
          (pattern.lexemes.filterMap Script.Lexeme.bound?)] ∧
      cutExports buffer [pattern.statement gaps] start =
        (buffer, .ok ⟨.empty, pattern.lexemes.filterMap Script.Lexeme.bound?⟩) := by
  have hstatements : parser.statements (pattern.declaration gaps) =
      .ok [pattern.statement gaps] := by
    refine Script.Parser.statements_ok.mpr ⟨_, hparse, ?_⟩
    rw [List.map_singleton, pattern.item_eq]
  refine ⟨?_, rfl, rfl⟩
  rw [parseScript, hstatements]
  rfl

/-- A pattern in which `b` is a key and `f` a default value. -/
def nestedPattern : Destructuring :=
  .object (.property (.shorthand "a".toList none)
    (.property (.renamed (.name "b".toList) (.pattern (.array
        (.element (.name "c".toList) (some (.string "\"f\"".toList "f".toList))
          (.rest (.name "d".toList))))) none)
      (.property (.shorthand "e".toList (some (.name "f".toList)))
        (.last (.shorthand "g".toList (some (.number "1".toList)))))))

/-- Spaces behind commas and colons, and around equals signs. -/
def nestedGaps : List Text :=
  [[], [], [' '], [], [' '], [], [' '], [' '], [], [' '], [], [], [], [' '], [' '], [' '], [],
    [' '], [' '], [' ']]

def nestedParser : Script.Parser :=
  .ofTable 1 [(nestedPattern.declaration nestedGaps, [nestedPattern.item nestedGaps 1])]

theorem declared_destructuring_nested :
    nestedPattern.declaration nestedGaps =
        "let \x7ba, b: [c = \"f\", ...d], e = f, g = 1\x7d = v;".toList ∧
      ∃ statement, parseScript nestedParser (nestedPattern.declaration nestedGaps) 0 =
          .ok [statement] ∧
        cutExports (.ofText (nestedPattern.declaration nestedGaps)) [statement] 0 =
          (.ofText (nestedPattern.declaration nestedGaps), .ok ⟨.empty,
            ["a".toList, "c".toList, "d".toList, "e".toList, "g".toList]⟩) := by
  have hparse : nestedParser.parse (nestedPattern.declaration nestedGaps) =
      .ok [nestedPattern.item nestedGaps nestedParser.base] := rfl
  obtain ⟨hstatements, -, hdeclared⟩ := declared_destructuring nestedPattern nestedGaps
    (.ofText (nestedPattern.declaration nestedGaps)) 0 hparse
  exact ⟨rfl, _, hstatements, hdeclared⟩

end TypedComponent.Component
