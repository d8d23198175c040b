import TypedComponent.Component.Assembly
import TypedComponent.Component.Error
import TypedComponent.Component.Fragment
import TypedComponent.Component.Name
import TypedComponent.Component.Props
import TypedComponent.Component.Reactive
import TypedComponent.Component.Registry
import TypedComponent.Component.Slots
import TypedComponent.Edit.Buffer
import TypedComponent.Edit.Error
import TypedComponent.Edit.Resolve
import TypedComponent.Markup.AttributeList
import TypedComponent.Markup.Braces
import TypedComponent.Markup.Error
import TypedComponent.Markup.Outline
import TypedComponent.Markup.Token
import TypedComponent.Markup.Tree
import TypedComponent.PositionMap.Basic
import TypedComponent.PositionMap.Builder
import TypedComponent.Proofs.Component.Acceptance
import TypedComponent.Proofs.Component.CutScript
import TypedComponent.Proofs.Component.DestructuredNames
import TypedComponent.Proofs.Component.Effects
import TypedComponent.Proofs.Component.Embedding
import TypedComponent.Proofs.Component.ExportOutcome
import TypedComponent.Proofs.Component.ExportedProps
import TypedComponent.Proofs.Component.Exports
import TypedComponent.Proofs.Component.FaultPlaces
import TypedComponent.Proofs.Component.Naming
import TypedComponent.Proofs.Component.ObjectKeys
import TypedComponent.Proofs.Component.Obstacles
import TypedComponent.Proofs.Component.Outcome
import TypedComponent.Proofs.Component.Passes
import TypedComponent.Proofs.Component.Positions
import TypedComponent.Proofs.Component.ReactiveOutcome
import TypedComponent.Proofs.Component.Rebodying
import TypedComponent.Proofs.Component.Registry
import TypedComponent.Proofs.Component.ScriptEnd
import TypedComponent.Proofs.Component.ScriptFirst
import TypedComponent.Proofs.Component.SlotProps
import TypedComponent.Proofs.Component.SlotRegistry
import TypedComponent.Proofs.Component.Splices
import TypedComponent.Proofs.Component.Sums
import TypedComponent.Proofs.Component.SwappedMarkup
import TypedComponent.Proofs.Component.TypedCode
import TypedComponent.Proofs.Component.Unexported
import TypedComponent.Proofs.Edit.Acceptance
import TypedComponent.Proofs.Edit.Agreement
import TypedComponent.Proofs.Edit.Cellwise
import TypedComponent.Proofs.Edit.Commuting
import TypedComponent.Proofs.Edit.Consistent
import TypedComponent.Proofs.Edit.Coverage
import TypedComponent.Proofs.Edit.Cutting
import TypedComponent.Proofs.Edit.Harmony
import TypedComponent.Proofs.Edit.Origins
import TypedComponent.Proofs.Edit.Permanence
import TypedComponent.Proofs.Edit.Positions
import TypedComponent.Proofs.Edit.Records
import TypedComponent.Proofs.Edit.RelativeOrder
import TypedComponent.Proofs.Edit.Relocation
import TypedComponent.Proofs.Edit.Segments
import TypedComponent.Proofs.Edit.SwappedCode
import TypedComponent.Proofs.Edit.Swapping
import TypedComponent.Proofs.Edit.Traces
import TypedComponent.Proofs.Markup.Advance
import TypedComponent.Proofs.Markup.Aside
import TypedComponent.Proofs.Markup.Attributes
import TypedComponent.Proofs.Markup.Balanced
import TypedComponent.Proofs.Markup.BalancedOctets
import TypedComponent.Proofs.Markup.Blocks
import TypedComponent.Proofs.Markup.Children
import TypedComponent.Proofs.Markup.ClosingBrace
import TypedComponent.Proofs.Markup.Concatenation
import TypedComponent.Proofs.Markup.Descent
import TypedComponent.Proofs.Markup.Expressions
import TypedComponent.Proofs.Markup.Layout
import TypedComponent.Proofs.Markup.Lockstep
import TypedComponent.Proofs.Markup.Loops
import TypedComponent.Proofs.Markup.Pieces
import TypedComponent.Proofs.Markup.Places
import TypedComponent.Proofs.Markup.PrintedAttributes
import TypedComponent.Proofs.Markup.PrintedNodes
import TypedComponent.Proofs.Markup.Printing
import TypedComponent.Proofs.Markup.Progress
import TypedComponent.Proofs.Markup.RawBlocks
import TypedComponent.Proofs.Markup.Rebodying
import TypedComponent.Proofs.Markup.RegularExpressions
import TypedComponent.Proofs.Markup.Renumbering
import TypedComponent.Proofs.Markup.RoundTrip
import TypedComponent.Proofs.Markup.Spans
import TypedComponent.Proofs.Markup.Steps
import TypedComponent.Proofs.Markup.StyleBlocks
import TypedComponent.Proofs.Markup.Tags
import TypedComponent.Proofs.Markup.Tokens
import TypedComponent.Proofs.Markup.TwinAttributes
import TypedComponent.Proofs.Markup.TwinOutlines
import TypedComponent.Proofs.Markup.Twins
import TypedComponent.Proofs.Markup.UnquotedValues
import TypedComponent.Proofs.PositionMap.Lookup
import TypedComponent.Proofs.PositionMap.Unmerged
import TypedComponent.Proofs.Script.Destructuring
import TypedComponent.Proofs.Script.Layout
import TypedComponent.Proofs.Script.Literals
import TypedComponent.Proofs.Script.Phrases
import TypedComponent.Proofs.Script.Places
import TypedComponent.Proofs.Script.Separator
import TypedComponent.Proofs.Script.Stock
import TypedComponent.Proofs.Text.Cells
import TypedComponent.Proofs.Text.Lines
import TypedComponent.Proofs.Text.Octets
import TypedComponent.Proofs.Text.Swap
import TypedComponent.Script.Escape
import TypedComponent.Script.Grammar.Class
import TypedComponent.Script.Grammar.Declaration
import TypedComponent.Script.Grammar.Export
import TypedComponent.Script.Grammar.Expression
import TypedComponent.Script.Grammar.Function
import TypedComponent.Script.Grammar.Parameter
import TypedComponent.Script.Grammar.Rules
import TypedComponent.Script.Grammar.Statement
import TypedComponent.Script.Grammar.Type
import TypedComponent.Script.Lower
import TypedComponent.Script.Numeral
import TypedComponent.Script.Parse
import TypedComponent.Script.Parser
import TypedComponent.Script.Reader
import TypedComponent.Script.Statement
import TypedComponent.Script.Token
import TypedComponent.Script.Tree
import TypedComponent.Script.Trivia
import TypedComponent.Text.Basic
import TypedComponent.Text.Category
import TypedComponent.Text.Cursor
import TypedComponent.Text.Lines
import TypedComponent.Text.Quoted
import TypedComponent.Text.Span
import TypedComponent.Text.Table.Alphabetic
import TypedComponent.Text.Table.IdentifierPart
import TypedComponent.Text.Table.Letter
import TypedComponent.Text.Table.Number
