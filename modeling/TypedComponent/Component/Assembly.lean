import TypedComponent.Component.Fragment
import TypedComponent.Component.Name
import TypedComponent.Component.Props
import TypedComponent.Component.Reactive
import TypedComponent.Component.Slots
import TypedComponent.Edit.Resolve
import TypedComponent.Markup.Outline
import TypedComponent.Script.Lower

/-!
The typed form of a component: a function that holds the instance script and
the markup and returns props and slots, and a class that exports their types.

The script is moved in front of the markup, its tags become the beginning of
the function and the beginning of the fragment, and everything goes through
one edit buffer, so that the map covers every byte that is left. The parser of
scripts is given from outside.
-/

namespace TypedComponent.Component

open Markup (Document ScriptBlock)

structure Options where
  /-- Names the class and says in which file errors are. -/
  filename : Option Text
  /-- Whether to keep the position map. -/
  keepMap : Bool
deriving DecidableEq, Repr

/-- Without a file, and with a map. -/
def Options.default : Options := ⟨none, true⟩

/-- The typed form of a component and what was found out on the way. -/
structure TypedForm where
  code : Text
  map : PositionMap
  slots : Slots
  exports : Registry (Option Text)
  writtenProps : Text
  writtenSlots : Text
deriving DecidableEq, Repr

/-- Ends a fragment and begins the function. -/
def functionOpening : Text := "</>;function render() \x7b\n".toList

/-- Ends the script and begins a fragment. -/
def fragmentOpening : Text := ";\n<>".toList

/-- The end of the function. -/
def functionEnding (writtenProps writtenSlots : Text) : Text :=
  "\nreturn \x7b props: ".toList ++ writtenProps ++ ", slots: ".toList ++ writtenSlots ++
    " \x7d\x7d".toList

/-- Applies edits that may be refused. -/
def applyEdits (buffer : EditBuffer) (edits : List Edit) : Except Error EditBuffer :=
  (buffer.applyAll edits).mapError .edit

/-- Moves a script to the front and writes the function around it in place of
its tags. A script that never ends has no closing tag. -/
def scriptEdits (script : ScriptBlock) : List Edit :=
  let move := if script.span.start = 0 then [] else [Edit.move script.span 0]
  let closing : Edit :=
    if script.content.stop = script.span.stop then
      .insertBefore script.content.stop fragmentOpening
    else .overwrite ⟨script.content.stop, script.span.stop⟩ fragmentOpening
  move ++ [.overwrite ⟨script.span.start, script.content.start⟩ functionOpening, closing]

/-- The statements of a script that begins at an offset of the component. What
the parser says against it is passed on, with its place in the component. -/
def parseScript (parser : Script.Parser) (content : Text) (start : Nat) :
    Except Error (List Script.Statement) :=
  (parser.statements content).mapError fun error =>
    .scriptSyntax error.message (start + (error.start - parser.base))

/-- Makes the instance script the head of the function. -/
def embedScript (parser : Script.Parser) (buffer : EditBuffer) (script : ScriptBlock)
    (writtenSlots : Text) : Except Error (EditBuffer × Registry (Option Text)) := do
  let buffer ← applyEdits buffer (scriptEdits script)
  let start := script.content.start
  let statements ← parseScript parser (Text.slice buffer.source script.content) start
  let (buffer, surface) := cutExports buffer statements start
  let surface ← surface
  let (buffer, declared) := declareReactive buffer surface.declared statements start
  discard declared
  return (buffer.append (functionEnding (writtenProps surface.exports) writtenSlots),
    surface.exports)

/-- Makes a function of the markup alone. -/
def embedMarkup (buffer : EditBuffer) (writtenSlots : Text) : Except Error EditBuffer :=
  applyEdits buffer
    [.insertBefore 0 (functionOpening ++ "<>".toList),
      .append (";".toList ++ functionEnding (writtenProps .empty) writtenSlots)]

/-- The typed form of a component that is taken apart already. -/
def assemble (parser : Script.Parser) (source : Text) (document : Document)
    (convert : MarkupConverter) (options : Options) : Except Error TypedForm := do
  let buffer ← applyEdits (.ofText source) (convert document)
  let slots ← Slots.ofNodes source document.nodes
  let buffer ← applyEdits buffer (document.styles.map fun style => .remove style.span)
  let (buffer, exports) ←
    match document.instanceScript? with
    | none => (embedMarkup buffer slots.written).map (·, .empty)
    | some script => embedScript parser buffer script slots.written
  let buffer := buffer.append (exportedClass (options.filename.map nameOfPath))
  let edited := buffer.finish
  return {
    code := edited.code
    map := if options.keepMap then edited.map else .empty
    slots := slots
    exports := exports
    writtenProps := writtenProps exports
    writtenSlots := slots.written }

/-- Says in which file an error is, if there is one. -/
def Options.locate (options : Options) (source : Text) (error : Error) : Error :=
  match options.filename with
  | none => error
  | some filename => error.inFile filename source

/-- The typed form of a component that is taken apart already, with errors
placed in its file. -/
def typeDocument (parser : Script.Parser) (source : Text) (document : Document)
    (convert : MarkupConverter) (options : Options) : Except Error TypedForm :=
  (assemble parser source document convert options).mapError (options.locate source)

/-- The typed form of a component. Its markup must be without faults, and the
first fault is the error. -/
def typeComponent (parser : Script.Parser) (source : Text) (options : Options) :
    Except Error TypedForm :=
  let parsed := Markup.parse source
  match parsed.errors with
  | fault :: _ => .error (options.locate source (.template fault))
  | [] => typeDocument parser source parsed.document fragmentConverter options

/-- The typed forms of components in files, each on its own. -/
def typeComponents (parser : Script.Parser) (components : List (Text × Text)) (keepMap : Bool) :
    List (Except Error TypedForm) :=
  components.map fun (filename, source) => typeComponent parser source ⟨some filename, keepMap⟩

end TypedComponent.Component
