import TypedComponent.Edit.Error
import TypedComponent.Markup.Error
import TypedComponent.Text.Lines

/-!
The reasons for which a component has no typed form, what is told about them,
and where in the component they are.
-/

namespace TypedComponent.Component

inductive Error where
  /-- An export that names no plain identifier. -/
  | unsupportedExport (construct : Text) (offset : Nat)
  | malformedSlotAttribute (slot attributeName : Text) (offset : Nat)
  | scriptSyntax (message : Text) (offset : Nat)
  | template (cause : Markup.Error)
  /-- An edit that cannot stand beside the ones before it. -/
  | edit (cause : EditError)
  /-- An error of a component in a file. The location shows the file and, where
  known, line and column. -/
  | inComponent (filename location : Text) (offset : Option Nat) (cause : Error)
deriving DecidableEq, Repr

namespace Error

def message : Error → String
  | unsupportedExport construct _ => "unsupported export target: " ++ String.ofList construct
  | malformedSlotAttribute slot attributeName _ =>
    "malformed attribute `" ++ String.ofList attributeName ++ "` on slot `" ++
      String.ofList slot ++ "`"
  | scriptSyntax message _ => "failed to parse script: " ++ String.ofList message
  | template cause => "failed to parse template: " ++ cause.fault.message
  | edit cause => "internal edit conflict: " ++ cause.message
  | inComponent _ location _ cause => String.ofList location ++ ": " ++ cause.message

/-- The place in the component that the error points at. -/
def offset? : Error → Option Nat
  | unsupportedExport _ offset | malformedSlotAttribute _ _ offset | scriptSyntax _ offset =>
    some offset
  | template cause => some cause.span.start
  | edit _ => none
  | inComponent _ _ offset _ => offset

/-- The error without the file it is in. -/
def root : Error → Error
  | inComponent _ _ _ cause => cause.root
  | other => other

/-- A file, with line and column where there is a position. -/
def locationIn (filename : Text) : Option Position → Text
  | none => filename
  | some position => filename ++ ":".toList ++ position.shown.toList

/-- Offsets are looked up by their lower 32 bits. -/
def positionIn (source : Text) (offset : Nat) : Option Position :=
  (Lines.ofText source).position? (offset % 0x100000000)

/-- Says in which file the error is, unless that has been said. -/
def inFile (filename source : Text) : Error → Error
  | inComponent known location offset cause => inComponent known location offset cause
  | error =>
    inComponent filename (locationIn filename (error.offset?.bind (positionIn source)))
      error.offset? error

/-- The word for the kind of error in reports. -/
def code : Error → String
  | unsupportedExport .. => "svelte2tsx::unsupported_export"
  | malformedSlotAttribute .. => "svelte2tsx::malformed_slot_attribute"
  | scriptSyntax .. => "svelte2tsx::script_parse"
  | template _ => "svelte2tsx::template_parse"
  | edit _ => "svelte2tsx::internal"
  | inComponent .. => "svelte2tsx::component"

/-- Advice on how to mend the component. -/
def help? : Error → Option String
  | unsupportedExport .. =>
    some ("props are declared with `export let`, `export function` or an export list of " ++
      "identifiers")
  | malformedSlotAttribute .. =>
    some "slot names must be static text, e.g. <slot name=\"header\">"
  | _ => none

/-- The note at the place that the error points at. -/
def label? : Error → Option (String × Nat)
  | unsupportedExport _ offset => some ("declared here", offset)
  | malformedSlotAttribute _ _ offset => some ("cannot be rendered", offset)
  | scriptSyntax _ offset => some ("here", offset)
  | inComponent _ _ offset _ => offset.map (("here", ·))
  | template _ | edit _ => none

/-- An error that has a file keeps it. -/
theorem inFile_inFile (error : Error) (filename source otherName otherSource : Text) :
    (error.inFile filename source).inFile otherName otherSource = error.inFile filename source := by
  cases error <;> rfl

theorem root_inFile (error : Error) (filename source : Text) :
    (error.inFile filename source).root = error.root := by
  cases error <;> rfl

end Error

end TypedComponent.Component
