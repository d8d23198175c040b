import Mathlib.Data.List.Chain
import TypedComponent.Markup.Outline
import TypedComponent.Proofs.Markup.Balanced

/-!
Markup as it is written. A written tree has the texts of a component's markup
and no places; printing gives its source, and placing gives the tree in which
every part has the span at which it is printed.
-/

namespace TypedComponent

/-- The span of a text that begins at an offset. -/
def Text.spanAt (offset : Nat) (text : Text) : Span := ⟨offset, offset + bytes text⟩

namespace Markup

/-- A part of a value in quotes, as it is written. -/
inductive WrittenFragment where
  | text (raw : Text)
  | expression (inner : Text)

inductive WrittenAttribute where
  | bare (name : Text)
  | quoted (name : Text) (quote : Char) (values : List WrittenFragment)
  /-- A value in braces, without quotes. -/
  | braced (name inner : Text)
  /-- A name that is its own value. -/
  | shorthand (inner : Text)
  | spread (inner : Text)

inductive Written where
  | text (raw : Text)
  | comment (body : Text)
  | mustache (kind : MustacheKind) (inner : Text)
  | element (name : Text) (attributes : List WrittenAttribute) (children : List Written)
  /-- An element that its opening tag closes. -/
  | closed (name : Text) (attributes : List WrittenAttribute)
  /-- An element that never has content, written without a closing tag. -/
  | void (name : Text) (attributes : List WrittenAttribute)
  /-- A script or style element, whose content is no markup. -/
  | verbatim (name : Text) (attributes : List WrittenAttribute) (body : Text)

namespace WrittenFragment

def print : WrittenFragment → Text
  | text raw => raw
  | expression inner => '\x7b' :: inner ++ ['\x7d']

def place (offset : Nat) : WrittenFragment → Fragment
  | text raw => .text (Text.spanAt offset raw) raw
  | expression inner =>
    .expression (Text.spanAt offset (expression inner).print) (Text.spanAt (offset + 1) inner)

def printAll (values : List WrittenFragment) : Text := values.flatMap print

def placeAll : Nat → List WrittenFragment → List Fragment
  | _, [] => []
  | offset, first :: others =>
    first.place offset :: placeAll (offset + Text.bytes first.print) others

/-- A value in quotes; the empty one is an empty text. -/
def placeQuoted (offset : Nat) (values : List WrittenFragment) : List Fragment :=
  if values.isEmpty then [.text (.empty offset) []] else placeAll offset values

def isText : WrittenFragment → Bool
  | text _ => true
  | expression _ => false

/-- Texts keep clear of the quotes around them and of braces. -/
def WellFormed (quote : Char) : WrittenFragment → Prop
  | text raw => raw ≠ [] ∧ ∀ c ∈ raw, c ≠ quote ∧ c ≠ '\x7b'
  | expression inner => Balanced .code inner

def CanFollow (first second : WrittenFragment) : Prop := (first.isText && second.isText) = false

end WrittenFragment

/-- A name of an attribute. -/
def IsName (name : Text) : Prop := name ≠ [] ∧ ∀ c ∈ name, isNameChar c = true

/-- A name of an element: a letter and what can be in names. -/
def IsTagName (name : Text) : Prop :=
  ∃ c rest, name = c :: rest ∧ Text.isAsciiLetter c = true ∧ ∀ d ∈ rest, isNameChar d = true

namespace WrittenAttribute

def print : WrittenAttribute → Text
  | bare name => name
  | quoted name quote values =>
    name ++ '=' :: quote :: WrittenFragment.printAll values ++ [quote]
  | braced name inner => name ++ '=' :: (WrittenFragment.expression inner).print
  | shorthand inner => (WrittenFragment.expression inner).print
  | spread inner => (WrittenFragment.expression ("...".toList ++ inner)).print

def place (offset : Nat) (attr : WrittenAttribute) : Attribute :=
  let span := Text.spanAt offset attr.print
  match attr with
  | bare name => .named span name []
  | quoted name _ values =>
    .named span name (WrittenFragment.placeQuoted (offset + Text.bytes name + 2) values)
  | braced name inner =>
    .named span name [(WrittenFragment.expression inner).place (offset + Text.bytes name + 1)]
  | shorthand inner =>
    .named span (Text.trim inner) [(WrittenFragment.expression inner).place offset]
  | spread inner => .spread span (Text.spanAt (offset + 4) inner)

/-- Attributes, each with a space before it. -/
def printAll (attributes : List WrittenAttribute) : Text :=
  attributes.flatMap fun attr => ' ' :: attr.print

def placeAll : Nat → List WrittenAttribute → List Attribute
  | _, [] => []
  | offset, first :: others =>
    first.place (offset + 1) :: placeAll (offset + 1 + Text.bytes first.print) others

def WellFormed : WrittenAttribute → Prop
  | bare name => IsName name
  | quoted name quote values => IsName name ∧ (quote = '"' ∨ quote = '\'') ∧
    (∀ value ∈ values, value.WellFormed quote) ∧ values.IsChain WrittenFragment.CanFollow
  | braced name inner => IsName name ∧ Balanced .code inner
  | shorthand inner => Balanced .code inner ∧ Text.trim inner ≠ [] ∧
    Text.after? "...".toList (Text.trimStart inner) = none
  | spread inner => Balanced .code inner

end WrittenAttribute

/-- The sign after the brace that says what an expression is for. -/
def MustacheKind.sign : MustacheKind → Text
  | expression => []
  | blockOpen => ['#']
  | blockContinue => [':']
  | blockClose => ['/']
  | special => ['@']

/-- An expression that is not taken for one with another sign. -/
def MustacheKind.Fits (inner : Text) : MustacheKind → Prop
  | expression => ∀ c ∈ inner.head?, c ∉ "#:/@".toList
  | blockClose => ∀ c ∈ inner.head?, c ≠ '/' ∧ c ≠ '*'
  | _ => True

namespace Written

/-- An opening tag, with the sign that ends it. -/
def printTag (name : Text) (attributes : List WrittenAttribute) (ending : Text) : Text :=
  '<' :: name ++ WrittenAttribute.printAll attributes ++ ending

def printClosingTag (name : Text) : Text := "</".toList ++ name ++ ">".toList

mutual

def print : Written → Text
  | text raw => raw
  | comment body => "<!--".toList ++ body ++ "-->".toList
  | mustache kind inner => '\x7b' :: kind.sign ++ inner ++ ['\x7d']
  | element name attributes children =>
    printTag name attributes ['>'] ++ printAll children ++ printClosingTag name
  | closed name attributes => printTag name attributes ['/', '>']
  | void name attributes => printTag name attributes ['>']
  | verbatim name attributes body => printTag name attributes ['>'] ++ body ++ printClosingTag name

def printAll : List Written → Text
  | [] => []
  | first :: others => first.print ++ printAll others

end

def placeAttributes (offset : Nat) (name : Text) (attributes : List WrittenAttribute) :
    List Attribute :=
  WrittenAttribute.placeAll (offset + 1 + Text.bytes name) attributes

mutual

def place (offset : Nat) : Written → Node
  | text raw => .text (Text.spanAt offset raw) (Text.allBlank raw)
  | comment body => .comment (Text.spanAt offset (comment body).print)
  | mustache kind inner =>
    .mustache (Text.spanAt offset (mustache kind inner).print)
      (Text.spanAt (offset + 1 + Text.bytes kind.sign) inner) kind
  | element name attributes children =>
    .element (Text.spanAt offset (element name attributes children).print) name
      (placeAttributes offset name attributes) false
      (placeAll (offset + Text.bytes (printTag name attributes ['>'])) children)
  | closed name attributes =>
    .element (Text.spanAt offset (closed name attributes).print) name
      (placeAttributes offset name attributes) true []
  | void name attributes =>
    .element (Text.spanAt offset (void name attributes).print) name
      (placeAttributes offset name attributes) false []
  | verbatim name attributes body =>
    .element (Text.spanAt offset (verbatim name attributes body).print) name
      (placeAttributes offset name attributes) false
      [.text (Text.spanAt (offset + Text.bytes (printTag name attributes ['>'])) body)
        (Text.allBlank body)]

def placeAll (offset : Nat) : List Written → List Node
  | [] => []
  | first :: others => first.place offset :: placeAll (offset + Text.bytes first.print) others

end

def isText : Written → Bool
  | text _ => true
  | _ => false

/-- Whether the part is a block of its document where it is not in an element. -/
def isBlock : Written → Bool
  | verbatim .. => true
  | _ => false

def CanFollow (first second : Written) : Prop := (first.isText && second.isText) = false

/-- A text in which no markup begins. -/
def IsPlain (raw : Text) : Prop :=
  '\x7b' ∉ raw ∧ ∀ a c b, raw = a ++ '<' :: c :: b →
    c ≠ '/' ∧ c ≠ '!' ∧ Text.isAsciiLetter c = false

mutual

def WellFormed : Written → Prop
  | text raw => raw ≠ [] ∧ IsPlain raw
  | comment body => ∀ a b, body ≠ a ++ "-->".toList ++ b
  | mustache kind inner => Balanced .code inner ∧ kind.Fits inner
  | element name attributes children => IsTagName name ∧ isVoid name = false ∧
    isScriptName name = false ∧ isStyleName name = false ∧
    (∀ attr ∈ attributes, attr.WellFormed) ∧ children.IsChain CanFollow ∧ AllWellFormed children
  | closed name attributes => IsTagName name ∧ ∀ attr ∈ attributes, attr.WellFormed
  | void name attributes => IsTagName name ∧ isVoid name = true ∧
    ∀ attr ∈ attributes, attr.WellFormed
  | verbatim name attributes body => IsTagName name ∧
    (isScriptName name = true ∨ isStyleName name = true) ∧
    (∀ attr ∈ attributes, attr.WellFormed) ∧ ∀ a b, body ≠ a ++ "</".toList ++ name ++ b

def AllWellFormed : List Written → Prop
  | [] => True
  | first :: others => first.WellFormed ∧ AllWellFormed others

end

/-- Parts with the offsets at which they are printed. -/
def withOffsets : Nat → List Written → List (Nat × Written)
  | _, [] => []
  | offset, first :: others =>
    (offset, first) :: withOffsets (offset + Text.bytes first.print) others

/-- A part outside of all elements that is none of the document's blocks. -/
def node? : Nat × Written → Option Node
  | (_, verbatim ..) => none
  | (offset, item) => some (item.place offset)

/-- A script element outside of all others is a block of the document. -/
def script? : Nat × Written → Option ScriptBlock
  | (offset, verbatim name attributes body) =>
    let placed := placeAttributes offset name attributes
    if isScriptName name then
      some ⟨Text.spanAt offset (verbatim name attributes body).print,
        Text.spanAt (offset + Text.bytes (printTag name attributes ['>'])) body,
        Outline.scriptLanguage placed, Outline.scriptContext placed, placed⟩
    else none
  | _ => none

def style? : Nat × Written → Option StyleBlock
  | (offset, verbatim name attributes body) =>
    if isScriptName name then none
    else some ⟨Text.spanAt offset (verbatim name attributes body).print,
      Text.spanAt (offset + Text.bytes (printTag name attributes ['>'])) body,
      placeAttributes offset name attributes⟩
  | _ => none

/-- The document that a component's written parts stand for. -/
def documentOf (items : List Written) : Document :=
  let placed := withOffsets 0 items
  ⟨⟨0, Text.bytes (printAll items)⟩, placed.filterMap node?, placed.filterMap script?,
    placed.filterMap style?⟩

end Written

end Markup

end TypedComponent
