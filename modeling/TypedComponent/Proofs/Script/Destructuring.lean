import TypedComponent.Proofs.Script.Places

/-!
Destructuring patterns as a script may write them, and the trees that they have. A
pattern is told apart from how it is laid out: it is a list of lexemes, with any gaps
between them. Of its words only those bind a name that stand where a value goes.
-/

namespace TypedComponent.Script

/-- A word or a literal as it is written. It is the key of a property or a default
value. -/
inductive Atom where
  | name (name : Text)
  | number (written : Text)
  | string (written value : Text)

def Atom.text : Atom → Text
  | .name own => own
  | .number written | .string written _ => written

def Atom.key : Atom → Tree.PropertyKey
  | .name own => .word own
  | .number _ => .number
  | .string _ value => .string value

def Atom.value : Atom → Tree.Expression
  | .name own => .name own
  | .number _ => .number
  | .string _ value => .string value

mutual

/-- A pattern in brackets or braces. -/
inductive Destructuring where
  | array (items : TargetItems)
  | object (properties : TargetProperties)

/-- What one value is bound to. -/
inductive Target where
  | name (name : Text)
  | pattern (pattern : Destructuring)

/-- The items of an array pattern. Only the last element may have no comma behind it. -/
inductive TargetItems where
  | nil
  | hole (others : TargetItems)
  | last (target : Target) (value : Option Atom)
  | element (target : Target) (value : Option Atom) (others : TargetItems)
  | rest (target : Target)

inductive TargetProperties where
  | nil
  | last (only : TargetProperty)
  | property (first : TargetProperty) (others : TargetProperties)
  | rest (target : Target)

/-- A property that is bound to its own name, or one that is bound to something else. -/
inductive TargetProperty where
  | shorthand (name : Text) (value : Option Atom)
  | renamed (key : Atom) (target : Target) (value : Option Atom)

end

section Lexemes

/-- A part of the text of a pattern, by what it is there for. -/
inductive Lexeme where
  | mark (written : Text)
  | bound (name : Text)
  | key (atom : Atom)
  | value (atom : Atom)

def Lexeme.text : Lexeme → Text
  | .mark written => written
  | .bound name => name
  | .key atom | .value atom => atom.text

def Lexeme.bound? : Lexeme → Option Text
  | .bound name => some name
  | _ => none

def comma : Lexeme := .mark [',']

def ellipsis : Lexeme := .mark "...".toList

def defaultLexemes : Option Atom → List Lexeme
  | none => []
  | some value => [.mark ['='], .value value]

mutual

def Destructuring.lexemes : Destructuring → List Lexeme
  | .array items => .mark ['['] :: (items.lexemes ++ [.mark [']']])
  | .object properties => .mark ['\x7b'] :: (properties.lexemes ++ [.mark ['\x7d']])

def Target.lexemes : Target → List Lexeme
  | .name name => [.bound name]
  | .pattern pattern => pattern.lexemes

def TargetItems.lexemes : TargetItems → List Lexeme
  | .nil => []
  | .hole others => comma :: others.lexemes
  | .last target value => target.lexemes ++ defaultLexemes value
  | .element target value others =>
    target.lexemes ++ defaultLexemes value ++ comma :: others.lexemes
  | .rest target => ellipsis :: target.lexemes

def TargetProperties.lexemes : TargetProperties → List Lexeme
  | .nil => []
  | .last only => only.lexemes
  | .property first others => first.lexemes ++ comma :: others.lexemes
  | .rest target => ellipsis :: target.lexemes

def TargetProperty.lexemes : TargetProperty → List Lexeme
  | .shorthand name value => .bound name :: defaultLexemes value
  | .renamed key target value =>
    .key key :: .mark [':'] :: (target.lexemes ++ defaultLexemes value)

end

/-- Lexemes with gaps in front of them, as many as there are. -/
def layOut : List Text → List Lexeme → Text
  | _, [] => []
  | [], first :: others => first.text ++ layOut [] others
  | gap :: gaps, first :: others => gap ++ first.text ++ layOut gaps others

/-- The names that lexemes bind, in the order in which they stand there. -/
def namesBound (lexemes : List Lexeme) : List Text := lexemes.filterMap Lexeme.bound?

theorem namesBound_append (front others : List Lexeme) :
    namesBound (front ++ others) = namesBound front ++ namesBound others :=
  List.filterMap_append

theorem namesBound_default (value : Option Atom) : namesBound (defaultLexemes value) = [] := by
  cases value <;> rfl

end Lexemes

section Trees

/-- A target that may have a default value. -/
def withDefault (target : Tree.Pattern) : Option Atom → Tree.Pattern
  | none => target
  | some value => .withDefault target value.value

mutual

def Destructuring.tree : Destructuring → Tree.Pattern
  | .array items => .array items.trees
  | .object properties => .object properties.trees

def Target.tree : Target → Tree.Pattern
  | .name name => .name name
  | .pattern pattern => pattern.tree

def TargetItems.trees : TargetItems → List (Option Tree.Pattern)
  | .nil => []
  | .hole others => none :: others.trees
  | .last target value => [some (withDefault target.tree value)]
  | .element target value others => some (withDefault target.tree value) :: others.trees
  | .rest target => [some (.rest target.tree)]

def TargetProperties.trees : TargetProperties → List Tree.PatternProperty
  | .nil => []
  | .last only => [only.tree]
  | .property first others => first.tree :: others.trees
  | .rest target => [.rest target.tree]

def TargetProperty.tree : TargetProperty → Tree.PatternProperty
  | .shorthand name value => .shorthand name (value.map Atom.value)
  | .renamed key target value => .keyed key.key (withDefault target.tree value)

end

theorem names_withDefault (target : Tree.Pattern) (value : Option Atom) :
    (withDefault target value).names = target.names := by
  cases value <;> rfl

mutual

/-- The names of the tree of a pattern are those that its text binds. -/
theorem Destructuring.names_tree (pattern : Destructuring) :
    pattern.tree.names = namesBound pattern.lexemes := by
  cases pattern with
  | array items =>
    rw [Destructuring.lexemes, ← List.cons_append, namesBound_append]
    exact items.names_trees.trans (List.append_nil _).symm
  | object properties =>
    rw [Destructuring.lexemes, ← List.cons_append, namesBound_append]
    exact properties.names_trees.trans (List.append_nil _).symm

theorem Target.names_tree (target : Target) : target.tree.names = namesBound target.lexemes := by
  cases target with
  | name name => rfl
  | pattern pattern => exact pattern.names_tree

theorem TargetItems.names_trees (items : TargetItems) :
    Tree.namesOfElements items.trees = namesBound items.lexemes := by
  cases items with
  | nil => rfl
  | hole others => exact others.names_trees
  | last target value =>
    rw [TargetItems.lexemes, namesBound_append, namesBound_default, ← target.names_tree]
    exact congrArg (· ++ []) (names_withDefault target.tree value)
  | element target value others =>
    rw [TargetItems.lexemes, namesBound_append, namesBound_append, namesBound_default,
      ← target.names_tree, List.append_nil, ← names_withDefault target.tree value]
    exact congrArg (_ ++ ·) others.names_trees
  | rest target => exact (List.append_nil _).trans target.names_tree

theorem TargetProperties.names_trees (properties : TargetProperties) :
    Tree.namesOfProperties properties.trees = namesBound properties.lexemes := by
  cases properties with
  | nil => rfl
  | last only => exact (List.append_nil _).trans only.names_tree
  | property first others =>
    rw [TargetProperties.lexemes, namesBound_append, ← first.names_tree]
    exact congrArg (_ ++ ·) others.names_trees
  | rest target => exact (List.append_nil _).trans target.names_tree

theorem TargetProperty.names_tree (property : TargetProperty) :
    property.tree.names = namesBound property.lexemes := by
  cases property with
  | shorthand name value => exact congrArg (name :: ·) (namesBound_default value).symm
  | renamed key target value =>
    have hnames : namesBound (TargetProperty.lexemes (.renamed key target value)) =
        namesBound (target.lexemes ++ defaultLexemes value) := rfl
    rw [hnames, namesBound_append, namesBound_default, List.append_nil, ← target.names_tree]
    exact names_withDefault target.tree value

end

end Trees

namespace Destructuring

/-- The names that a pattern binds. -/
def boundNames (pattern : Destructuring) : List Text := namesBound pattern.lexemes

/-- A pattern with gaps behind its first lexeme. -/
def text (pattern : Destructuring) (gaps : List Text) : Text := layOut ([] :: gaps) pattern.lexemes

/-- A declaration of what a pattern binds. -/
def declaration (pattern : Destructuring) (gaps : List Text) : Text :=
  "let ".toList ++ pattern.text gaps ++ " = v;".toList

/-- The tree of a declaration in a script that begins at a position. -/
def item (pattern : Destructuring) (gaps : List Text) (base : Nat) : Tree.Item where
  span := ⟨base, base + Text.bytes (pattern.declaration gaps)⟩
  kind := .statement (.declaration (.variableDeclaration false
    [⟨⟨base + 4, base + 4 + Text.bytes (pattern.text gaps)⟩, pattern.tree⟩]))

/-- The statement that a declaration is. -/
def statement (pattern : Destructuring) (gaps : List Text) : Statement where
  span := ⟨0, Text.bytes (pattern.declaration gaps)⟩
  kind := .variableDeclaration none
    [.pattern ⟨4, 4 + Text.bytes (pattern.text gaps)⟩ pattern.boundNames]

theorem binding_tree (lower : Lowering) (pattern : Destructuring) (span : Span) :
    lower.binding ⟨span, pattern.tree⟩ = .pattern (lower.span span) pattern.boundNames := by
  rw [boundNames, ← pattern.names_tree]
  cases pattern <;> rfl

theorem item_eq (pattern : Destructuring) (gaps : List Text) (content : Text) (base : Nat) :
    Lowering.item ⟨content, base⟩ (pattern.item gaps base) = pattern.statement gaps := by
  have hspan : Lowering.span ⟨content, base⟩ (pattern.item gaps base).span =
      (pattern.statement gaps).span := by
    simp only [Lowering.span, Span.shiftedBack, item, statement, Span.mk.injEq]
    omega
  have hpattern : Lowering.span ⟨content, base⟩
      ⟨base + 4, base + 4 + Text.bytes (pattern.text gaps)⟩ =
        ⟨4, 4 + Text.bytes (pattern.text gaps)⟩ := by
    simp only [Lowering.span, Span.shiftedBack, Span.mk.injEq]
    omega
  rw [Lowering.item, hspan, statement, ← hpattern, ← binding_tree]
  rfl

end Destructuring

end TypedComponent.Script
