import TypedComponent.Text.Category

/-!
The name of a component, taken from the path of its file, and the class that
the typed form of the component exports.
-/

namespace TypedComponent.Component

open Text

/-- The parts of a path between slashes. -/
def pathParts : Text → List Text
  | [] => [[]]
  | c :: rest =>
    match pathParts rest with
    | [] => [[c]]
    | first :: others => if c = '/' then [] :: first :: others else (c :: first) :: others

/-- The last part of a path that names something, unless that is the parent
directory. -/
def fileName? (path : Text) : Option Text :=
  match ((pathParts path).filter fun part => part ≠ [] && part ≠ ['.']).getLast? with
  | none => none
  | some name => if name = ['.', '.'] then none else some name

/-- A file's name up to its last dot. A dot at the start does not count. -/
def stem (name : Text) : Text :=
  match (name.reverse.dropWhile (· ≠ '.')).drop 1 with
  | [] => name
  | before => before.reverse

/-- The characters of words put together, each word with its first letter in
upper case if that is an ASCII letter. Dashes and dots end words, and other
characters that no identifier has are left out. -/
def joinWords : (startsWord : Bool) → Text → Text
  | _, [] => []
  | startsWord, c :: rest =>
    if isAlphanumeric c || c = '_' then
      (if startsWord then asciiUpper c else c) :: joinWords false rest
    else joinWords (startsWord || c = '-' || c = '.') rest

/-- The name of a component without a better one. -/
def fallbackName : Text := "Component".toList

/-- The class name in a file's stem, which begins with a letter. -/
def nameOfStem (stem : Text) : Text :=
  match joinWords true (stem.dropWhile fun c => !isAlphabetic c) with
  | [] => fallbackName
  | name => name

/-- The name of the component in a file. -/
def nameOfPath (path : Text) : Text :=
  nameOfStem ((fileName? path).elim fallbackName stem)

/-- The class that gives the component's props and slots their types. -/
def exportedClass (name : Option Text) : Text :=
  let className :=
    match name with
    | none => []
    | some name => "__SvelteComponent_".toList ++ name ++ "_ ".toList
  "\n\nexport default class ".toList ++ className ++
    "\x7b\n    $$prop_def = render().props\n    $$slot_def = render().slots\n\x7d".toList

end TypedComponent.Component
