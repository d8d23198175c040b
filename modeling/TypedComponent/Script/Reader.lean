import TypedComponent.Script.Token

/-!
Reading a script token by token. A state holds the current token and the text
after it; a reader either goes on with a value and a new state or stops at the
state in which it met a token that does not fit. Where the grammar has to try,
it keeps the old state.
-/

namespace TypedComponent.Script

structure State where
  token : Token
  span : Span
  /-- Whether a line ended between the previous token and this one. -/
  afterLineEnd : Bool
  /-- The place after the token. -/
  after : Cursor
  /-- Where the previous token ended. -/
  previousStop : Nat
  /-- Where an expression began that may turn out to be an arrow function. -/
  arrowStart : Option Nat
deriving Repr

namespace State

/-- The state whose current token is the next one after a place. The start of a
script counts as a line end. -/
def readFrom (arrowStart : Option Nat) (atStart : Bool) (place : Cursor) : State :=
  let gap := skipTrivia .outside atStart none place.offset place.rest
  let (token, rest) := Token.read atStart gap.next.rest
  let stop := gap.next.offset + (Text.bytes gap.next.rest - Text.bytes rest)
  ⟨token, ⟨gap.tokenStart, stop⟩, gap.lineEnded, ⟨stop, rest⟩, place.offset, arrowStart⟩

/-- The start of a script. A byte order mark before it has no part in its
offsets. -/
def ofContent (content : Text) : State :=
  let script := (Text.after? ['\uFEFF'] content).getD content
  readFrom none true (skipHashbang (.ofText script))

/-- The state after the current token, which may hide all that follows. -/
def next (state : State) : State :=
  if state.token = .unreadable then state else readFrom state.arrowStart false state.after

/-- The number of tokens that may still come is at most this. -/
def bound (state : State) : Nat := state.after.rest.length + 2

def isMark (state : State) (m : Mark) : Bool := state.token = .mark m

def isWord (state : State) (word : String) : Bool := state.token = .word word.toList

def isAnyMark (state : State) (marks : List Mark) : Bool :=
  match state.token with
  | .mark m => marks.contains m
  | _ => false

/-- The text of the current token if it is a name or keyword. -/
def word? (state : State) : Option Text :=
  match state.token with
  | .word name | .name name => some name
  | _ => none

def isAnyWord (state : State) : Bool := state.word?.isSome

/-- Whether the current token may stand where a name is declared, reserved as
it may be otherwise. -/
def isBindable (state : State) : Bool :=
  match state.token with
  | .word name => !isKeyword name
  | .name _ => true
  | _ => false

/-- Whether the current token can refer to a variable. -/
def isName (state : State) : Bool :=
  match state.token with
  | .word name => !isReserved name
  | .name _ => true
  | _ => false

def isString (state : State) : Bool :=
  match state.token with
  | .string _ => true
  | _ => false

/-- Whether the current token is a number of either kind. -/
def isNumeric (state : State) : Bool := state.token = .number || state.token = .bigInteger

def isTemplate (state : State) : Bool :=
  match state.token with
  | .template .. => true
  | _ => false

/-- Whether the current token is none that the grammar knows. -/
def isInvalid (state : State) : Bool := state.token = .invalid || state.token = .unreadable

/-- Whether the current token stands right after the previous one. -/
def isAdjacent (state : State) : Bool := state.span.start = state.previousStop

/-- Whether another word follows the current token on its line. -/
def wordFollows (state : State) : Bool := state.next.isAnyWord && !state.next.afterLineEnd

/-- Whether an optional chain goes on here. Its sign may have gaps. -/
def isChainSign (state : State) : Bool := state.isMark .question && state.next.isMark .dot

def isFinished (state : State) : Bool := state.token = .finish

/-- Whether a statement may end before the current token: at a semicolon, a
closing brace, the end of the script, or after a line end. -/
def endsStatement (state : State) : Bool :=
  state.isMark .semicolon || state.isMark .closeBrace || state.isFinished || state.afterLineEnd

/-- The strength of an operator that is a mark of its own. -/
def markStrength? : Mark → Option Nat
  | .coalesce | .eitherOr => some 1
  | .bothAnd => some 2
  | .bar => some 3
  | .caret => some 4
  | .ampersand => some 5
  | .equality => some 6
  | .less | .greater => some 7
  | .plus | .minus => some 9
  | .star | .slash | .percent => some 10
  | .power => some 11
  | _ => none

/-- The operator at the current token: its strength, and how many characters
after the token belong to it. -/
def operator? (allowIn : Bool) (state : State) : Option (Nat × Nat) :=
  match state.token with
  | .mark .less =>
    match state.after.rest with
    | '<' :: '=' :: _ => none
    | '<' :: _ => some (8, 1)
    | '=' :: _ => some (7, 1)
    | _ => some (7, 0)
  | .mark .greater =>
    match state.after.rest with
    | '>' :: '>' :: '=' :: _ | '>' :: '=' :: _ => none
    | '>' :: '>' :: _ => some (8, 2)
    | '>' :: _ => some (8, 1)
    | '=' :: _ => some (7, 1)
    | _ => some (7, 0)
  | .mark m => (markStrength? m).map ((·, 0))
  | .word _ =>
    if state.isWord "instanceof" || (allowIn && state.isWord "in") then some (7, 0) else none
  | _ => none

def isOperatorMark (state : State) : Bool :=
  !state.isAnyWord && (state.operator? false).isSome

/-- The assignment sign at the current token: whether it is the plain one, and
how many characters after the token belong to it. -/
def assignment? (state : State) : Option (Bool × Nat) :=
  match state.token with
  | .mark .assign => some (true, 0)
  | .mark .computingAssign | .mark .dividingAssign => some (false, 0)
  | .mark .less =>
    match state.after.rest with
    | '<' :: '=' :: _ => some (false, 2)
    | _ => none
  | .mark .greater =>
    match state.after.rest with
    | '>' :: '>' :: '=' :: _ => some (false, 3)
    | '>' :: '=' :: _ => some (false, 2)
    | _ => none
  | _ => none

/-- The next token after some more characters that belong to the current one. -/
def nextAfter (state : State) (extra : Nat) : State :=
  readFrom state.arrowStart false ⟨state.after.offset + extra, state.after.rest.drop extra⟩

/-- The next token after a part of the text that has just been read, of which
`rest` is left. -/
def resume (state : State) (rest : Text) : State :=
  readFrom state.arrowStart false
    ⟨state.after.offset + (Text.bytes state.after.rest - Text.bytes rest), rest⟩

end State

/-- A reader of part of a script. -/
abbrev Reader := StateT State (Except State)

namespace Reader

/-- Stops at the current token, which does not fit. One that is no token at all
is passed. -/
def fail {α : Type} : Reader α := fun state =>
  .error (if state.isInvalid then state.next else state)

def advance : Reader Unit := modify State.next

/-- Goes on if a condition holds of the current state. -/
def require (condition : State → Bool) : Reader Unit := fun state =>
  if condition state then .ok ((), state) else fail state

/-- Passes the current token if a condition holds of it. -/
def passIf (condition : State → Bool) : Reader Bool := fun state =>
  if condition state then .ok (true, state.next) else .ok (false, state)

def pass (m : Mark) : Reader Bool := passIf (·.isMark m)

def passWord (word : String) : Reader Bool := passIf (·.isWord word)

/-- Passes what there is to pass, but only under a condition. -/
def passWhen (condition : Bool) (passing : Reader Bool) : Reader Bool :=
  if condition then passing else pure false

def passSign : Reader Bool := passIf (·.isAnyMark [.plus, .minus])

/-- Passes the current token, which must meet a condition. -/
def expectThat (condition : State → Bool) : Reader Unit := fun state =>
  if condition state then .ok ((), state.next) else fail state

def expect (m : Mark) : Reader Unit := expectThat (·.isMark m)

def expectWord (word : String) : Reader Unit := expectThat (·.isWord word)

/-- Passes the end of a statement if there is one here. Only a semicolon is a
token to pass. -/
def passEnd : Reader Bool := fun state =>
  if state.isMark .semicolon then .ok (true, state.next) else .ok (state.endsStatement, state)

def expectEnd : Reader Unit := do
  if !(← passEnd) then fail

/-- Goes on with the reader's value if it finds one, and otherwise as if
nothing had been read. -/
def attempt {α : Type} (reader : Reader (Option α)) : Reader (Option α) := fun state =>
  match reader state with
  | .ok (some value, after) => .ok (some value, after)
  | _ => .ok (none, state)

/-- Whether the reader succeeds with a true answer from here; reads nothing. -/
def holdsAhead (reader : Reader Bool) : Reader Bool := fun state =>
  match reader state with
  | .ok (true, _) => .ok (true, state)
  | _ => .ok (false, state)

/-- Goes on from where the reader stopped if it does not fit. -/
def recovering {α : Type} (fallback : α) (reader : Reader α) : Reader α := fun state =>
  match reader state with
  | .ok result => .ok result
  | .error stopped => .ok (fallback, stopped)

/-- Repeats a step until it has an answer, at most as often as given. -/
def repeatWithin {α β : Type} (step : α → Reader (α ⊕ β)) : Nat → α → Reader β
  | 0, _ => fail
  | times + 1, value => do
    match ← step value with
    | .inl next => repeatWithin step times next
    | .inr answer => pure answer

/-- Repeats a step until it has an answer. Every step passes a token. -/
def repeatStep {α β : Type} (step : α → Reader (α ⊕ β)) (value : α) : Reader β :=
  fun state => repeatWithin step state.bound value state

/-- Any word, as the name of a property or of an exported thing. -/
def anyWord : Reader Text := fun state =>
  match state.word? with
  | some name => .ok (name, state.next)
  | none => fail state

/-- A name that a declaration binds. The receiver of a method can be declared
too, to give its type. Where nothing can be awaited, `await` is a name. -/
def boundName (awaitIsName : Bool) : Reader Text := fun state =>
  match state.token with
  | .name name => .ok (name, state.next)
  | .word name =>
    let isRefused := name != "this".toList &&
      (isKeyword name || (name = "await".toList && !awaitIsName))
    if isRefused then fail state else .ok (name, state.next)
  | _ => fail state

/-- A template literal, with a reader for its substitutions. Only with a tag it
may hold escapes that are not well formed. One that does not end takes the rest
of the script with it. -/
def template (hasTag : Bool) (substitution : Reader Unit) : Reader Unit := do
  let .template isWhole wellFormed := (← get).token | fail
  if !wellFormed && !hasTag then fail
  advance
  if isWhole then return
  repeatStep (fun (_ : Unit) => do
    substitution
    require (·.isMark .closeBrace)
    let state ← get
    match skipTemplateText true state.after.rest with
    | none =>
      set { state with token := .invalid, after := state.after.finish }
      fail
    | some ((isWhole, wellFormed), rest) =>
      if !wellFormed && !hasTag then fail
      set (state.resume rest)
      return if isWhole then .inr () else .inl ()) ()

/-- The items of a list up to a closing mark, with commas between them and
perhaps one at the end. -/
def commaList {α : Type} (close : Mark) (item : Reader α) : Reader (List α) :=
  repeatStep (fun (items : List α) => do
    if (← get).isMark close then return .inr items.reverse
    let found ← item
    if !(← get).isMark close then expect .comma
    return .inl (found :: items)) []

end Reader

end TypedComponent.Script
