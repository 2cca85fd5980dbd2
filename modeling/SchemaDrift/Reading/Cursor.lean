import SchemaDrift.Statement
import SchemaDrift.SyntaxError

/-! Reading the tokens of a statement from left to right. A `Reading` moves a cursor forward and gives a value, or
stops at a syntax error. Behind the last token the cursor stands still at the end of input. -/

namespace SchemaDrift

/-- A place in the tokens of a statement: those still to come, and the end of input behind them. Spans point
into `source`. -/
structure Cursor where
  source : List Char
  ahead : List Token
  close : Token
  deriving DecidableEq, Repr

namespace Cursor

def current (cursor : Cursor) : Token :=
  cursor.ahead.headD cursor.close

def peek (cursor : Cursor) (distance : Nat) : Token :=
  cursor.ahead.getD distance cursor.close

def next (cursor : Cursor) : Cursor :=
  { cursor with ahead := cursor.ahead.tail }

def sees (cursor : Cursor) (kind : TokenKind) : Bool :=
  cursor.current.kind == kind

def seesWord (cursor : Cursor) (word : Keyword) : Bool :=
  cursor.sees (.keyword word)

def peeksWord (cursor : Cursor) (distance : Nat) (word : Keyword) : Bool :=
  (cursor.peek distance).kind == .keyword word

def atElementEnd (cursor : Cursor) : Bool :=
  match cursor.current.kind with
  | .comma | .rightParen | .semicolon | .endOfInput => true
  | _ => false

def atStatementEnd (cursor : Cursor) : Bool :=
  match cursor.current.kind with
  | .semicolon | .endOfInput => true
  | _ => false

def slice (cursor : Cursor) (start stop : Nat) : String :=
  Span.text ⟨start, stop⟩ cursor.source

/-- A cursor over any tokens. A last token that is an end of input closes them; otherwise one is made up behind the
last token, at its position. -/
def ofTokens (source : List Char) (tokens : List Token) : Cursor :=
  match tokens.getLast? with
  | none => ⟨source, [], .endOfInput 0 .start⟩
  | some last =>
      if last.isEnd then ⟨source, tokens.dropLast, last⟩
      else ⟨source, tokens, .endOfInput last.span.stop last.position⟩

def ofText (text : String) : Cursor :=
  ⟨text.toList, (Token.scanText text).filter (!·.isDirective), Token.endOf text⟩

def ofStatement (statement : Statement) : Cursor :=
  ⟨statement.source, statement.tokens, statement.close⟩

end Cursor

abbrev Reading := EStateM SyntaxError Cursor

namespace Reading

variable {α σ : Type}

def outcome (reading : Reading α) (cursor : Cursor) : Except SyntaxError α × Cursor :=
  match reading cursor with
  | .ok value after => (.ok value, after)
  | .error error after => (.error error, after)

def result (reading : Reading α) (cursor : Cursor) : Except SyntaxError α :=
  (reading.outcome cursor).1

def current : Reading Token := fun cursor =>
  .ok cursor.current cursor

def advance : Reading Token := fun cursor =>
  .ok cursor.current cursor.next

def failAt (token : Token) (expected : Expected) : Reading α := fun cursor =>
  .error ⟨expected, token⟩ cursor

def fail (expected : Expected) : Reading α := fun cursor =>
  .error ⟨expected, cursor.current⟩ cursor

def look (view : Cursor → α) : Reading α := fun cursor =>
  .ok (view cursor) cursor

def eat (kind : TokenKind) : Reading Bool := fun cursor =>
  if cursor.sees kind then .ok true cursor.next else .ok false cursor

def eatWord (word : Keyword) : Reading Bool :=
  eat (.keyword word)

def expect (kind : TokenKind) : Reading Token := fun cursor =>
  if cursor.sees kind then .ok cursor.current cursor.next
  else .error ⟨.token kind, cursor.current⟩ cursor

def expectWord (word : Keyword) : Reading Unit :=
  discard (expect (.keyword word))

def textOf (test : Token → Bool) (expected : Expected) : Reading String := fun cursor =>
  if test cursor.current then .ok cursor.current.text cursor.next
  else .error ⟨expected, cursor.current⟩ cursor

/-- Reads a name: an identifier, a quoted identifier or a keyword that is not reserved. -/
def name (expected : Expected) : Reading String :=
  textOf Token.isName expected

def name? : Reading (Option String) := fun cursor =>
  if cursor.current.isName then .ok (some cursor.current.text) cursor.next else .ok none cursor

def qualifiedName : Reading (Option String × String) := do
  let first ← name .tableName
  if ← eat .dot then return (some first, ← name .tableName)
  return (none, first)

def string : Reading String :=
  textOf Token.isString .string

/-- Reads the value of an option: a name, any keyword, a string or a number. -/
def word : Reading String :=
  textOf Token.isWord .optionValue

def unsignedInteger : Reading UInt64 := fun cursor =>
  match cursor.current.unsignedInteger? with
  | some value => .ok value cursor.next
  | none => .error ⟨.unsignedInteger, cursor.current⟩ cursor

/-- Repeats a step while a test holds. A step that reads nothing ends the repetition, so every repetition ends. -/
def foldWhile (more : Cursor → Bool) (step : σ → Reading σ) (state : σ) (cursor : Cursor) :
    EStateM.Result SyntaxError Cursor σ :=
  if more cursor then
    match step state cursor with
    | .ok state after =>
        if _shorter : after.ahead.length < cursor.ahead.length then foldWhile more step state after
        else .ok state after
    | .error error after => .error error after
  else .ok state cursor
termination_by cursor.ahead.length

def many (more : Cursor → Bool) (item : Reading α) : Reading (List α) := do
  let latestFirst ← foldWhile more (fun seen => return (← item) :: seen) []
  return latestFirst.reverse

def separated (item : Reading α) : Reading (List α) := do
  let first ← item
  let others ← many (·.sees .comma) (do discard advance; item)
  return first :: others

def listOf (item : Reading α) : Reading (List α) := do
  discard (expect .leftParen)
  let items ← separated item
  discard (expect .rightParen)
  return items

def nameList : Reading (List String) := do
  discard (expect .leftParen)
  if ← eat .rightParen then return []
  let names ← separated (name .columnName)
  discard (expect .rightParen)
  return names

/-- Skips the tokens up to the first that passes a test, or to the end. -/
def skipTo (test : TokenKind → Bool) : Reading Unit := fun cursor =>
  .ok () { cursor with ahead := cursor.ahead.dropWhile (!test ·.kind) }

end Reading

end SchemaDrift
