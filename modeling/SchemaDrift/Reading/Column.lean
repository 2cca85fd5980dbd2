import SchemaDrift.Reading.Check
import SchemaDrift.Reading.Reference

/-! Reading columns: a name, a type, and attribute clauses, of which later ones win. -/

namespace SchemaDrift

open Reading

namespace DataType

/-- Reads the keyword of a type, with the further words that some types have. The spellings of national character
types give plain character types. -/
def readName : Reading Keyword := do
  let token ← current
  match token.keyword?.filter Keyword.isTypeName with
  | none => fail .dataType
  | some word =>
      discard advance
      match word with
      | .DOUBLE =>
          discard (eatWord .PRECISION)
          return .DOUBLE
      | .NATIONAL =>
          if ← eatWord .VARCHAR then return .VARCHAR
          if ← eatWord .CHAR then return .CHAR
          if ← eatWord .CHARACTER then return .CHAR
          fail .characterType
      | .NCHAR => if ← eatWord .VARCHAR then return .VARCHAR else return .CHAR
      | .NVARCHAR => return .VARCHAR
      | word => return word

def readParameter : Reading String := do
  let token ← current
  match token.kind with
  | .string _ | .number | .identifier | .keyword _ =>
      discard advance
      return token.sql
  | _ => fail .typeParameter

/-- Reads the parameters between parentheses. There may be none, and a comma may stand behind the last one. -/
def readParameters : Reading (List String) := do
  if ← eat .rightParen then return []
  let first ← readParameter
  let others ← many (fun cursor => cursor.sees .comma && (cursor.peek 1).kind != .rightParen) do
    discard advance
    readParameter
  discard (eat .comma)
  discard (expect .rightParen)
  return first :: others

def readModifier (type : DataType) : Reading DataType := do
  if ← eatWord .UNSIGNED then return { type with unsigned := true }
  discard (eatWord .ZEROFILL)
  return { type with zerofill := true }

def read : Reading DataType := do
  let word ← readName
  let parameters ← if ← eat .leftParen then readParameters else pure []
  foldWhile (fun cursor => cursor.seesWord .UNSIGNED || cursor.seesWord .ZEROFILL) readModifier
    { name := word.word, parameters }

end DataType

inductive ColumnClause where
  | nullability (value : Nullability)
  | defaultValue (text : String)
  | autoIncrement
  | unique
  | primaryKey
  | comment (text : String)
  | collation (name : String)
  | characterSet (name : String)
  | generated (value : GeneratedColumn)
  | visible (value : Bool)
  | onUpdate (text : String)
  | columnFormat (name : String)
  | storage (name : String)
  | reference (value : Reference)
  | check (value : Check)
  | skipped
  deriving DecidableEq, Repr

def Column.apply (column : Column) : ColumnClause → Column
  | .nullability value => { column with nullability := value }
  | .defaultValue text => { column with defaultValue := some text }
  | .autoIncrement => { column with autoIncrement := true }
  | .unique => { column with unique := true }
  | .primaryKey => { column with primaryKey := true }
  | .comment text => { column with comment := some text }
  | .collation name => { column with collation := some name }
  | .characterSet name => { column with characterSet := some name }
  | .generated value => { column with generated := some value }
  | .visible value => { column with visible := some value }
  | .onUpdate text => { column with onUpdate := some text }
  | .columnFormat name => { column with columnFormat := some name }
  | .storage name => { column with storage := some name }
  | .reference value => { column with reference := some value }
  | .check _ | .skipped => column

def ColumnClause.check? : ColumnClause → Option Check
  | .check value => some value
  | _ => none

/-- Does the token introduce a string literal that stands apart from it: a character set such as `_utf8mb4`, or the
letter of a national, bit or hexadecimal literal? -/
def Token.isIntroducer (token : Token) : Bool :=
  token.kind == .identifier &&
    (token.text.toList.head? == some '_' || ["b", "B", "x", "X", "n", "N"].contains token.text)

/-- Follows the identifiers and numbers that stand directly behind an offset and each other: the offset
behind the last one, and the tokens that remain. -/
def Token.follow (stop : Nat) : List Token → Nat × List Token
  | [] => (stop, [])
  | token :: rest =>
      if (token.kind = .identifier ∨ token.kind = .number) ∧ token.span.start = stop then
        follow token.span.stop rest
      else (stop, token :: rest)

namespace DefaultValue

/-- The text of a number that was just read, with the words that stand directly behind it: hexadecimal and binary
literals and exponents are scanned in parts. -/
def numberText (token : Token) : Reading String := fun cursor =>
  let (stop, ahead) := Token.follow token.span.stop cursor.ahead
  .ok (cursor.slice token.span.start stop) { cursor with ahead }

def wordText (token : Token) : Reading String := do
  let next ← current
  if next.isString && (next.span.start == token.span.stop || token.isIntroducer) then
    discard advance
    look (·.slice token.span.start next.span.stop)
  else if next.kind = .leftParen then return token.text ++ "(" ++ (← expression) ++ ")"
  else return token.text

/-- Reads the value of a DEFAULT or ON UPDATE clause as it was written. -/
def read : Reading String := do
  let token ← current
  match token.kind with
  | .leftParen => return "(" ++ (← expression) ++ ")"
  | .string _ =>
      discard advance
      return token.sql
  | .number =>
      discard advance
      numberText token
  | .identifier | .keyword _ =>
      discard advance
      wordText token
  | _ => fail .defaultValue

end DefaultValue

def GeneratedColumn.read : Reading GeneratedColumn := do
  if ← eatWord .GENERATED then expectWord .ALWAYS
  expectWord .AS
  let expression ← Reading.expression
  if ← eatWord .STORED then return ⟨expression, .stored⟩
  discard (eatWord .VIRTUAL)
  return ⟨expression, .virtual⟩

namespace ColumnClause

/-- Reads the clause that starts with a keyword, the current token. A keyword that starts none is skipped. -/
def readFrom (word : Keyword) : Reading ColumnClause := do
  match word with
  | .NOT =>
      discard advance
      if ← eatWord .NULL then return .nullability .notNull else return .skipped
  | .NULL =>
      discard advance
      return .nullability .null
  | .DEFAULT =>
      discard advance
      return .defaultValue (← DefaultValue.read)
  | .AUTO_INCREMENT =>
      discard advance
      return .autoIncrement
  | .UNIQUE =>
      discard advance
      discard (eatWord .KEY)
      return .unique
  | .PRIMARY | .KEY =>
      discard advance
      discard (eatWord .KEY)
      return .primaryKey
  | .COMMENT =>
      discard advance
      return .comment (← string)
  | .COLLATE =>
      discard advance
      return .collation (← Reading.word)
  | .CHARACTER =>
      discard advance
      expectWord .SET
      return .characterSet (← Reading.word)
  | .CHARSET =>
      discard advance
      return .characterSet (← Reading.word)
  | .GENERATED | .AS => return .generated (← GeneratedColumn.read)
  | .VISIBLE =>
      discard advance
      return .visible true
  | .INVISIBLE =>
      discard advance
      return .visible false
  | .ON =>
      discard advance
      if ← eatWord .UPDATE then return .onUpdate (← DefaultValue.read) else return .skipped
  | .COLUMN_FORMAT =>
      discard advance
      return .columnFormat ((← Reading.word).map Char.toUpper)
  | .STORAGE =>
      discard advance
      return .storage ((← Reading.word).map Char.toUpper)
  | .REFERENCES => return .reference (← Reference.read)
  | .CONSTRAINT =>
      discard advance
      let name ← name?
      if ← look (·.seesWord .CHECK) then return .check (← Check.read name) else return .skipped
  | .CHECK => return .check (← Check.read none)
  | _ =>
      discard advance
      return .skipped

def read : Reading ColumnClause := do
  match (← current).keyword? with
  | some word => readFrom word
  | none =>
      skipAny
      return .skipped

end ColumnClause

def Column.read : Reading (Column × List Check) := do
  let name ← Reading.name .columnName
  let dataType ← DataType.read
  let clauses ← many (!·.atElementEnd) ColumnClause.read
  return (clauses.foldl Column.apply { name, dataType }, clauses.filterMap ColumnClause.check?)

end SchemaDrift
