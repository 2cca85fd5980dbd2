import SchemaDrift.Reading.Cursor
import SchemaDrift.Table.Options

/-! Reading table options, a flat list of clauses of which later ones win. -/

namespace SchemaDrift

open Reading

def ValueForm.read : (form : ValueForm) → Reading form.Value
  | .word => Reading.word
  | .string => Reading.string
  | .number => unsignedInteger
  | .names => nameList

inductive TableOptionClause where
  | set (option : TableOption) (value : option.Value)
  | skipped

def TableOptions.apply (options : TableOptions) : TableOptionClause → TableOptions
  | .set option value => options.set option value
  | .skipped => options

def TableOption.ofKeyword? : Keyword → Option TableOption
  | .ENGINE => some .engine
  | .AUTO_INCREMENT => some .autoIncrement
  | .CHARACTER | .CHARSET => some .characterSet
  | .COLLATE => some .collation
  | .COMMENT => some .comment
  | .ROW_FORMAT => some .rowFormat
  | .KEY_BLOCK_SIZE => some .keyBlockSize
  | .MAX_ROWS => some .maxRows
  | .MIN_ROWS => some .minRows
  | .TABLESPACE => some .tablespace
  | .DATA => some .dataDirectory
  | .INDEX => some .indexDirectory
  | .ENCRYPTION => some .encryption
  | .COMPRESSION => some .compression
  | .STATS_PERSISTENT => some .statsPersistent
  | .STATS_AUTO_RECALC => some .statsAutoRecalc
  | .STATS_SAMPLE_PAGES => some .statsSamplePages
  | .PACK_KEYS => some .packKeys
  | .CHECKSUM => some .checksum
  | .DELAY_KEY_WRITE => some .delayKeyWrite
  | .UNION => some .union
  | .INSERT_METHOD => some .insertMethod
  | _ => none

namespace TableOptionClause

/-- Reads an equals sign, if there is one, and the value of the option that the keyword sets. -/
def readValue (word : Keyword) : Reading TableOptionClause := do
  discard (eat .equals)
  match TableOption.ofKeyword? word with
  | some option => return .set option (← option.form.read)
  | none => return .skipped

/-- Reads the clause whose keyword was just read. DATA and INDEX mean directories, CHARACTER a character set. -/
def readFrom (word : Keyword) : Reading TableOptionClause := do
  match word with
  | .DATA | .INDEX => if ← eatWord .DIRECTORY then readValue word else return .skipped
  | .CHARACTER =>
      expectWord .SET
      readValue word
  | word => readValue word

def read : Reading TableOptionClause := do
  match (← advance).keyword? with
  | some word => if word = .DEFAULT then return .skipped else readFrom word
  | none => return .skipped

end TableOptionClause

/-- Do the options end here: at the partitioning, or at the end of the statement? -/
def TableOptions.atEnd (cursor : Cursor) : Bool :=
  cursor.atStatementEnd || cursor.seesWord .PARTITION

def TableOptions.read? : Reading (Option TableOptions) := do
  let clauses ← many (!TableOptions.atEnd ·) TableOptionClause.read
  let options := clauses.foldl TableOptions.apply TableOptions.empty
  return if options.isEmpty then none else some options

end SchemaDrift
