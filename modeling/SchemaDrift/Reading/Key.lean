import SchemaDrift.Reading.Reference

/-! Reading primary keys and indexes: key parts, and option clauses of which later ones win. -/

namespace SchemaDrift

open Reading

def IndexType.read : Reading IndexType := do
  if ← eatWord .BTREE then return .btree
  if ← eatWord .HASH then return .hash
  fail .indexType

def IndexType.read? : Reading (Option IndexType) := do
  if ← eatWord .USING then some <$> IndexType.read else return none

inductive IndexClause where
  | keyBlockSize (size : UInt64)
  | indexType (type : IndexType)
  | parser (name : String)
  | comment (text : String)
  | visible (value : Bool)
  | engineAttribute (text : String)
  | algorithm (name : String)
  | lock (name : String)
  | skipped
  deriving DecidableEq, Repr

def Index.apply (index : Index) : IndexClause → Index
  | .keyBlockSize size => { index with keyBlockSize := some size }
  | .indexType type => { index with indexType := some type }
  | .parser name => { index with parser := some name }
  | .comment text => { index with comment := some text }
  | .visible value => { index with visible := some value }
  | .engineAttribute text => { index with engineAttribute := some text }
  | .algorithm name => { index with algorithm := some name }
  | .lock name => { index with lock := some name }
  | .skipped => index

/-- A primary key keeps only its type and its comment. -/
def PrimaryKey.apply (key : PrimaryKey) : IndexClause → PrimaryKey
  | .indexType type => { key with indexType := some type }
  | .comment text => { key with comment := some text }
  | _ => key

namespace IndexClause

def readFrom (word : Keyword) : Reading IndexClause := do
  match word with
  | .KEY_BLOCK_SIZE =>
      discard (eat .equals)
      return .keyBlockSize (← unsignedInteger)
  | .USING => return .indexType (← IndexType.read)
  | .WITH =>
      expectWord .PARSER
      return .parser (← name .identifier)
  | .COMMENT => return .comment (← string)
  | .VISIBLE => return .visible true
  | .INVISIBLE => return .visible false
  | .ENGINE_ATTRIBUTE =>
      discard (eat .equals)
      return .engineAttribute (← string)
  | .SECONDARY_ENGINE_ATTRIBUTE =>
      discard (eat .equals)
      discard string
      return .skipped
  | .ALGORITHM =>
      discard (eat .equals)
      return .algorithm (← Reading.word)
  | .LOCK =>
      discard (eat .equals)
      return .lock (← Reading.word)
  | _ => return .skipped

def read : Reading IndexClause := do
  match (← current).keyword? with
  | some word =>
      discard advance
      readFrom word
  | none =>
      skipAny
      return .skipped

def readList : Reading (List IndexClause) :=
  many (!·.atElementEnd) read

end IndexClause

def PrimaryKey.read (name : Option String) : Reading PrimaryKey := do
  expectWord .PRIMARY
  expectWord .KEY
  let indexType ← IndexType.read?
  let columns ← KeyPart.readList
  let clauses ← IndexClause.readList
  return clauses.foldl PrimaryKey.apply { name, columns, indexType }

/-- Reads an index, whose kind is told by the current keyword. -/
def Index.read (kind : IndexKind) : Reading Index := do
  discard advance
  if kind ≠ .plain then
    unless ← eatWord .INDEX do discard (eatWord .KEY)
  let name ← name?
  let indexType ← IndexType.read?
  let columns ← KeyPart.readList
  let clauses ← IndexClause.readList
  return clauses.foldl Index.apply { name, kind, columns, indexType }

end SchemaDrift
