import SchemaDrift.Reading.Group
import SchemaDrift.Table.Partitioning

/-! Reading the partitioning of a table. -/

namespace SchemaDrift

open Reading

def PartitionBound.read : Reading PartitionBound := do
  if ← eatWord .LESS then
    expectWord .THAN
    if ← look (·.seesWord .MAXVALUE) then return .lessThan [(← advance).text]
    return .lessThan (← valueList)
  if ← eatWord .IN then return .among (← valueList)
  fail .partitionBound

inductive PartitionClause where
  | engine (name : String)
  | comment (text : String)
  | dataDirectory (path : String)
  | indexDirectory (path : String)
  | maxRows (count : UInt64)
  | minRows (count : UInt64)
  | tablespace (name : String)
  | skipped
  deriving DecidableEq, Repr

def Partition.apply (partition : Partition) : PartitionClause → Partition
  | .engine name => { partition with engine := some name }
  | .comment text => { partition with comment := some text }
  | .dataDirectory path => { partition with dataDirectory := some path }
  | .indexDirectory path => { partition with indexDirectory := some path }
  | .maxRows count => { partition with maxRows := some count }
  | .minRows count => { partition with minRows := some count }
  | .tablespace name => { partition with tablespace := some name }
  | .skipped => partition

namespace PartitionClause

def readFrom (word : Keyword) : Reading PartitionClause := do
  match word with
  | .STORAGE | .ENGINE =>
      discard (eatWord .ENGINE)
      discard (eat .equals)
      return .engine (← Reading.word)
  | .COMMENT =>
      discard (eat .equals)
      return .comment (← string)
  | .DATA =>
      if ← eatWord .DIRECTORY then
        discard (eat .equals)
        return .dataDirectory (← string)
      return .skipped
  | .INDEX =>
      if ← eatWord .DIRECTORY then
        discard (eat .equals)
        return .indexDirectory (← string)
      return .skipped
  | .MAX_ROWS =>
      discard (eat .equals)
      return .maxRows (← unsignedInteger)
  | .MIN_ROWS =>
      discard (eat .equals)
      return .minRows (← unsignedInteger)
  | .TABLESPACE =>
      discard (eat .equals)
      return .tablespace (← Reading.word)
  | _ => return .skipped

/-- Reads a clause, or skips a token or a group, such as the subpartitions, that starts none. -/
def read : Reading PartitionClause := do
  match (← current).keyword? with
  | some word =>
      discard advance
      readFrom word
  | none =>
      skipAny
      return .skipped

end PartitionClause

namespace Partition

def read : Reading Partition := do
  expectWord .PARTITION
  let name ← Reading.name .partitionName
  let bound ← if ← eatWord .VALUES then some <$> PartitionBound.read else pure none
  let clauses ← many (!·.atElementEnd) PartitionClause.read
  return clauses.foldl Partition.apply { name, bound }

def readList : Reading (List Partition) :=
  listOf read

end Partition

namespace Partitioning

def readMethod : Reading PartitionMethod := do
  if ← eatWord .HASH then return .hash
  if ← eatWord .KEY then return .key
  if ← eatWord .RANGE then return .range
  if ← eatWord .LIST then return .list
  fail .partitionMethod

def readTarget : PartitionMethod → Reading (Option String × List String)
  | .hash => return (some (← Reading.expression), [])
  | .key => do
      if ← eatWord .ALGORITHM then
        discard (eat .equals)
        discard advance
      return (none, ← nameList)
  | .range | .list => do
      if ← eatWord .COLUMNS then return (none, ← nameList)
      return (some (← Reading.expression), [])

def skipSubpartitions : Reading Unit := do
  skipTo fun kind => kind == .endOfInput || kind == .semicolon || kind == .leftParen
  if ← look (·.sees .leftParen) then skipGroup
  if ← eatWord .SUBPARTITIONS then discard advance

/-- Reads a partitioning clause, and skips the rest of the statement. -/
def read : Reading Partitioning := do
  expectWord .PARTITION
  expectWord .BY
  let linear ← eatWord .LINEAR
  let method ← readMethod
  let (expression, columns) ← readTarget method
  let count ← if ← eatWord .PARTITIONS then some <$> unsignedInteger else pure none
  if ← eatWord .SUBPARTITION then skipSubpartitions
  let partitions ← if ← look (·.sees .leftParen) then Partition.readList else pure []
  skipTo fun kind => kind == .endOfInput || kind == .semicolon
  return { method, linear, expression, columns, count, partitions }

end Partitioning

end SchemaDrift
