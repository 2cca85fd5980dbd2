/-! Partitioning of a table. -/

namespace SchemaDrift

inductive PartitionMethod where
  | hash
  | key
  | range
  | list
  deriving DecidableEq, Repr

def PartitionMethod.text : PartitionMethod → String
  | .hash => "HASH"
  | .key => "KEY"
  | .range => "RANGE"
  | .list => "LIST"

/-- The values that belong to a partition, as they were written: those below a bound, or those of a list. -/
inductive PartitionBound where
  | lessThan (values : List String)
  | among (values : List String)
  deriving DecidableEq, Repr

structure Partition where
  name : String
  bound : Option PartitionBound := none
  engine : Option String := none
  comment : Option String := none
  dataDirectory : Option String := none
  indexDirectory : Option String := none
  maxRows : Option UInt64 := none
  minRows : Option UInt64 := none
  tablespace : Option String := none
  deriving DecidableEq, Repr

structure Partitioning where
  method : PartitionMethod
  linear : Bool := false
  expression : Option String := none
  columns : List String := []
  count : Option UInt64 := none
  partitions : List Partition := []
  deriving DecidableEq, Repr

end SchemaDrift
