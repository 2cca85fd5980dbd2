/-! Primary keys and indexes. -/

namespace SchemaDrift

inductive SortDirection where
  | ascending
  | descending
  deriving DecidableEq, Repr

def SortDirection.text : SortDirection → String
  | .ascending => "ASC"
  | .descending => "DESC"

/-- One part of a key: a column or a parenthesised expression, with the length of the prefix that is indexed. -/
structure KeyPart where
  name : String
  length : Option UInt64 := none
  direction : Option SortDirection := none
  deriving DecidableEq, Repr

namespace KeyPart

def text (part : KeyPart) : String :=
  part.name
    ++ (match part.length with | some length => "(" ++ toString length.toNat ++ ")" | none => "")
    ++ (match part.direction with | some direction => " " ++ direction.text | none => "")

def listText (parts : List KeyPart) : String :=
  "(" ++ ", ".intercalate (parts.map text) ++ ")"

def names (parts : List KeyPart) : List String :=
  parts.map (·.name)

end KeyPart

inductive IndexKind where
  | plain
  | unique
  | fulltext
  | spatial
  deriving DecidableEq, Repr

def IndexKind.text : IndexKind → String
  | .plain => "INDEX"
  | .unique => "UNIQUE"
  | .fulltext => "FULLTEXT"
  | .spatial => "SPATIAL"

inductive IndexType where
  | btree
  | hash
  deriving DecidableEq, Repr

def IndexType.text : IndexType → String
  | .btree => "BTREE"
  | .hash => "HASH"

structure Index where
  name : Option String
  kind : IndexKind
  columns : List KeyPart
  keyBlockSize : Option UInt64 := none
  indexType : Option IndexType := none
  comment : Option String := none
  visible : Option Bool := none
  parser : Option String := none
  algorithm : Option String := none
  lock : Option String := none
  engineAttribute : Option String := none
  deriving DecidableEq, Repr

structure PrimaryKey where
  name : Option String
  columns : List KeyPart
  indexType : Option IndexType := none
  comment : Option String := none
  deriving DecidableEq, Repr

end SchemaDrift
