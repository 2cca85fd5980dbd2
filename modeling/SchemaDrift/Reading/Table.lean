import SchemaDrift.Reading.Column
import SchemaDrift.Reading.Key
import SchemaDrift.Reading.Options
import SchemaDrift.Reading.Partitioning

/-! Reading the definition of a table. -/

namespace SchemaDrift

open Reading

inductive Element where
  | column (value : Column) (checks : List Check)
  | primaryKey (value : PrimaryKey)
  | index (value : Index)
  | foreignKey (value : ForeignKey)
  | check (value : Check)
  deriving DecidableEq, Repr

namespace Element

def column? : Element → Option Column
  | .column value _ => some value
  | _ => none

def primaryKey? : Element → Option PrimaryKey
  | .primaryKey value => some value
  | _ => none

def index? : Element → Option Index
  | .index value => some value
  | _ => none

def foreignKey? : Element → Option ForeignKey
  | .foreignKey value => some value
  | _ => none

def checks : Element → List Check
  | .column _ checks => checks
  | .check value => [value]
  | _ => []

end Element

/-- Reads a foreign key; the name in front of it goes before a name of its own. -/
def ForeignKey.read (constraint : Option String) : Reading ForeignKey := do
  expectWord .FOREIGN
  expectWord .KEY
  let name ← name?
  let columns ← KeyPart.readList
  let reference ← Reference.read
  return { name := constraint.or name, columns := KeyPart.names columns, reference }

/-- Reads a unique index; the name in front of it serves where it has no name of its own. -/
def Index.readUnique (constraint : Option String) : Reading Index := do
  let index ← Index.read .unique
  return { index with name := index.name.or constraint }

namespace Element

def readConstraintName : Reading (Option String) := do
  if ← eatWord .CONSTRAINT then name? else return none

/-- Reads the element behind a constraint's name. Its first keyword tells what it is; a column takes no such name,
and a table has one primary key at most. -/
def readBody (keyTaken : Bool) (constraint : Option String) : Reading Element := do
  match (← current).keyword? with
  | some .PRIMARY =>
      if keyTaken then fail .singlePrimaryKey
      return .primaryKey (← PrimaryKey.read constraint)
  | some .UNIQUE => return .index (← Index.readUnique constraint)
  | some .INDEX | some .KEY => return .index (← Index.read .plain)
  | some .FULLTEXT => return .index (← Index.read .fulltext)
  | some .SPATIAL => return .index (← Index.read .spatial)
  | some .FOREIGN => return .foreignKey (← ForeignKey.read constraint)
  | some .CHECK => return .check (← Check.read constraint)
  | _ =>
      if constraint.isSome then fail .constraintBody
      let (value, declared) ← Column.read
      return .column value declared

def read (keyTaken : Bool) : Reading Element := do
  let constraint ← readConstraintName
  readBody keyTaken constraint

def readMore (seen : List Element) : Reading (List Element) := do
  let element ← read (seen.any (·.primaryKey?.isSome))
  return element :: seen

def readList : Reading (List Element) := do
  let first ← readMore []
  let latestFirst ← foldWhile (·.sees .comma) (fun seen => do discard advance; readMore seen) first
  return latestFirst.reverse

end Element

structure TableHeading where
  temporary : Bool
  ifNotExists : Bool
  schema : Option String
  name : String
  deriving DecidableEq, Repr

def TableHeading.read : Reading TableHeading := do
  expectWord .CREATE
  let temporary ← eatWord .TEMPORARY
  expectWord .TABLE
  let ifNotExists ← eatWord .IF
  if ifNotExists then
    expectWord .NOT
    expectWord .EXISTS
  let (schema, name) ← qualifiedName
  return { temporary, ifNotExists, schema, name }

namespace Table

def ofElements (heading : TableHeading) (elements : List Element) : Table where
  schema := heading.schema
  name := heading.name
  temporary := heading.temporary
  ifNotExists := heading.ifNotExists
  columns := elements.filterMap Element.column?
  primaryKey := elements.findSome? Element.primaryKey?
  indexes := elements.filterMap Element.index?
  foreignKeys := elements.filterMap Element.foreignKey?
  checks := elements.flatMap Element.checks

def read : Reading Table := do
  let heading ← TableHeading.read
  discard (expect .leftParen)
  let elements ← Element.readList
  discard (expect .rightParen)
  let options ← TableOptions.read?
  let partitioning ← if ← look (·.seesWord .PARTITION) then some <$> Partitioning.read else pure none
  return { ofElements heading elements with options, partitioning }

def parse (text : String) : Except SyntaxError Table :=
  Table.read.result (.ofText text)

def ofStatement (statement : Statement) : Except SyntaxError Table :=
  Table.read.result (.ofStatement statement)

/-- Reads tables one after the other, each from where the one before it stopped. -/
def readTimes : Nat → Cursor → List (Except SyntaxError Table)
  | 0, _ => []
  | times + 1, cursor =>
      let (result, after) := Table.read.outcome cursor
      result :: readTimes times after

end Table

end SchemaDrift
