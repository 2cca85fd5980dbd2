import SchemaDrift.Change.Table

/-! The changes from one list of tables to another, table by table. Where a name occurs more than once in a list, its
first table counts. -/

namespace SchemaDrift

structure TableIndex where
  entries : List (String × Table)

namespace TableIndex

def empty : TableIndex :=
  ⟨[]⟩

def get? (index : TableIndex) (name : String) : Option Table :=
  index.entries.lookup name

def insertNew (index : TableIndex) (table : Table) : TableIndex :=
  if (index.get? table.name).isSome then index else ⟨(table.name, table) :: index.entries⟩

def ofTables (tables : List Table) : TableIndex :=
  tables.foldl insertNew empty

end TableIndex

/-- Tables that are compared one after the other: the names seen so far, and the changes found. -/
structure TableWalk where
  seen : List String
  found : Array TableDiff

namespace TableWalk

def start : TableWalk :=
  ⟨[], #[]⟩

def visit (compare : Table → TableDiff) (walk : TableWalk) (table : Table) : TableWalk :=
  if table.name ∈ walk.seen then walk else ⟨table.name :: walk.seen, walk.found.push (compare table)⟩

def visitAll (compare : Table → TableDiff) (walk : TableWalk) (tables : List Table) : TableWalk :=
  tables.foldl (visit compare) walk

end TableWalk

/-- Changes for each table name: first the old tables in their order, then the tables that are only new. -/
structure SchemaDiff where
  tables : List TableDiff

namespace SchemaDiff

def between (renames : Bool) (old new : List Table) : SchemaDiff :=
  let index := TableIndex.ofTables new
  let kept := TableWalk.start.visitAll
    (fun table => TableDiff.between renames (some table) (index.get? table.name)) old
  let all := kept.visitAll (fun table => TableDiff.between renames none (some table)) new
  ⟨all.found.toList⟩

def changed (diff : SchemaDiff) : List TableDiff :=
  diff.tables.filter (·.hasChanges)

def hasChanges (diff : SchemaDiff) : Bool :=
  !diff.changed.isEmpty

end SchemaDiff

end SchemaDrift
