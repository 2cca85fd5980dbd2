import SchemaDrift.Reading.Table

/-!
Readers in stages. Where the branches of a reader meet again, what it reads from there on has a
name, so that a proof about the reader goes through that stage once.
-/

namespace SchemaDrift

open Reading

def GeneratedColumn.readBody : Reading GeneratedColumn := do
  expectWord .AS
  let expression ← Reading.expression
  if ← eatWord .STORED then return ⟨expression, .stored⟩
  discard (eatWord .VIRTUAL)
  return ⟨expression, .virtual⟩

theorem GeneratedColumn.read_eq :
    GeneratedColumn.read = eatWord .GENERATED >>= fun given =>
      if given then expectWord .ALWAYS >>= fun _ => readBody else readBody := rfl

def Index.readNamed (kind : IndexKind) : Reading Index := do
  let name ← name?
  let indexType ← IndexType.read?
  let columns ← KeyPart.readList
  let clauses ← IndexClause.readList
  return clauses.foldl Index.apply { name, kind, columns, indexType }

theorem Index.read_eq (kind : IndexKind) :
    Index.read kind = discard advance >>= fun _ =>
      if kind ≠ .plain then
        eatWord .INDEX >>= fun found =>
          if found then readNamed kind else discard (eatWord .KEY) >>= fun _ => readNamed kind
      else readNamed kind := rfl

def Element.readColumn : Reading Element := do
  let read ← Column.read
  return .column read.1 read.2

def Partitioning.readColumnsOrExpression : Reading (Option String × List String) := do
  if ← eatWord .COLUMNS then return (none, ← nameList)
  return (some (← Reading.expression), [])

def Partitioning.readDefinitions (define : List Partition → Partitioning) :
    Reading Partitioning := do
  let partitions ← if ← look (·.sees .leftParen) then Partition.readList else pure []
  skipTo fun kind => kind == .endOfInput || kind == .semicolon
  return define partitions

def TableHeading.readNamed (temporary ifNotExists : Bool) : Reading TableHeading := do
  let (schema, name) ← qualifiedName
  return { temporary, ifNotExists, schema, name }

theorem TableHeading.read_eq :
    TableHeading.read = expectWord .CREATE >>= fun _ => eatWord .TEMPORARY >>= fun temporary =>
      expectWord .TABLE >>= fun _ => eatWord .IF >>= fun ifNotExists =>
        if ifNotExists then
          expectWord .NOT >>= fun _ => expectWord .EXISTS >>= fun _ =>
            readNamed temporary ifNotExists
        else readNamed temporary ifNotExists := rfl

end SchemaDrift
