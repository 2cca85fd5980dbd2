import SchemaDrift.Reading.Group
import SchemaDrift.Table.Key
import SchemaDrift.Table.Reference

/-! Reading key parts and references to other tables. -/

namespace SchemaDrift

open Reading

namespace KeyPart

def readName : Reading String := do
  if ← look (·.sees .leftParen) then return "(" ++ (← expression) ++ ")" else Reading.name .columnName

def readLength : Reading (Option UInt64) := do
  if ← eat .leftParen then
    let length ← unsignedInteger
    discard (expect .rightParen)
    return some length
  return none

def readDirection : Reading (Option SortDirection) := do
  if ← eatWord .ASC then return some .ascending
  if ← eatWord .DESC then return some .descending
  return none

def read : Reading KeyPart := do
  let name ← readName
  let length ← readLength
  let direction ← readDirection
  return { name, length, direction }

def readList : Reading (List KeyPart) :=
  listOf read

end KeyPart

inductive ReferenceClause where
  | matching
  | onDelete (action : ReferentialAction)
  | onUpdate (action : ReferentialAction)
  deriving DecidableEq, Repr

def Reference.apply (reference : Reference) : ReferenceClause → Reference
  | .matching => reference
  | .onDelete action => { reference with onDelete := some action }
  | .onUpdate action => { reference with onUpdate := some action }

def ReferentialAction.read : Reading ReferentialAction := do
  let token ← advance
  match token.keyword? with
  | some .CASCADE => return .cascade
  | some .RESTRICT => return .restrict
  | some .SET =>
      if ← eatWord .NULL then return .setNull
      if ← eatWord .DEFAULT then return .setDefault
      failAt token .referentialAction
  | some .NO =>
      if ← eatWord .ACTION then return .noAction
      failAt token .referentialAction
  | _ => failAt token .referentialAction

/-- A clause starts with MATCH, or with ON if an action stands two places on: otherwise ON starts something else,
such as the ON UPDATE value of a column. -/
def ReferenceClause.starts (cursor : Cursor) : Bool :=
  cursor.seesWord .MATCH ||
    cursor.seesWord .ON &&
      (cursor.peeksWord 2 .CASCADE || cursor.peeksWord 2 .RESTRICT || cursor.peeksWord 2 .SET
        || cursor.peeksWord 2 .NO)

def ReferenceClause.read : Reading ReferenceClause := do
  if ← eatWord .MATCH then
    discard advance
    return .matching
  discard advance
  if ← eatWord .DELETE then return .onDelete (← ReferentialAction.read)
  expectWord .UPDATE
  return .onUpdate (← ReferentialAction.read)

def Reference.read : Reading Reference := do
  expectWord .REFERENCES
  let (schema, name) ← qualifiedName
  let columns ← KeyPart.readList
  let clauses ← many ReferenceClause.starts ReferenceClause.read
  return clauses.foldl Reference.apply { table := qualified schema name, columns := KeyPart.names columns }

end SchemaDrift
