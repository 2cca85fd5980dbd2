import SchemaDrift.Reading.Group
import SchemaDrift.Table

/-! Reading check constraints. -/

namespace SchemaDrift

open Reading

def Check.read (name : Option String) : Reading Check := do
  expectWord .CHECK
  let expression ← Reading.expression
  if ← look (fun cursor => cursor.seesWord .NOT && cursor.peeksWord 1 .ENFORCED) then
    discard advance
    discard advance
    return { name, expression, enforced := some false }
  if ← eatWord .ENFORCED then return { name, expression, enforced := some true }
  return { name, expression }

end SchemaDrift
