/-! References of columns and foreign keys to other tables. -/

namespace SchemaDrift

inductive ReferentialAction where
  | cascade
  | restrict
  | setNull
  | setDefault
  | noAction
  deriving DecidableEq, Repr

def ReferentialAction.text : ReferentialAction → String
  | .cascade => "CASCADE"
  | .restrict => "RESTRICT"
  | .setNull => "SET NULL"
  | .setDefault => "SET DEFAULT"
  | .noAction => "NO ACTION"

/-- A name that may be qualified by a schema, written with a dot between the two. -/
def qualified (schema : Option String) (name : String) : String :=
  match schema with
  | some schema => schema ++ "." ++ name
  | none => name

structure Reference where
  table : String
  columns : List String
  onDelete : Option ReferentialAction := none
  onUpdate : Option ReferentialAction := none
  deriving DecidableEq, Repr

end SchemaDrift
