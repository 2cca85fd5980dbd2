import SchemaDrift.Table.Reference

/-! Columns and their types. -/

namespace SchemaDrift

/-- A column type. Its parameters stand as they were written: sizes, or the quoted values of a set. -/
structure DataType where
  name : String
  parameters : List String := []
  unsigned : Bool := false
  zerofill : Bool := false
  deriving DecidableEq, Repr

/-- The type as SQL writes it, such as `DECIMAL(10,2) UNSIGNED`. -/
def DataType.text (type : DataType) : String :=
  type.name
    ++ (if type.parameters.isEmpty then "" else "(" ++ ",".intercalate type.parameters ++ ")")
    ++ (if type.unsigned then " UNSIGNED" else "")
    ++ (if type.zerofill then " ZEROFILL" else "")

inductive Nullability where
  | unspecified
  | null
  | notNull
  deriving DecidableEq, Repr

def Nullability.nullable? : Nullability → Option Bool
  | .unspecified => none
  | .null => some true
  | .notNull => some false

inductive GeneratedStorage where
  | virtual
  | stored
  deriving DecidableEq, Repr

def GeneratedStorage.text : GeneratedStorage → String
  | .virtual => "VIRTUAL"
  | .stored => "STORED"

structure GeneratedColumn where
  expression : String
  storage : GeneratedStorage
  deriving DecidableEq, Repr

/-- A column. Defaults and ON UPDATE values stand as they were written; a comment stands without its quotes. -/
structure Column where
  name : String
  dataType : DataType
  nullability : Nullability := .unspecified
  defaultValue : Option String := none
  autoIncrement : Bool := false
  unique : Bool := false
  primaryKey : Bool := false
  comment : Option String := none
  collation : Option String := none
  characterSet : Option String := none
  visible : Option Bool := none
  generated : Option GeneratedColumn := none
  columnFormat : Option String := none
  storage : Option String := none
  onUpdate : Option String := none
  reference : Option Reference := none
  deriving DecidableEq, Repr

end SchemaDrift
