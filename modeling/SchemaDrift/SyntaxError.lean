import SchemaDrift.Token

/-! What can be wrong with the definition of a table: at some token something else was expected. -/

namespace SchemaDrift

inductive Expected where
  | token (kind : TokenKind)
  | tableName
  | columnName
  | partitionName
  | identifier
  | dataType
  | characterType
  | typeParameter
  | defaultValue
  | string
  | unsignedInteger
  | optionValue
  | indexType
  | referentialAction
  | singlePrimaryKey
  | constraintBody
  | partitionMethod
  | partitionBound
  deriving DecidableEq, Repr

def Expected.text : Expected → String
  | .token (.keyword word) => word.word
  | .token kind => kind.text
  | .tableName => "table name"
  | .columnName => "column name"
  | .partitionName => "partition name"
  | .identifier => "identifier"
  | .dataType => "data type"
  | .characterType => "CHAR or VARCHAR"
  | .typeParameter => "type parameter"
  | .defaultValue => "default value"
  | .string => "string"
  | .unsignedInteger => "unsigned integer"
  | .optionValue => "option value"
  | .indexType => "BTREE or HASH"
  | .referentialAction => "referential action"
  | .singlePrimaryKey => "a single PRIMARY KEY"
  | .constraintBody => "PRIMARY KEY, UNIQUE, FOREIGN KEY or CHECK"
  | .partitionMethod => "HASH, KEY, RANGE or LIST"
  | .partitionBound => "LESS THAN or IN"

structure SyntaxError where
  expected : Expected
  found : Token
  deriving DecidableEq, Repr

def SyntaxError.message (error : SyntaxError) : String :=
  "expected " ++ error.expected.text ++ ", found " ++ error.found.kind.text ++ " '" ++ error.found.text
    ++ "' at line " ++ toString error.found.position.line
    ++ ", column " ++ toString error.found.position.column

end SchemaDrift
