/-! The words of the SQL dialect that are told apart from plain identifiers. A word is recognised in any mixture
of ASCII capitals and small letters; every other word is an identifier. -/

namespace SchemaDrift

inductive Keyword where
  -- statements
  | CREATE | TABLE | TEMPORARY | IF | NOT | EXISTS | LIKE | AS | SELECT | IGNORE | REPLACE | DROP | USE
  | DATABASE
  -- integer types
  | TINYINT | SMALLINT | MEDIUMINT | INT | INTEGER | BIGINT | SERIAL
  -- fixed and floating point
  | DECIMAL | DEC | NUMERIC | FIXED | FLOAT | DOUBLE | PRECISION | REAL
  -- bit and boolean
  | BIT | BOOL | BOOLEAN
  -- temporal types
  | DATE | DATETIME | TIMESTAMP | TIME | YEAR
  -- character and binary types
  | CHAR | VARCHAR | NATIONAL | NCHAR | NVARCHAR | BINARY | VARBINARY | TINYTEXT | TEXT | MEDIUMTEXT
  | LONGTEXT | TINYBLOB | BLOB | MEDIUMBLOB | LONGBLOB | ENUM | SET | JSON
  -- spatial types
  | GEOMETRY | POINT | LINESTRING | POLYGON | MULTIPOINT | MULTILINESTRING | MULTIPOLYGON
  | GEOMETRYCOLLECTION
  -- column attributes
  | NULL | DEFAULT | AUTO_INCREMENT | UNIQUE | PRIMARY | KEY | COMMENT | COLLATE | CHARACTER | CHARSET
  | VISIBLE | INVISIBLE | GENERATED | ALWAYS | VIRTUAL | STORED | UNSIGNED | ZEROFILL | COLUMN_FORMAT
  | DYNAMIC | STORAGE | DISK | MEMORY
  -- indexes and constraints
  | INDEX | FULLTEXT | SPATIAL | FOREIGN | REFERENCES | CHECK | CONSTRAINT | ENFORCED | USING | BTREE | HASH
  -- table options
  | ENGINE | ROW_FORMAT | TABLESPACE | DATA | DIRECTORY | COMPRESSION | ENCRYPTION | KEY_BLOCK_SIZE
  | MAX_ROWS | MIN_ROWS | STATS_PERSISTENT | STATS_AUTO_RECALC | STATS_SAMPLE_PAGES | PACK_KEYS | CHECKSUM
  | DELAY_KEY_WRITE | UNION | INSERT_METHOD
  -- partitioning
  | PARTITION | PARTITIONS | SUBPARTITION | SUBPARTITIONS | BY | RANGE | LIST | COLUMNS | VALUES | LESS
  | THAN | IN | MAXVALUE | LINEAR
  -- referential actions
  | ON | DELETE | UPDATE | CASCADE | RESTRICT | NO | ACTION | MATCH | FULL | PARTIAL | SIMPLE
  -- index options
  | ASC | DESC | WITH | PARSER | ALGORITHM | LOCK | ENGINE_ATTRIBUTE | SECONDARY_ENGINE_ATTRIBUTE | INPLACE
  | NONE | FIRST | LAST
  deriving DecidableEq, Repr

namespace Keyword

def all : List Keyword :=
  [.CREATE, .TABLE, .TEMPORARY, .IF, .NOT, .EXISTS, .LIKE, .AS, .SELECT, .IGNORE, .REPLACE, .DROP, .USE,
   .DATABASE, .TINYINT, .SMALLINT, .MEDIUMINT, .INT, .INTEGER, .BIGINT, .SERIAL, .DECIMAL, .DEC, .NUMERIC,
   .FIXED, .FLOAT, .DOUBLE, .PRECISION, .REAL, .BIT, .BOOL, .BOOLEAN, .DATE, .DATETIME, .TIMESTAMP, .TIME,
   .YEAR, .CHAR, .VARCHAR, .NATIONAL, .NCHAR, .NVARCHAR, .BINARY, .VARBINARY, .TINYTEXT, .TEXT,
   .MEDIUMTEXT, .LONGTEXT, .TINYBLOB, .BLOB, .MEDIUMBLOB, .LONGBLOB, .ENUM, .SET, .JSON, .GEOMETRY, .POINT,
   .LINESTRING, .POLYGON, .MULTIPOINT, .MULTILINESTRING, .MULTIPOLYGON, .GEOMETRYCOLLECTION, .NULL,
   .DEFAULT, .AUTO_INCREMENT, .UNIQUE, .PRIMARY, .KEY, .COMMENT, .COLLATE, .CHARACTER, .CHARSET, .VISIBLE,
   .INVISIBLE, .GENERATED, .ALWAYS, .VIRTUAL, .STORED, .UNSIGNED, .ZEROFILL, .COLUMN_FORMAT, .DYNAMIC,
   .STORAGE, .DISK, .MEMORY, .INDEX, .FULLTEXT, .SPATIAL, .FOREIGN, .REFERENCES, .CHECK, .CONSTRAINT,
   .ENFORCED, .USING, .BTREE, .HASH, .ENGINE, .ROW_FORMAT, .TABLESPACE, .DATA, .DIRECTORY, .COMPRESSION,
   .ENCRYPTION, .KEY_BLOCK_SIZE, .MAX_ROWS, .MIN_ROWS, .STATS_PERSISTENT, .STATS_AUTO_RECALC,
   .STATS_SAMPLE_PAGES, .PACK_KEYS, .CHECKSUM, .DELAY_KEY_WRITE, .UNION, .INSERT_METHOD, .PARTITION,
   .PARTITIONS, .SUBPARTITION, .SUBPARTITIONS, .BY, .RANGE, .LIST, .COLUMNS, .VALUES, .LESS, .THAN, .IN,
   .MAXVALUE, .LINEAR, .ON, .DELETE, .UPDATE, .CASCADE, .RESTRICT, .NO, .ACTION, .MATCH, .FULL, .PARTIAL,
   .SIMPLE, .ASC, .DESC, .WITH, .PARSER, .ALGORITHM, .LOCK, .ENGINE_ATTRIBUTE, .SECONDARY_ENGINE_ATTRIBUTE,
   .INPLACE, .NONE, .FIRST, .LAST]

def word : Keyword → String
  | .CREATE => "CREATE"
  | .TABLE => "TABLE"
  | .TEMPORARY => "TEMPORARY"
  | .IF => "IF"
  | .NOT => "NOT"
  | .EXISTS => "EXISTS"
  | .LIKE => "LIKE"
  | .AS => "AS"
  | .SELECT => "SELECT"
  | .IGNORE => "IGNORE"
  | .REPLACE => "REPLACE"
  | .DROP => "DROP"
  | .USE => "USE"
  | .DATABASE => "DATABASE"
  | .TINYINT => "TINYINT"
  | .SMALLINT => "SMALLINT"
  | .MEDIUMINT => "MEDIUMINT"
  | .INT => "INT"
  | .INTEGER => "INTEGER"
  | .BIGINT => "BIGINT"
  | .SERIAL => "SERIAL"
  | .DECIMAL => "DECIMAL"
  | .DEC => "DEC"
  | .NUMERIC => "NUMERIC"
  | .FIXED => "FIXED"
  | .FLOAT => "FLOAT"
  | .DOUBLE => "DOUBLE"
  | .PRECISION => "PRECISION"
  | .REAL => "REAL"
  | .BIT => "BIT"
  | .BOOL => "BOOL"
  | .BOOLEAN => "BOOLEAN"
  | .DATE => "DATE"
  | .DATETIME => "DATETIME"
  | .TIMESTAMP => "TIMESTAMP"
  | .TIME => "TIME"
  | .YEAR => "YEAR"
  | .CHAR => "CHAR"
  | .VARCHAR => "VARCHAR"
  | .NATIONAL => "NATIONAL"
  | .NCHAR => "NCHAR"
  | .NVARCHAR => "NVARCHAR"
  | .BINARY => "BINARY"
  | .VARBINARY => "VARBINARY"
  | .TINYTEXT => "TINYTEXT"
  | .TEXT => "TEXT"
  | .MEDIUMTEXT => "MEDIUMTEXT"
  | .LONGTEXT => "LONGTEXT"
  | .TINYBLOB => "TINYBLOB"
  | .BLOB => "BLOB"
  | .MEDIUMBLOB => "MEDIUMBLOB"
  | .LONGBLOB => "LONGBLOB"
  | .ENUM => "ENUM"
  | .SET => "SET"
  | .JSON => "JSON"
  | .GEOMETRY => "GEOMETRY"
  | .POINT => "POINT"
  | .LINESTRING => "LINESTRING"
  | .POLYGON => "POLYGON"
  | .MULTIPOINT => "MULTIPOINT"
  | .MULTILINESTRING => "MULTILINESTRING"
  | .MULTIPOLYGON => "MULTIPOLYGON"
  | .GEOMETRYCOLLECTION => "GEOMETRYCOLLECTION"
  | .NULL => "NULL"
  | .DEFAULT => "DEFAULT"
  | .AUTO_INCREMENT => "AUTO_INCREMENT"
  | .UNIQUE => "UNIQUE"
  | .PRIMARY => "PRIMARY"
  | .KEY => "KEY"
  | .COMMENT => "COMMENT"
  | .COLLATE => "COLLATE"
  | .CHARACTER => "CHARACTER"
  | .CHARSET => "CHARSET"
  | .VISIBLE => "VISIBLE"
  | .INVISIBLE => "INVISIBLE"
  | .GENERATED => "GENERATED"
  | .ALWAYS => "ALWAYS"
  | .VIRTUAL => "VIRTUAL"
  | .STORED => "STORED"
  | .UNSIGNED => "UNSIGNED"
  | .ZEROFILL => "ZEROFILL"
  | .COLUMN_FORMAT => "COLUMN_FORMAT"
  | .DYNAMIC => "DYNAMIC"
  | .STORAGE => "STORAGE"
  | .DISK => "DISK"
  | .MEMORY => "MEMORY"
  | .INDEX => "INDEX"
  | .FULLTEXT => "FULLTEXT"
  | .SPATIAL => "SPATIAL"
  | .FOREIGN => "FOREIGN"
  | .REFERENCES => "REFERENCES"
  | .CHECK => "CHECK"
  | .CONSTRAINT => "CONSTRAINT"
  | .ENFORCED => "ENFORCED"
  | .USING => "USING"
  | .BTREE => "BTREE"
  | .HASH => "HASH"
  | .ENGINE => "ENGINE"
  | .ROW_FORMAT => "ROW_FORMAT"
  | .TABLESPACE => "TABLESPACE"
  | .DATA => "DATA"
  | .DIRECTORY => "DIRECTORY"
  | .COMPRESSION => "COMPRESSION"
  | .ENCRYPTION => "ENCRYPTION"
  | .KEY_BLOCK_SIZE => "KEY_BLOCK_SIZE"
  | .MAX_ROWS => "MAX_ROWS"
  | .MIN_ROWS => "MIN_ROWS"
  | .STATS_PERSISTENT => "STATS_PERSISTENT"
  | .STATS_AUTO_RECALC => "STATS_AUTO_RECALC"
  | .STATS_SAMPLE_PAGES => "STATS_SAMPLE_PAGES"
  | .PACK_KEYS => "PACK_KEYS"
  | .CHECKSUM => "CHECKSUM"
  | .DELAY_KEY_WRITE => "DELAY_KEY_WRITE"
  | .UNION => "UNION"
  | .INSERT_METHOD => "INSERT_METHOD"
  | .PARTITION => "PARTITION"
  | .PARTITIONS => "PARTITIONS"
  | .SUBPARTITION => "SUBPARTITION"
  | .SUBPARTITIONS => "SUBPARTITIONS"
  | .BY => "BY"
  | .RANGE => "RANGE"
  | .LIST => "LIST"
  | .COLUMNS => "COLUMNS"
  | .VALUES => "VALUES"
  | .LESS => "LESS"
  | .THAN => "THAN"
  | .IN => "IN"
  | .MAXVALUE => "MAXVALUE"
  | .LINEAR => "LINEAR"
  | .ON => "ON"
  | .DELETE => "DELETE"
  | .UPDATE => "UPDATE"
  | .CASCADE => "CASCADE"
  | .RESTRICT => "RESTRICT"
  | .NO => "NO"
  | .ACTION => "ACTION"
  | .MATCH => "MATCH"
  | .FULL => "FULL"
  | .PARTIAL => "PARTIAL"
  | .SIMPLE => "SIMPLE"
  | .ASC => "ASC"
  | .DESC => "DESC"
  | .WITH => "WITH"
  | .PARSER => "PARSER"
  | .ALGORITHM => "ALGORITHM"
  | .LOCK => "LOCK"
  | .ENGINE_ATTRIBUTE => "ENGINE_ATTRIBUTE"
  | .SECONDARY_ENGINE_ATTRIBUTE => "SECONDARY_ENGINE_ATTRIBUTE"
  | .INPLACE => "INPLACE"
  | .NONE => "NONE"
  | .FIRST => "FIRST"
  | .LAST => "LAST"

def ofWord? (text : String) : Option Keyword :=
  let capitals := text.map Char.toUpper
  all.find? fun keyword => keyword.word == capitals

def isTypeName : Keyword → Bool
  | .TINYINT | .SMALLINT | .MEDIUMINT | .INT | .INTEGER | .BIGINT | .SERIAL | .DECIMAL | .DEC | .NUMERIC
  | .FIXED | .FLOAT | .DOUBLE | .REAL | .BIT | .BOOL | .BOOLEAN | .DATE | .DATETIME | .TIMESTAMP | .TIME
  | .YEAR | .CHAR | .VARCHAR | .NATIONAL | .NCHAR | .NVARCHAR | .BINARY | .VARBINARY | .TINYTEXT | .TEXT
  | .MEDIUMTEXT | .LONGTEXT | .TINYBLOB | .BLOB | .MEDIUMBLOB | .LONGBLOB | .ENUM | .SET | .JSON
  | .GEOMETRY | .POINT | .LINESTRING | .POLYGON | .MULTIPOINT | .MULTILINESTRING | .MULTIPOLYGON
  | .GEOMETRYCOLLECTION => true
  | _ => false

/-- May the keyword stand unquoted for a table, column or index name? -/
def isNonReserved : Keyword → Bool
  | .SERIAL | .FIXED | .NATIONAL | .NCHAR | .NVARCHAR | .BIT | .BOOL | .BOOLEAN | .DATE | .DATETIME
  | .TIMESTAMP | .TIME | .YEAR | .TEXT | .ENUM | .JSON | .GEOMETRY | .POINT | .LINESTRING | .POLYGON
  | .MULTIPOINT | .MULTILINESTRING | .MULTIPOLYGON | .GEOMETRYCOLLECTION | .AUTO_INCREMENT | .COMMENT
  | .CHARSET | .VISIBLE | .INVISIBLE | .ALWAYS | .COLUMN_FORMAT | .DYNAMIC | .STORAGE | .DISK | .MEMORY
  | .ENFORCED | .BTREE | .HASH | .ENGINE | .ROW_FORMAT | .TABLESPACE | .DATA | .DIRECTORY | .COMPRESSION
  | .ENCRYPTION | .KEY_BLOCK_SIZE | .MAX_ROWS | .MIN_ROWS | .STATS_PERSISTENT | .STATS_AUTO_RECALC
  | .STATS_SAMPLE_PAGES | .PACK_KEYS | .CHECKSUM | .DELAY_KEY_WRITE | .INSERT_METHOD | .PARTITIONS
  | .SUBPARTITIONS | .LIST | .COLUMNS | .LESS | .ACTION | .NO | .FULL | .PARTIAL | .SIMPLE | .PARSER
  | .ALGORITHM | .ENGINE_ATTRIBUTE | .SECONDARY_ENGINE_ATTRIBUTE | .INPLACE | .NONE | .FIRST | .LAST
  | .TEMPORARY => true
  | _ => false

theorem mem_all (keyword : Keyword) : keyword ∈ all := by
  cases keyword <;> decide

end Keyword

end SchemaDrift
