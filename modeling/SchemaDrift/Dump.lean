import SchemaDrift.Reading.Table

/-! Reading all tables that a dump defines. -/

namespace SchemaDrift

/-- What to do about a definition that cannot be read: give up, or leave it out. -/
inductive ErrorPolicy where
  | abort
  | skip
  deriving DecidableEq, Repr

namespace Dump

/-- The result of each table definition of a dump, in order. Other statements are passed over. -/
def results (text : String) : List (Except SyntaxError Table) :=
  ((Statement.ofText text).filter Statement.isCreateTable).map Table.ofStatement

def collect (policy : ErrorPolicy) : List (Except SyntaxError Table) → Except SyntaxError (List Table)
  | [] => .ok []
  | .ok table :: rest => (collect policy rest).map (table :: ·)
  | .error error :: rest =>
      match policy with
      | .abort => .error error
      | .skip => collect policy rest

def tables (policy : ErrorPolicy) (text : String) : Except SyntaxError (List Table) :=
  collect policy (results text)

end Dump

end SchemaDrift
