import SchemaDrift.Change.Basic
import SchemaDrift.Table.Options
import SchemaDrift.Table.Partitioning

/-! Comparing table options and partitionings. -/

namespace SchemaDrift

instance : Compared TableOptions where
  Aspect := TableOption
  aspects := TableOption.all
  mem_aspects := TableOption.mem_all
  Content := fun option => Option option.Value
  contentEq := fun _ => inferInstance
  content := fun option options => options.value option
  Value := fun option => Option option.Value
  value := fun _ content => content

inductive PartitioningAspect where
  | method | linear | expression | columns | count | definitions
  deriving DecidableEq, Repr

namespace PartitioningAspect

def all : List PartitioningAspect :=
  [.method, .linear, .expression, .columns, .count, .definitions]

theorem mem_all (aspect : PartitioningAspect) : aspect ∈ all := by
  cases aspect <;> decide

/-- Of the partitions themselves only their number is compared. -/
@[reducible] def Content : PartitioningAspect → Type
  | .method => PartitionMethod
  | .linear => Bool
  | .expression => Option String
  | .columns => List String
  | .count => Option UInt64
  | .definitions => Nat

def content : (aspect : PartitioningAspect) → Partitioning → aspect.Content
  | .method => Partitioning.method
  | .linear => Partitioning.linear
  | .expression => Partitioning.expression
  | .columns => Partitioning.columns
  | .count => Partitioning.count
  | .definitions => fun partitioning => partitioning.partitions.length

instance (aspect : PartitioningAspect) : DecidableEq aspect.Content := by
  cases aspect <;> infer_instance

end PartitioningAspect

instance : Compared Partitioning where
  Aspect := PartitioningAspect
  aspects := PartitioningAspect.all
  mem_aspects := PartitioningAspect.mem_all
  Content := PartitioningAspect.Content
  contentEq := inferInstance
  content := PartitioningAspect.content
  Value := PartitioningAspect.Content
  value := fun _ content => content

end SchemaDrift
