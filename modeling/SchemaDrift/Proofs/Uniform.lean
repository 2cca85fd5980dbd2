import SchemaDrift.Proofs.Captured
import SchemaDrift.Proofs.Stages

/-!
Every reader of the grammar stays in step on twins, up to the reader of a whole table: each is put
together from steps that do.
-/

namespace SchemaDrift

open Reading

theorem Reading.Uniform.clause {α β : Type} {reading : Reading α} (start : Uniform reading)
    (make : α → β) : Uniform (do return make (← reading)) :=
  start.bind fun value => .pure (make value)

theorem Reading.Uniform.optional {α β : Type} {condition : Prop} [Decidable condition]
    {first second : Reading α} {next : α → Reading β} (one : Uniform first) (other : Uniform second)
    (later : ∀ value, Uniform (next value)) :
    Uniform (if condition then first >>= next else second >>= next) :=
  .ite (one.bind later) (other.bind later)

theorem Reading.Uniform.valued {α : Type} {reading : Reading α} (later : Uniform reading) :
    Uniform (Functor.discard (eat .equals) >>= fun _ => reading) :=
  (eat_uniform .equals).discard.bind fun _ => later

theorem Reading.Uniform.directory {α : Type} {reading : Reading α} (later : Uniform reading)
    (none : α) : Uniform (do if ← eatWord .DIRECTORY then reading else return none) :=
  (eatWord_uniform .DIRECTORY).bind fun _ => .ite later (.pure none)

theorem Check.read_later (name : Option String) :
    ∃ later, Uniform later ∧ Check.read name = expectWord .CHECK >>= fun _ => later := by
  refine ⟨_, ?_, rfl⟩
  apply expression_uniform.bind
  intro condition
  have not_enforced :=
    (Cursor.seesWord_shared .NOT).map₂ (Cursor.peeksWord_shared 1 .ENFORCED) (· && ·)
  refine (look_uniform not_enforced).bind fun _ => .ite ?_ ?_
  · exact discard_advance_uniform.bind fun _ => discard_advance_uniform.bind fun _ => .pure _
  · exact (eatWord_uniform .ENFORCED).bind fun _ => .ite (.pure _) (.pure _)

theorem Check.read_uniform (name : Option String) : Uniform (Check.read name) := by
  obtain ⟨later, uniform, same⟩ := Check.read_later name
  rw [same]
  exact (expectWord_uniform .CHECK).bind fun _ => uniform

namespace KeyPart

theorem readName_uniform : Uniform readName := by
  rw [readName]
  apply (look_uniform (Cursor.sees_shared .leftParen)).bind
  intro _
  refine .ite ?_ (name_uniform .columnName)
  exact expression_uniform.bind fun _ => .pure _

theorem readLength_uniform : Uniform readLength := by
  rw [readLength]
  refine (eat_uniform .leftParen).bind fun _ => .ite ?_ (.pure none)
  apply unsignedInteger_uniform.bind
  intro length
  exact (discard_expect_uniform .rightParen).bind fun _ => .pure _

theorem readDirection_uniform : Uniform readDirection := by
  rw [readDirection]
  refine (eatWord_uniform .ASC).bind fun _ => .ite (.pure _) ?_
  exact (eatWord_uniform .DESC).bind fun _ => .ite (.pure _) (.pure none)

theorem read_uniform : Uniform read := by
  rw [read]
  apply readName_uniform.bind
  intro name
  apply readLength_uniform.bind
  intro length
  exact readDirection_uniform.bind fun direction => .pure _

theorem readList_uniform : Uniform readList :=
  listOf_uniform read_uniform

end KeyPart

theorem eatWord_or {mark : Token → Token → Prop} {α : Type} (word : Keyword) (value : α)
    {otherFirst otherSecond : Reading α} (other : Parallel mark Eq otherFirst otherSecond) :
    Parallel mark Eq (do if ← eatWord word then return value else otherFirst)
      (do if ← eatWord word then return value else otherSecond) := by
  refine (eatWord_uniform word mark).bind ?_
  rintro found _ rfl
  cases found
  · exact other
  · exact .pure rfl

theorem ReferentialAction.read_uniform : Uniform ReferentialAction.read := by
  intro mark
  rw [ReferentialAction.read]
  refine (advance_parallel mark).bind ?_
  intro first second like
  rw [like.keyword?]
  have unknown : Parallel mark Eq (failAt first .referentialAction : Reading ReferentialAction)
      (failAt second .referentialAction) := failAt_parallel like .referentialAction Eq
  split
  · exact .pure rfl
  · exact .pure rfl
  · exact eatWord_or .NULL _ (eatWord_or .DEFAULT _ unknown)
  · exact eatWord_or .ACTION _ unknown
  · exact unknown

theorem ReferenceClause.starts_shared : Cursor.Shared ReferenceClause.starts := by
  have action (word : Keyword) : Cursor.Shared (·.peeksWord 2 word) :=
    Cursor.peeksWord_shared 2 word
  have actions :=
    (((action .CASCADE).map₂ (action .RESTRICT) (· || ·)).map₂ (action .SET) (· || ·)).map₂
    (action .NO) (· || ·)
  have on_action := (Cursor.seesWord_shared .ON).map₂ actions (· && ·)
  exact (Cursor.seesWord_shared .MATCH).map₂ on_action (· || ·)

theorem ReferenceClause.read_uniform : Uniform ReferenceClause.read := by
  rw [ReferenceClause.read]
  refine (eatWord_uniform .MATCH).bind fun _ => .ite ?_ ?_
  · exact discard_advance_uniform.bind fun _ => .pure _
  apply discard_advance_uniform.bind
  intro _
  refine (eatWord_uniform .DELETE).bind fun _ => .ite ?_ ?_
  · exact ReferentialAction.read_uniform.bind fun _ => .pure _
  · apply (expectWord_uniform .UPDATE).bind
    intro _
    exact ReferentialAction.read_uniform.bind fun _ => .pure _

theorem Reference.read_later :
    ∃ later, Uniform later ∧ Reference.read = expectWord .REFERENCES >>= fun _ => later := by
  refine ⟨_, ?_, rfl⟩
  apply qualifiedName_uniform.bind
  intro _
  apply KeyPart.readList_uniform.bind
  intro columns
  have clauses := many_uniform ReferenceClause.starts_shared ReferenceClause.read_uniform
  exact clauses.bind fun _ => .pure _

theorem Reference.read_uniform : Uniform Reference.read := by
  obtain ⟨later, uniform, same⟩ := Reference.read_later
  rw [same]
  exact (expectWord_uniform .REFERENCES).bind fun _ => uniform

namespace DataType

theorem readName_uniform : Uniform readName := by
  rw [readName]
  refine current_uniform (fun like => by simp only [like.keyword?]) fun token => ?_
  split
  · exact fail_uniform .dataType
  apply discard_advance_uniform.bind
  intro _
  split
  · exact (eatWord_uniform .PRECISION).discard.bind fun _ => .pure _
  · refine (eatWord_uniform .VARCHAR).bind fun _ => .ite (.pure _) ?_
    refine (eatWord_uniform .CHAR).bind fun _ => .ite (.pure _) ?_
    exact (eatWord_uniform .CHARACTER).bind fun _ => .ite (.pure _) (fail_uniform .characterType)
  · exact (eatWord_uniform .VARCHAR).bind fun _ => .ite (.pure _) (.pure _)
  · exact .pure _
  · exact .pure _

theorem readParameter_uniform : Uniform readParameter := by
  rw [readParameter]
  refine current_uniform (fun like => by simp only [like.kind, like.sql]) fun token => ?_
  have taken : Uniform (discard advance >>= fun _ => pure token.sql) :=
    discard_advance_uniform.bind fun _ => .pure _
  split
  · exact taken
  · exact taken
  · exact taken
  · exact taken
  · exact fail_uniform .typeParameter

theorem readParameters_uniform : Uniform readParameters := by
  rw [readParameters]
  refine (eat_uniform .rightParen).bind fun _ => .ite (.pure []) ?_
  apply readParameter_uniform.bind
  intro first
  have another := (Cursor.sees_shared .comma).map₂ (Cursor.peek_shared 1)
    (fun comma kind => comma && kind != .rightParen)
  apply (many_uniform another (discard_advance_uniform.bind fun _ => readParameter_uniform)).bind
  intro others
  apply (eat_uniform .comma).discard.bind
  intro _
  exact (discard_expect_uniform .rightParen).bind fun _ => .pure _

theorem readModifier_uniform (type : DataType) : Uniform (readModifier type) := by
  rw [readModifier]
  refine (eatWord_uniform .UNSIGNED).bind fun _ => .ite (.pure _) ?_
  exact (eatWord_uniform .ZEROFILL).discard.bind fun _ => .pure _

theorem read_uniform : Uniform read := by
  rw [read]
  apply readName_uniform.bind
  intro word
  apply (eat_uniform .leftParen).bind
  intro _
  refine .optional readParameters_uniform (.pure []) fun parameters => ?_
  have modifier :=
    (Cursor.seesWord_shared .UNSIGNED).map₂ (Cursor.seesWord_shared .ZEROFILL) (· || ·)
  exact foldWhile_uniform modifier readModifier_uniform { name := word.word, parameters }

end DataType

theorem GeneratedColumn.readBody_later :
    ∃ later, Uniform later ∧ GeneratedColumn.readBody = expectWord .AS >>= fun _ => later := by
  refine ⟨_, ?_, rfl⟩
  apply expression_uniform.bind
  intro text
  refine (eatWord_uniform .STORED).bind fun _ => .ite (.pure _) ?_
  exact (eatWord_uniform .VIRTUAL).discard.bind fun _ => .pure _

theorem GeneratedColumn.read_uniform : Uniform GeneratedColumn.read := by
  have body : Uniform GeneratedColumn.readBody := by
    obtain ⟨later, uniform, same⟩ := GeneratedColumn.readBody_later
    rw [same]
    exact (expectWord_uniform .AS).bind fun _ => uniform
  rw [GeneratedColumn.read_eq]
  refine (eatWord_uniform .GENERATED).bind fun _ => .ite ?_ body
  exact (expectWord_uniform .ALWAYS).bind fun _ => body

namespace ColumnClause

theorem readFrom_later (word : Keyword) :
    (∃ later, Uniform later ∧ readFrom word = discard advance >>= fun _ => later) ∨
      readFrom word = (do return .generated (← GeneratedColumn.read)) ∨
      readFrom word = (do return .reference (← Reference.read)) ∨
      readFrom word = (do return .check (← Check.read none)) := by
  have next {later : Reading ColumnClause} (uniform : Uniform later) :
      ∃ other, Uniform other ∧
        (discard advance >>= fun _ => later) = discard advance >>= fun _ => other :=
    ⟨later, uniform, rfl⟩
  rw [readFrom.eq_def]
  split
  · exact .inl (next ((eatWord_uniform .NULL).bind fun _ => .ite (.pure _) (.pure _)))
  · exact .inl (next (.pure _))
  · exact .inl (next (DefaultValue.read_uniform.clause _))
  · exact .inl (next (.pure _))
  · exact .inl (next ((eatWord_uniform .KEY).discard.bind fun _ => .pure _))
  · exact .inl (next ((eatWord_uniform .KEY).discard.bind fun _ => .pure _))
  · exact .inl (next ((eatWord_uniform .KEY).discard.bind fun _ => .pure _))
  · exact .inl (next (string_uniform.clause _))
  · exact .inl (next (word_uniform.clause _))
  · exact .inl (next ((expectWord_uniform .SET).bind fun _ => word_uniform.clause _))
  · exact .inl (next (word_uniform.clause _))
  · exact .inr (.inl rfl)
  · exact .inr (.inl rfl)
  · exact .inl (next (.pure _))
  · exact .inl (next (.pure _))
  · refine .inl (next ((eatWord_uniform .UPDATE).bind fun _ => .ite ?_ (.pure _)))
    exact DefaultValue.read_uniform.clause _
  · exact .inl (next (word_uniform.clause _))
  · exact .inl (next (word_uniform.clause _))
  · exact .inr (.inr (.inl rfl))
  · refine .inl (next (name?_uniform.bind fun name => ?_))
    refine (look_uniform (Cursor.seesWord_shared .CHECK)).bind fun _ => .ite ?_ (.pure _)
    exact (Check.read_uniform name).clause _
  · exact .inr (.inr (.inr rfl))
  · exact .inl (next (.pure _))

theorem readFrom_uniform (word : Keyword) : Uniform (readFrom word) := by
  rcases readFrom_later word with ⟨later, uniform, same⟩ | same | same | same
  · rw [same]
    exact discard_advance_uniform.bind fun _ => uniform
  · rw [same]
    exact GeneratedColumn.read_uniform.clause _
  · rw [same]
    exact Reference.read_uniform.clause _
  · rw [same]
    exact (Check.read_uniform none).clause _

theorem read_uniform : Uniform read := by
  rw [read]
  refine current_uniform (fun like => by simp only [like.keyword?]) fun token => ?_
  split
  · exact readFrom_uniform _
  · exact skipAny_uniform.bind fun _ => .pure _

end ColumnClause

theorem Column.read_uniform : Uniform Column.read := by
  rw [Column.read]
  apply (name_uniform .columnName).bind
  intro name
  apply DataType.read_uniform.bind
  intro dataType
  have clauses := many_uniform (Cursor.atElementEnd_shared.comp (!·)) ColumnClause.read_uniform
  exact clauses.bind fun _ => .pure _

theorem IndexType.read_uniform : Uniform IndexType.read := by
  rw [IndexType.read]
  refine (eatWord_uniform .BTREE).bind fun _ => .ite (.pure _) ?_
  exact (eatWord_uniform .HASH).bind fun _ => .ite (.pure _) (fail_uniform .indexType)

theorem IndexType.read?_uniform : Uniform IndexType.read? := by
  rw [IndexType.read?]
  exact (eatWord_uniform .USING).bind fun _ => .ite (IndexType.read_uniform.map some) (.pure none)

namespace IndexClause

theorem readFrom_uniform (word : Keyword) : Uniform (readFrom word) := by
  rw [readFrom.eq_def]
  split
  · exact (unsignedInteger_uniform.clause _).valued
  · exact IndexType.read_uniform.clause _
  · exact (expectWord_uniform .PARSER).bind fun _ => (name_uniform .identifier).clause _
  · exact string_uniform.clause _
  · exact .pure _
  · exact .pure _
  · exact (string_uniform.clause _).valued
  · exact (string_uniform.discard.bind fun _ => .pure _).valued
  · exact (word_uniform.clause _).valued
  · exact (word_uniform.clause _).valued
  · exact .pure _

theorem read_uniform : Uniform read := by
  rw [read]
  refine current_uniform (fun like => by simp only [like.keyword?]) fun token => ?_
  split
  · exact discard_advance_uniform.bind fun _ => readFrom_uniform _
  · exact skipAny_uniform.bind fun _ => .pure _

theorem readList_uniform : Uniform readList :=
  many_uniform (Cursor.atElementEnd_shared.comp (!·)) read_uniform

end IndexClause

theorem PrimaryKey.read_uniform (name : Option String) : Uniform (PrimaryKey.read name) := by
  rw [PrimaryKey.read]
  apply (expectWord_uniform .PRIMARY).bind
  intro _
  apply (expectWord_uniform .KEY).bind
  intro _
  apply IndexType.read?_uniform.bind
  intro indexType
  apply KeyPart.readList_uniform.bind
  intro columns
  exact IndexClause.readList_uniform.bind fun _ => .pure _

theorem Index.read_uniform (kind : IndexKind) : Uniform (Index.read kind) := by
  have named : Uniform (Index.readNamed kind) := by
    rw [Index.readNamed]
    apply name?_uniform.bind
    intro name
    apply IndexType.read?_uniform.bind
    intro indexType
    apply KeyPart.readList_uniform.bind
    intro columns
    exact IndexClause.readList_uniform.bind fun _ => .pure _
  rw [Index.read_eq]
  refine discard_advance_uniform.bind fun _ => .ite ?_ named
  refine (eatWord_uniform .INDEX).bind fun _ => .ite named ?_
  exact (eatWord_uniform .KEY).discard.bind fun _ => named

theorem ForeignKey.read_uniform (constraint : Option String) :
    Uniform (ForeignKey.read constraint) := by
  rw [ForeignKey.read]
  apply (expectWord_uniform .FOREIGN).bind
  intro _
  apply (expectWord_uniform .KEY).bind
  intro _
  apply name?_uniform.bind
  intro name
  apply KeyPart.readList_uniform.bind
  intro columns
  exact Reference.read_uniform.bind fun _ => .pure _

theorem Index.readUnique_uniform (constraint : Option String) :
    Uniform (Index.readUnique constraint) :=
  (Index.read_uniform .unique).bind fun _ => .pure _

namespace Element

theorem readConstraintName_uniform : Uniform readConstraintName := by
  rw [readConstraintName]
  exact (eatWord_uniform .CONSTRAINT).bind fun _ => .ite name?_uniform (.pure none)

theorem readBody_uniform (keyTaken : Bool) (constraint : Option String) :
    Uniform (readBody keyTaken constraint) := by
  rw [readBody]
  refine current_uniform (fun like => by simp only [like.keyword?]) fun token => ?_
  split
  · have key := (PrimaryKey.read_uniform constraint).clause Element.primaryKey
    exact .ite ((fail_uniform .singlePrimaryKey).bind fun _ => key) key
  · exact (Index.readUnique_uniform constraint).clause _
  · exact (Index.read_uniform .plain).clause _
  · exact (Index.read_uniform .plain).clause _
  · exact (Index.read_uniform .fulltext).clause _
  · exact (Index.read_uniform .spatial).clause _
  · exact (ForeignKey.read_uniform constraint).clause _
  · exact (Check.read_uniform constraint).clause _
  · have column : Uniform readColumn := Column.read_uniform.clause _
    exact .ite ((fail_uniform .constraintBody).bind fun _ => column) column

theorem read_uniform (keyTaken : Bool) : Uniform (read keyTaken) :=
  readConstraintName_uniform.bind fun constraint => readBody_uniform keyTaken constraint

theorem readMore_uniform (seen : List Element) : Uniform (readMore seen) :=
  (read_uniform _).bind fun _ => .pure _

theorem readList_uniform : Uniform readList := by
  rw [readList]
  apply (readMore_uniform []).bind
  intro first
  refine (foldWhile_uniform (Cursor.sees_shared .comma) ?_ first).bind fun _ => .pure _
  intro seen
  exact discard_advance_uniform.bind fun _ => readMore_uniform seen

end Element

theorem ValueForm.read_uniform (form : ValueForm) : Uniform form.read := by
  cases form with
  | word => exact word_uniform
  | string => exact string_uniform
  | number => exact unsignedInteger_uniform
  | names => exact nameList_uniform

namespace TableOptionClause

theorem readValue_uniform (word : Keyword) : Uniform (readValue word) := by
  rw [readValue]
  apply Reading.Uniform.valued
  split
  · exact (ValueForm.read_uniform _).clause _
  · exact .pure _

theorem readFrom_uniform (word : Keyword) : Uniform (readFrom word) := by
  rw [readFrom.eq_def]
  split
  · exact .directory (readValue_uniform _) _
  · exact .directory (readValue_uniform _) _
  · exact (expectWord_uniform .SET).bind fun _ => readValue_uniform _
  · exact readValue_uniform _

theorem read_uniform : Uniform read := by
  rw [read]
  refine Reading.advance_uniform (fun like => by simp only [like.keyword?]) fun token => ?_
  split
  · exact .ite (.pure _) (readFrom_uniform _)
  · exact .pure _

end TableOptionClause

theorem TableOptions.atEnd_shared : Cursor.Shared TableOptions.atEnd :=
  Cursor.atStatementEnd_shared.map₂ (Cursor.seesWord_shared .PARTITION) (· || ·)

theorem TableOptions.read?_uniform : Uniform TableOptions.read? := by
  have clauses := many_uniform (TableOptions.atEnd_shared.comp (!·)) TableOptionClause.read_uniform
  exact clauses.bind fun _ => .pure _

theorem PartitionBound.read_uniform : Uniform PartitionBound.read := by
  rw [PartitionBound.read]
  refine (eatWord_uniform .LESS).bind fun _ => .ite ?_ ?_
  · refine (expectWord_uniform .THAN).bind fun _ => ?_
    apply (look_uniform (Cursor.seesWord_shared .MAXVALUE)).bind
    intro _
    refine .ite ?_ (valueList_uniform.clause _)
    exact Reading.advance_uniform (fun like => by simp only [like.text]) fun token => .pure _
  · apply (eatWord_uniform .IN).bind
    intro _
    exact .ite (valueList_uniform.clause _) (fail_uniform .partitionBound)

namespace PartitionClause

theorem readFrom_uniform (word : Keyword) : Uniform (readFrom word) := by
  rw [readFrom.eq_def]
  split
  · exact (eatWord_uniform .ENGINE).discard.bind fun _ => (word_uniform.clause _).valued
  · exact (eatWord_uniform .ENGINE).discard.bind fun _ => (word_uniform.clause _).valued
  · exact (string_uniform.clause _).valued
  · exact .directory (string_uniform.clause _).valued _
  · exact .directory (string_uniform.clause _).valued _
  · exact (unsignedInteger_uniform.clause _).valued
  · exact (unsignedInteger_uniform.clause _).valued
  · exact (word_uniform.clause _).valued
  · exact .pure _

theorem read_uniform : Uniform read := by
  rw [read]
  refine current_uniform (fun like => by simp only [like.keyword?]) fun token => ?_
  split
  · exact discard_advance_uniform.bind fun _ => readFrom_uniform _
  · exact skipAny_uniform.bind fun _ => .pure _

end PartitionClause

theorem Partition.read_uniform : Uniform Partition.read := by
  rw [Partition.read]
  apply (expectWord_uniform .PARTITION).bind
  intro _
  apply (name_uniform .partitionName).bind
  intro name
  apply (eatWord_uniform .VALUES).bind
  intro _
  refine .optional (PartitionBound.read_uniform.map some) (.pure none) fun bound => ?_
  have clauses := many_uniform (Cursor.atElementEnd_shared.comp (!·)) PartitionClause.read_uniform
  exact clauses.bind fun _ => .pure _

theorem Partition.readList_uniform : Uniform Partition.readList :=
  listOf_uniform Partition.read_uniform

namespace Partitioning

theorem readMethod_uniform : Uniform readMethod := by
  rw [readMethod]
  refine (eatWord_uniform .HASH).bind fun _ => .ite (.pure _) ?_
  refine (eatWord_uniform .KEY).bind fun _ => .ite (.pure _) ?_
  refine (eatWord_uniform .RANGE).bind fun _ => .ite (.pure _) ?_
  exact (eatWord_uniform .LIST).bind fun _ => .ite (.pure _) (fail_uniform .partitionMethod)

theorem readTarget_uniform (method : PartitionMethod) : Uniform (readTarget method) := by
  have columns : Uniform (do return ((none : Option String), ← nameList)) :=
    nameList_uniform.clause _
  have expression : Uniform (do return (some (← Reading.expression), ([] : List String))) :=
    expression_uniform.clause _
  have either : Uniform readColumnsOrExpression :=
    (eatWord_uniform .COLUMNS).bind fun _ => .ite columns expression
  cases method with
  | hash => exact expression
  | key =>
      refine (eatWord_uniform .ALGORITHM).bind fun _ => .ite ?_ columns
      exact (discard_advance_uniform.bind fun _ => columns).valued
  | range => exact either
  | list => exact either

theorem skipSubpartitions_uniform : Uniform skipSubpartitions := by
  rw [skipSubpartitions]
  have count : Uniform (do if ← eatWord .SUBPARTITIONS then discard advance) :=
    (eatWord_uniform .SUBPARTITIONS).bind fun _ => .ite discard_advance_uniform (.pure _)
  apply (skipTo_uniform _).bind
  intro _
  refine (look_uniform (Cursor.sees_shared .leftParen)).bind fun _ => .ite ?_ count
  exact skipGroup_uniform.bind fun _ => count

theorem read_uniform : Uniform read := by
  rw [read]
  apply (expectWord_uniform .PARTITION).bind
  intro _
  apply (expectWord_uniform .BY).bind
  intro _
  apply (eatWord_uniform .LINEAR).bind
  intro linear
  apply readMethod_uniform.bind
  intro method
  apply (readTarget_uniform method).bind
  intro target
  apply (eatWord_uniform .PARTITIONS).bind
  intro _
  refine .optional (unsignedInteger_uniform.map some) (.pure none) fun count => ?_
  have definitions : Uniform (readDefinitions fun partitions =>
      { method, linear, expression := target.1, columns := target.2, count, partitions }) := by
    rw [readDefinitions]
    apply (look_uniform (Cursor.sees_shared .leftParen)).bind
    intro _
    refine .optional Partition.readList_uniform (.pure []) fun partitions => ?_
    exact (skipTo_uniform _).bind fun _ => .pure _
  exact (eatWord_uniform .SUBPARTITION).bind fun _ =>
    .ite (skipSubpartitions_uniform.bind fun _ => definitions) definitions

end Partitioning

theorem TableHeading.read_uniform : Uniform TableHeading.read := by
  rw [TableHeading.read_eq]
  have named (temporary ifNotExists : Bool) :
      Uniform (TableHeading.readNamed temporary ifNotExists) :=
    qualifiedName_uniform.bind fun _ => .pure _
  apply (expectWord_uniform .CREATE).bind
  intro _
  apply (eatWord_uniform .TEMPORARY).bind
  intro temporary
  apply (expectWord_uniform .TABLE).bind
  intro _
  refine (eatWord_uniform .IF).bind fun ifNotExists => .ite ?_ (named temporary ifNotExists)
  apply (expectWord_uniform .NOT).bind
  intro _
  exact (expectWord_uniform .EXISTS).bind fun _ => named temporary ifNotExists

theorem Table.read_uniform : Uniform Table.read := by
  rw [Table.read]
  apply TableHeading.read_uniform.bind
  intro heading
  apply (discard_expect_uniform .leftParen).bind
  intro _
  apply Element.readList_uniform.bind
  intro elements
  apply (discard_expect_uniform .rightParen).bind
  intro _
  apply TableOptions.read?_uniform.bind
  intro options
  apply (look_uniform (Cursor.seesWord_shared .PARTITION)).bind
  intro _
  exact .optional (Partitioning.read_uniform.map some) (.pure none) fun partitioning => .pure _

end SchemaDrift
