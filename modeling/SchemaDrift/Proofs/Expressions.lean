import SchemaDrift.Proofs.Drawn
import SchemaDrift.Proofs.Parts

/-!
The expressions of a table. Wherever a table holds an expression — in a check, a generated column, a part of a key,
a default value or its partitioning — that was captured from the statement's text, from the parentheses that stand
at its place there.
-/

namespace SchemaDrift

open Reading

inductive KeyName (text : String) : List Token → String → Prop where
  | name {token : Token} (named : token.isName = true) : KeyName text [token] token.text
  | expression {group : List Token} {expression : String} (captured : Captured text group expression) :
      KeyName text group ("(" ++ expression ++ ")")

/-- A length and a direction may stand behind the name. -/
def KeyPart.CapturedFrom (text : String) (run : List Token) (part : KeyPart) : Prop :=
  KeyPart.read.Reads text run part ∧ ∃ own rest, run = own ++ rest ∧ KeyName text own part.name

/-- Only the names of the parts are kept. -/
def KeyNames (text : String) (group : List Token) (names : List String) : Prop :=
  ∃ parts, Bracketed (KeyPart.CapturedFrom text) group parts ∧ names = KeyPart.names parts

/-- A default value is an expression with its parentheses, a function with its arguments, or what the text has from
one token to another, with no parenthesis among them. -/
inductive DefaultText (text : String) : List Token → String → Prop where
  | expression {group : List Token} {expression : String} (captured : Captured text group expression) :
      DefaultText text group ("(" ++ expression ++ ")")
  | call {word : Token} {group : List Token} {expression : String} (arguments : Captured text group expression) :
      DefaultText text (word :: group) (word.text ++ "(" ++ expression ++ ")")
  | token {token : Token} (flat : Flat [token]) : DefaultText text [token] token.sql
  | run {first : Token} {rest : List Token} (flat : Flat (first :: rest)) :
      DefaultText text (first :: rest)
        (Span.text ⟨first.span.start, (rest.getLastD first).span.stop⟩ text.toList)

/-- What a clause of a column holds is captured from the run of the clause. -/
def ColumnClause.Holds (text : String) (run : List Token) : ColumnClause → Prop
  | .defaultValue value => ∃ words own, run = words ++ own ∧ Spell words [.DEFAULT] ∧ DefaultText text own value
  | .onUpdate value => ∃ words own, run = words ++ own ∧ Spell words [.ON, .UPDATE] ∧ DefaultText text own value
  | .generated value => FirstGroup (fun group _ => Captured text group value.expression) run
  | .check value => FirstGroup (fun group _ => Captured text group value.expression) run
  | .reference value => FirstGroup (fun group _ => KeyNames text group value.columns) run
  | _ => True

def ColumnClause.CapturedFrom (text : String) (run : List Token) (clause : ColumnClause) : Prop :=
  ColumnClause.read.Reads text run clause ∧ clause.Holds text run

/-- A column and its checks are made of a name, a type and clauses, each with its own run. -/
inductive Column.CapturedFrom (text : String) : List Token → Column → List Check → Prop where
  | mk {name : Token} {type : List Token} {runs : List (List Token)} {dataType : DataType}
      {clauses : List ColumnClause} (named : name.isName = true) (typed : DataType.read.Reads text type dataType)
      (each : List.Forall₂ (ColumnClause.CapturedFrom text) runs clauses) :
      CapturedFrom text (name :: (type ++ runs.flatten))
        (clauses.foldl Column.apply { name := name.text, dataType }) (clauses.filterMap ColumnClause.check?)

/-- A column may stand behind the bare word CONSTRAINT. The columns that a foreign key refers to stand in the first
parentheses behind its own. -/
def Element.Holds (text : String) (run : List Token) : Element → Prop
  | .column value checks => ∃ front own, run = front ++ own ∧ front.map Token.kind ∈ [[], [.keyword .CONSTRAINT]] ∧
      Column.CapturedFrom text own value checks
  | .primaryKey value => FirstGroup (fun group _ => Bracketed (KeyPart.CapturedFrom text) group value.columns) run
  | .index value => FirstGroup (fun group _ => Bracketed (KeyPart.CapturedFrom text) group value.columns) run
  | .foreignKey value => FirstGroup (fun group rest => KeyNames text group value.columns ∧
      FirstGroup (fun group _ => KeyNames text group value.reference.columns) rest) run
  | .check value => FirstGroup (fun group _ => Captured text group value.expression) run

def Element.CapturedFrom (text : String) (run : List Token) (element : Element) : Prop :=
  (Element.read false).Reads text run element ∧ element.Holds text run

def Partitioning.CapturedFrom (text : String) (run : List Token) (partitioning : Partitioning) : Prop :=
  Partitioning.read.Reads text run partitioning ∧
    FirstGroup (fun group _ => ∀ expression ∈ partitioning.expression, Captured text group expression) run

/-- A table is put together from the elements between the first parentheses of its statement, each with its own run,
and from what stands behind them. -/
inductive Table.CapturedFrom (text : String) : Table → Prop where
  | mk {heading : TableHeading} {elements : List Element} {settings : Table.Settings} {front group behind : List Token}
      (tokens : Token.visible .start text.toList = front ++ (group ++ behind)) (flat : Flat front)
      (listed : Bracketed (Element.CapturedFrom text) group elements)
      (partitioned : ∀ value ∈ settings.2, ∃ before own after, behind = before ++ (own ++ after) ∧
        Partitioning.CapturedFrom text own value) :
      CapturedFrom text (Table.assemble heading elements settings)

variable {text : String}

theorem Check.read_draws (name : Option String) :
    Draws text (Check.read name) fun run check =>
      FirstGroup (fun group _ => Captured text group check.expression) run := by
  rw [Check.read]
  refine (expectWord_flat .CHECK).past fun _ => expression_draws.followed fun expression => .looking fun _ => .ite ?_ ?_
  · refine discard_advance_uniform.aside fun _ => discard_advance_uniform.aside fun _ => ?_
    exact .pure fun _ captured => captured
  · refine (eatWord_uniform .ENFORCED).aside fun _ => .ite ?_ ?_
    · exact .pure fun _ captured => captured
    · exact .pure fun _ captured => captured

theorem GeneratedColumn.read_draws :
    Draws text GeneratedColumn.read fun run generated =>
      FirstGroup (fun group _ => Captured text group generated.expression) run := by
  have body : Draws text GeneratedColumn.readBody fun run generated =>
      FirstGroup (fun group _ => Captured text group generated.expression) run := by
    rw [GeneratedColumn.readBody]
    refine (expectWord_flat .AS).past fun _ => expression_draws.followed fun expression => ?_
    refine (eatWord_uniform .STORED).aside fun _ => .ite (.pure fun _ captured => captured) ?_
    exact (eatWord_uniform .VIRTUAL).discard.aside fun _ => .pure fun _ captured => captured
  rw [GeneratedColumn.read_eq]
  refine (eatWord_flat .GENERATED).past fun _ => .ite ?_ body
  exact (expectWord_flat .ALWAYS).past fun _ => body

namespace KeyPart

theorem readName_draws : Draws text readName (KeyName text) := by
  rw [readName]
  refine .looking fun _ => .ite ?_ ?_
  · exact expression_draws.clause fun _ _ captured => .expression captured
  · refine (name_draws _).weaken ?_
    rintro _ _ ⟨token, rfl, named, rfl⟩
    exact .name named

theorem readList_draws : Draws text readList (Bracketed (CapturedFrom text)) := by
  have part : Draws text KeyPart.read fun run part => ∃ own rest, run = own ++ rest ∧ KeyName text own part.name := by
    rw [KeyPart.read]
    refine readName_draws.bind fun own name given => ?_
    refine readLength_uniform.draws.bind fun length _ _ => ?_
    exact readDirection_uniform.draws.clause fun direction _ _ => ⟨own, _, rfl, given⟩
  exact part.reads.listOf

end KeyPart

theorem Reference.foldl_apply_columns (reference : Reference) (clauses : List ReferenceClause) :
    (clauses.foldl Reference.apply reference).columns = reference.columns :=
  foldl_untouched (fun _ clause => by cases clause <;> rfl) reference clauses

theorem PrimaryKey.foldl_apply_columns (key : PrimaryKey) (clauses : List IndexClause) :
    (clauses.foldl PrimaryKey.apply key).columns = key.columns :=
  foldl_untouched (fun _ clause => by cases clause <;> rfl) key clauses

theorem Index.foldl_apply_columns (index : Index) (clauses : List IndexClause) :
    (clauses.foldl Index.apply index).columns = index.columns :=
  foldl_untouched (fun _ clause => by cases clause <;> rfl) index clauses

theorem Reference.read_draws :
    Draws text Reference.read fun run reference =>
      FirstGroup (fun group _ => KeyNames text group reference.columns) run := by
  rw [Reference.read]
  refine (expectWord_flat .REFERENCES).past fun _ => qualifiedName_flat.past ?_
  rintro ⟨schema, name⟩
  refine KeyPart.readList_draws.followed fun columns => ?_
  refine (many_uniform ReferenceClause.starts_shared ReferenceClause.read_uniform).draws.clause ?_
  intro _ clauses _ group listed
  rw [foldl_apply_columns]
  exact ⟨columns, listed, rfl⟩

theorem IndexType.read?_flat : Draws text IndexType.read? fun run _ => Flat run := by
  rw [IndexType.read?]
  refine (eatWord_flat .USING).flat_bind fun _ => .ite ?_ .flat_pure
  have type : Draws text IndexType.read fun run _ => Flat run := by
    rw [IndexType.read]
    refine (eatWord_flat .BTREE).flat_bind fun _ => .ite .flat_pure ?_
    exact (eatWord_flat .HASH).flat_bind fun _ => .ite .flat_pure (.fail _)
  exact type.map fun _ _ flat => flat

theorem PrimaryKey.read_draws (name : Option String) :
    Draws text (PrimaryKey.read name) fun run key =>
      FirstGroup (fun group _ => Bracketed (KeyPart.CapturedFrom text) group key.columns) run := by
  rw [PrimaryKey.read]
  refine (expectWord_flat .PRIMARY).past fun _ => (expectWord_flat .KEY).past fun _ => ?_
  refine IndexType.read?_flat.past fun indexType => KeyPart.readList_draws.followed fun columns => ?_
  refine IndexClause.readList_uniform.draws.clause fun _ clauses _ group listed => ?_
  rw [foldl_apply_columns]
  exact listed

theorem Index.read_draws {token : Token} {word : Keyword} (kind : token.kind = .keyword word) (sort : IndexKind) :
    DrawsFrom text token (Index.read sort) fun run index =>
      FirstGroup (fun group _ => Bracketed (KeyPart.CapturedFrom text) group index.columns) run := by
  have named : Draws text (Index.readNamed sort) fun run index =>
      FirstGroup (fun group _ => Bracketed (KeyPart.CapturedFrom text) group index.columns) run := by
    rw [Index.readNamed]
    refine name?_flat.past fun name => IndexType.read?_flat.past fun indexType => ?_
    refine KeyPart.readList_draws.followed fun columns => ?_
    refine IndexClause.readList_uniform.draws.clause fun _ clauses _ group listed => ?_
    rw [foldl_apply_columns]
    exact listed
  rw [Index.read_eq]
  refine .passing (by simp [kind]) (.weaken (.ite ?_ named) fun _ _ first => first.behind (flat_of_keyword kind))
  refine (eatWord_flat .INDEX).past fun _ => .ite named ?_
  exact Draws.past ((eatWord_flat .KEY).map fun _ _ flat => flat) fun _ => named

theorem ForeignKey.read_draws (constraint : Option String) :
    Draws text (ForeignKey.read constraint) fun run key =>
      FirstGroup (fun group rest => KeyNames text group key.columns ∧
        FirstGroup (fun group _ => KeyNames text group key.reference.columns) rest) run := by
  rw [ForeignKey.read]
  refine (expectWord_flat .FOREIGN).past fun _ => (expectWord_flat .KEY).past fun _ => name?_flat.past fun name => ?_
  refine KeyPart.readList_draws.followed fun columns => ?_
  exact Reference.read_draws.clause fun _ reference given group listed => ⟨⟨columns, listed, rfl⟩, given⟩

theorem Token.follow_run (token : Token) (rest : List Token) :
    ∃ run behind, rest = run ++ behind ∧
      (∀ next ∈ run, next.kind = .identifier ∨ next.kind = .number) ∧
      follow token.span.stop rest = ((run.getLastD token).span.stop, behind) := by
  induction rest generalizing token with
  | nil => exact ⟨[], [], rfl, by simp, rfl⟩
  | cons next rest ih =>
      rw [follow]
      split
      next follows =>
        obtain ⟨run, behind, rfl, kinds, stop⟩ := ih next
        refine ⟨next :: run, behind, rfl, List.forall_mem_cons.mpr ⟨follows.1, kinds⟩, ?_⟩
        rw [stop, List.getLastD_cons]
      next => exact ⟨[], next :: rest, rfl, by simp, rfl⟩

namespace DefaultValue

variable {word : Token} (flat : Flat [word])
include flat

theorem numberText_draws :
    Draws text (numberText word) fun run value => DefaultText text (word :: run) value := by
  intro _ cursor within _ value after done
  obtain ⟨run, behind, ahead, kinds, follows⟩ := Token.follow_run word cursor.ahead
  simp only [numberText, follows] at done
  obtain ⟨rfl, rfl⟩ := EStateM.Result.ok.inj done
  refine ⟨within.past ahead, run, ahead, ?_⟩
  rw [Cursor.slice, within.source]
  refine .run (flat.append fun next member => ?_)
  rcases kinds next member with kind | kind <;> simp [Token.IsParenthesis, kind]

theorem wordText_draws (unquoted : word.sql = word.text) :
    Draws text (wordText word) fun run value => DefaultText text (word :: run) value := by
  rw [wordText]
  refine .at_current fun next => ?_
  split
  next attached =>
    have is_string : next.isString = true := by
      simp only [Bool.and_eq_true] at attached
      exact attached.1
    have literal : Flat [next] := by
      refine List.forall_mem_singleton.mpr ?_
      rintro (kind | kind) <;> simp [Token.isString, kind] at is_string
    refine .passing (fun ended => by simp [Token.isString, ended] at is_string) ?_
    intro _ cursor within _ value after done
    obtain ⟨rfl, rfl⟩ := EStateM.Result.ok.inj done
    refine ⟨within, [], rfl, ?_⟩
    have pair : DefaultText text [word, next]
        (Span.text ⟨word.span.start, ([next].getLastD word).span.stop⟩ text.toList) :=
      .run (flat.append literal)
    rwa [← within.source] at pair
  next =>
    refine .ite ?_ ?_
    · exact (expression_draws next).clause fun _ _ captured => .call captured
    · refine Draws.pure ?_ next
      rw [← unquoted]
      exact .token flat

end DefaultValue

theorem DefaultValue.read_draws : Draws text read (DefaultText text) := by
  rw [read]
  refine .at_current fun token => ?_
  split
  next => exact (expression_draws token).clause fun _ _ captured => .expression captured
  next quote kind => exact .passing (by simp [kind]) (.pure (.token (flat_of_kinds rfl (by simp [kind]))))
  next kind => exact .passing (by simp [kind]) (numberText_draws (flat_of_kinds rfl (by simp [kind])))
  next kind =>
    exact .passing (by simp [kind]) (wordText_draws (flat_of_kinds rfl (by simp [kind])) (by simp [Token.sql, kind]))
  next kind => exact .passing (by simp [kind]) (wordText_draws (flat_of_keyword kind) (by simp [Token.sql, kind]))
  next => exact Draws.fail _ token

namespace ColumnClause

theorem readFrom_draws {token : Token} {word : Keyword} (kind : token.kind = .keyword word) :
    DrawsFrom text token (readFrom word) fun run clause => clause.Holds text run := by
  have next {reading : Reading ColumnClause}
      (later : Draws text reading fun run clause => clause.Holds text (token :: run)) :
      DrawsFrom text token (discard advance >>= fun _ => reading) fun run clause => clause.Holds text run :=
    .passing (by simp [kind]) later
  have worded {α : Type} {reading : Reading α} {make : α → ColumnClause} (uniform : Uniform reading)
      (made : ∀ run value, (make value).Holds text run) :
      Draws text (do return make (← reading)) fun run clause => clause.Holds text (token :: run) :=
    uniform.draws.clause fun run value _ => made _ value
  rw [readFrom.eq_def]
  split
  · exact next ((eatWord_uniform .NULL).draws.bind fun _ _ _ => .ite (.pure trivial) (.pure trivial))
  · exact next (.pure trivial)
  · exact next (DefaultValue.read_draws.clause fun own _ given => ⟨[token], own, rfl, congrArg ([·]) kind, given⟩)
  · exact next (.pure trivial)
  · exact next ((eatWord_uniform .KEY).discard.draws.bind fun _ _ _ => .pure trivial)
  · exact next ((eatWord_uniform .KEY).discard.draws.bind fun _ _ _ => .pure trivial)
  · exact next ((eatWord_uniform .KEY).discard.draws.bind fun _ _ _ => .pure trivial)
  · exact next (worded string_uniform fun _ _ => trivial)
  · exact next (worded word_uniform fun _ _ => trivial)
  · exact next ((expectWord_uniform .SET).draws.bind fun _ _ _ => word_uniform.draws.clause fun _ _ _ => trivial)
  · exact next (worded word_uniform fun _ _ => trivial)
  · exact (GeneratedColumn.read_draws token).clause fun _ _ given => given
  · exact (GeneratedColumn.read_draws token).clause fun _ _ given => given
  · exact next (.pure trivial)
  · exact next (.pure trivial)
  · refine next ((eatWord_draws .UPDATE).bind fun words found spelled => ?_)
    cases found with
    | false => exact .pure trivial
    | true => exact DefaultValue.read_draws.clause fun own _ given =>
        ⟨token :: words, own, rfl, List.cons_eq_cons.mpr ⟨kind, spelled⟩, given⟩
  · exact next (worded word_uniform fun _ _ => trivial)
  · exact next (worded word_uniform fun _ _ => trivial)
  · exact (Reference.read_draws token).clause fun _ _ given => given
  · refine next (name?_flat.bind fun front name flat => .looking fun _ => .ite ?_ (.pure trivial))
    refine (Check.read_draws name).clause fun own check first => ?_
    rw [← List.cons_append]
    exact first.behind ((flat_of_keyword kind).append flat)
  · exact (Check.read_draws none token).clause fun _ _ given => given
  · exact next (.pure trivial)

theorem read_draws : Draws text read (CapturedFrom text) := by
  refine Draws.reads ?_
  rw [read]
  refine .at_current fun token => ?_
  split
  next word found => exact readFrom_draws (Token.keyword?_eq_some_iff.mp found)
  next => exact (skipAny_uniform.draws token).bind fun _ _ _ => .pure trivial

end ColumnClause

theorem Column.read_draws : Draws text read fun run value => CapturedFrom text run value.1 value.2 := by
  rw [read]
  refine (name_draws _).bind ?_
  rintro _ _ ⟨token, rfl, named, rfl⟩
  refine DataType.read_uniform.draws.reads.bind fun type dataType typed => ?_
  refine ColumnClause.read_draws.many.clause ?_
  rintro _ clauses ⟨runs, rfl, each⟩
  exact .mk named typed.1 each

namespace Element

theorem readConstraintName_draws :
    Draws text readConstraintName fun run name =>
      Flat run ∧ (name = none → run.map Token.kind ∈ [[], [.keyword .CONSTRAINT]]) := by
  rw [readConstraintName]
  refine (eatWord_draws .CONSTRAINT).bind fun front found spelled => ?_
  cases found with
  | false => exact .pure (by simp [spelled.nil, Flat])
  | true =>
      obtain ⟨word, rfl, kind⟩ := spelled.single
      have flat : Flat [word] := flat_of_keyword kind
      refine name?_draws.weaken ?_
      rintro _ _ (⟨rfl, rfl⟩ | ⟨token, rfl, named, rfl⟩)
      · exact ⟨flat, fun _ => by simp [kind]⟩
      · exact ⟨flat.append (flat_of_isName named), by simp⟩

section

variable {front : List Token} {constraint : Option String} (flat : Flat front)
  (unnamed : constraint = none → front.map Token.kind ∈ [[], [.keyword .CONSTRAINT]])
include flat unnamed

theorem readBody_draws (keyTaken : Bool) :
    Draws text (readBody keyTaken constraint) fun run element => element.Holds text (front ++ run) := by
  have index {token : Token} {word : Keyword} (found : token.keyword? = some word) (sort : IndexKind) :
      DrawsFrom text token (do return Element.index (← Index.read sort))
        fun run element => element.Holds text (front ++ run) :=
    (Index.read_draws (Token.keyword?_eq_some_iff.mp found) sort).clause fun _ _ first => first.behind flat
  rw [readBody]
  refine .at_current fun token => ?_
  split
  next =>
    have key : Draws text (do return Element.primaryKey (← PrimaryKey.read constraint))
        fun run element => element.Holds text (front ++ run) :=
      (PrimaryKey.read_draws constraint).clause fun _ _ first => first.behind flat
    exact .ite (Draws.stopped token) (key token)
  next found =>
    have unique : DrawsFrom text token (Index.readUnique constraint) fun run index =>
        FirstGroup (fun group _ => Bracketed (KeyPart.CapturedFrom text) group index.columns) run :=
      (Index.read_draws (Token.keyword?_eq_some_iff.mp found) .unique).clause fun _ _ first => first
    exact unique.clause fun _ _ first => first.behind flat
  next found => exact index found .plain
  next found => exact index found .plain
  next found => exact index found .fulltext
  next found => exact index found .spatial
  next => exact (ForeignKey.read_draws constraint token).clause fun _ _ first => first.behind flat
  next => exact (Check.read_draws constraint token).clause fun _ _ first => first.behind flat
  next =>
    split
    next => exact Draws.stopped token
    next none =>
      have bare := unnamed (by simpa using none)
      exact (Column.read_draws token).clause fun run value captured => ⟨front, run, rfl, bare, captured⟩

end

theorem read_draws (keyTaken : Bool) : Draws text (read keyTaken) (CapturedFrom text) := by
  have first : Draws text (read false) fun run element => element.Holds text run := by
    rw [read]
    refine readConstraintName_draws.bind fun front constraint told => ?_
    exact readBody_draws told.1 told.2 false
  intro token cursor within front element after done
  exact first.reads token cursor within front element after (read_false done).1

theorem readList_draws : Draws text readList (Row (CapturedFrom text)) := by
  have more (seen : List Element) : Draws text (readMore seen) fun run all =>
      ∃ element, all = element :: seen ∧ element.CapturedFrom text run :=
    (read_draws _).clause fun _ element captured => ⟨element, rfl, captured⟩
  rw [readList]
  refine (more []).bind ?_
  rintro front _ ⟨first, rfl, captured⟩
  refine (Draws.commaWise (.first captured) more).clause ?_
  rintro run _ ⟨others, rfl, row⟩
  simpa using row

end Element

namespace Partitioning

theorem readTarget_draws (method : PartitionMethod) :
    Draws text (readTarget method) fun run target =>
      FirstGroup (fun group _ => ∀ expression ∈ target.1, Captured text group expression) run := by
  have columns : Draws text (do return ((none : Option String), ← nameList)) fun _ target => target.1 = none :=
    nameList_uniform.draws.clause fun _ _ _ => rfl
  have left_out {reading : Reading (Option String × List String)}
      (columns : Draws text reading fun _ target => target.1 = none) : Draws text reading fun run target =>
        FirstGroup (fun group _ => ∀ expression ∈ target.1, Captured text group expression) run :=
    columns.weaken fun _ _ none => .vacuous fun _ => by simp [none]
  have expression : Draws text (do return (some (← Reading.expression), ([] : List String))) fun run target =>
      FirstGroup (fun group _ => ∀ expression ∈ target.1, Captured text group expression) run :=
    expression_draws.clause fun _ _ captured => .whole (by simpa using captured)
  have either : Draws text readColumnsOrExpression fun run target =>
      FirstGroup (fun group _ => ∀ expression ∈ target.1, Captured text group expression) run :=
    (eatWord_flat .COLUMNS).past fun _ => .ite (left_out columns) expression
  cases method with
  | hash => exact expression
  | key =>
      refine left_out ((eatWord_uniform .ALGORITHM).aside fun _ => .ite ?_ columns)
      exact (eat_uniform .equals).discard.aside fun _ => discard_advance_uniform.aside fun _ => columns
  | range => exact either
  | list => exact either

theorem readMethod_flat : Draws text readMethod fun run _ => Flat run := by
  rw [readMethod]
  refine (eatWord_flat .HASH).flat_bind fun _ => .ite .flat_pure ?_
  refine (eatWord_flat .KEY).flat_bind fun _ => .ite .flat_pure ?_
  refine (eatWord_flat .RANGE).flat_bind fun _ => .ite .flat_pure ?_
  exact (eatWord_flat .LIST).flat_bind fun _ => .ite .flat_pure (.fail _)

theorem readDefinitions_draws {define : List Partition → Partitioning} {post : Partitioning → Prop}
    (kept : ∀ partitions, post (define partitions)) :
    Draws text (do
      if ← eatWord .SUBPARTITION then skipSubpartitions
      readDefinitions define) fun _ partitioning => post partitioning := by
  have definitions : Draws text (readDefinitions define) fun _ partitioning => post partitioning := by
    rw [readDefinitions]
    refine .looking fun _ => .ite ?_ ?_
    · exact Partition.readList_uniform.aside fun partitions => (skipTo_uniform _).aside fun _ => .pure (kept partitions)
    · exact (Uniform.pure []).aside fun partitions => (skipTo_uniform _).aside fun _ => .pure (kept partitions)
  refine (eatWord_uniform .SUBPARTITION).aside fun _ => .ite ?_ definitions
  exact skipSubpartitions_uniform.aside fun _ => definitions

theorem read_draws : Draws text read (CapturedFrom text) := by
  refine Draws.reads ?_
  rw [read]
  refine (expectWord_flat .PARTITION).past fun _ => (expectWord_flat .BY).past fun _ => ?_
  refine (eatWord_flat .LINEAR).past fun linear => readMethod_flat.past fun method => ?_
  refine (readTarget_draws method).carried fun target => (eatWord_uniform .PARTITIONS).aside fun _ => .ite ?_ ?_
  · exact (unsignedInteger_uniform.map some).aside fun _ => readDefinitions_draws fun _ _ captured => captured
  · exact (Uniform.pure none).aside fun _ => readDefinitions_draws fun _ _ captured => captured

end Partitioning

theorem Table.readSettings_draws :
    Draws text readSettings fun run settings => ∀ value ∈ settings.2,
      ∃ before own, run = before ++ own ∧ Partitioning.CapturedFrom text own value := by
  rw [readSettings]
  refine TableOptions.read?_uniform.draws.bind fun before options _ => .looking fun _ => .ite ?_ ?_
  · have partitioned : Draws text (some <$> Partitioning.read) fun run found =>
        ∀ value ∈ found, Partitioning.CapturedFrom text run value :=
      Partitioning.read_draws.map fun _ _ captured => by simpa using captured
    exact partitioned.bind fun own found captured =>
      .pure fun value member => ⟨before, own, by simp, captured value member⟩
  · have whole : Draws text (pure (none : Option Partitioning)) fun _ found => found = none := .pure rfl
    exact whole.bind fun _ _ absent => .pure (by simp [absent])

/-- Wherever a table holds an expression, that is what the text of its statement has between the parentheses at that
place; if no comment there goes on to the end of its line or upsets the quotes, it says what the tokens say that
stand there. -/
theorem Table.parse_captured {text : String} {table : Table} (parsed : Table.parse text = .ok table) :
    table.CapturedFrom text := by
  obtain ⟨after, done⟩ := ok_of_result_ok parsed
  have within := Cursor.Over.start text
  obtain ⟨front, opening, inner, heading, elements, closed, settings, ahead, bare, opens, -, list, closes, configured,
    rfl⟩ := Table.read_parts within.ended done
  have flat : Flat front := by
    rintro token member (opens | closes)
    · exact bare token member (.inr (.inl opens))
    · exact bare token member (.inr (.inr (.inl closes)))
  have inside : Cursor.Over text { Cursor.ofText text with ahead := inner } :=
    within.past (show (Cursor.ofText text).ahead = (front ++ [opening]) ++ inner by simp [ahead])
  -- the elements, the parenthesis behind them, and the settings take their runs off one after the other
  obtain ⟨at_close, items, parts, row⟩ := Element.readList_draws _ _ inside rfl elements closed list
  obtain ⟨closing, behind⟩ := at_close.next (by simp [closes])
  obtain ⟨last, rest⟩ := ok_of_result_ok configured
  obtain ⟨-, run, settled, partitioned⟩ := Table.readSettings_draws _ _ behind rfl settings last rest
  have tokens : Token.visible .start text.toList =
      front ++ (opening :: (items ++ [closed.current]) ++ closed.next.ahead) := by
    refine ahead.trans ?_
    rw [show inner = items ++ ([closed.current] ++ closed.next.ahead) from closing ▸ parts]
    simp
  refine .mk tokens flat ⟨_, _, _, rfl, opens, closes, row⟩ fun value member => ?_
  obtain ⟨before, own, rfl, captured⟩ := partitioned value member
  exact ⟨before, own, last.ahead, by simp [settled], captured⟩

theorem Table.parse_captured_tidy :
    ∃ table, Table.parse "CREATE TABLE t (a INT, CHECK (a  >  0 /* low */ AND b = 'x  y'))" =
        .ok table ∧
      table.checks.map Check.expression = ["a > 0 /* low */ AND b = 'x  y'"] ∧
      table.CapturedFrom "CREATE TABLE t (a INT, CHECK (a  >  0 /* low */ AND b = 'x  y'))" := by
  have accepted : (Table.parse
      "CREATE TABLE t (a INT, CHECK (a  >  0 /* low */ AND b = 'x  y'))").toBool = true := by
    decide +kernel
  have checks : ∀ table ∈ (Table.parse
      "CREATE TABLE t (a INT, CHECK (a  >  0 /* low */ AND b = 'x  y'))").toOption,
      table.checks.map Check.expression = ["a > 0 /* low */ AND b = 'x  y'"] := by
    decide +kernel
  obtain ⟨table, parsed⟩ := exists_ok_of_toBool accepted
  exact ⟨table, parsed, checks table (by rw [parsed]; rfl), Table.parse_captured parsed⟩

/-- An apostrophe in a comment turns the quotes behind it inside out, so a string loses a space. -/
theorem Table.comment_upsets_quotes :
    ∃ table check earlier opening inner closing later,
      Table.parse "CREATE TABLE t (a INT, CHECK (a > 0 /* don't */ AND b = 'x  y'))" = .ok table ∧
      check ∈ table.checks ∧
      Capture "CREATE TABLE t (a INT, CHECK (a > 0 /* don't */ AND b = 'x  y'))" check.expression
        earlier opening inner closing later ∧
      (Token.visible .start check.expression.toList).map Token.content ≠
        inner.map Token.content := by
  obtain ⟨text, same⟩ :
      ∃ text, text = "CREATE TABLE t (a INT, CHECK (a > 0 /* don't */ AND b = 'x  y'))" := ⟨_, rfl⟩
  obtain ⟨opening, closing, opens, closes, parts, plain, spaced, different⟩ :
      ∃ opening closing : Token, opening.kind = .leftParen ∧ closing.kind = .rightParen ∧
        Token.visible .start text.toList = (Token.visible .start text.toList).take 8 ++ opening ::
          (((Token.visible .start text.toList).drop 9).take 6 ++ closing ::
            (Token.visible .start text.toList).drop 16) ∧
        (∀ token ∈ ((Token.visible .start text.toList).drop 9).take 6, ¬token.IsParenthesis) ∧
        Text.normalizeSpacing (Span.text ⟨opening.span.stop, closing.span.start⟩ text.toList) =
          "a > 0 /* don't */ AND b = 'x y'" ∧
        (Token.visible .start "a > 0 /* don't */ AND b = 'x y'".toList).map Token.content ≠
          (((Token.visible .start text.toList).drop 9).take 6).map Token.content := by
    subst same
    refine ⟨⟨.leftParen, "(", ⟨29, 30⟩, ⟨29, 1, 30⟩⟩, ⟨.rightParen, ")", ⟨62, 63⟩, ⟨62, 1, 63⟩⟩, ?_⟩
    decide +kernel
  have accepted : (Table.parse text).toBool = true := by
    subst same
    decide +kernel
  have checked : ∀ table ∈ (Table.parse text).toOption,
      table.checks = [{ name := none, expression := "a > 0 /* don't */ AND b = 'x y'" }] := by
    subst same
    decide +kernel
  obtain ⟨table, parsed⟩ := exists_ok_of_toBool accepted
  have checks := checked table (by rw [parsed]; rfl)
  have capture := Capture.of_tokens parts opens closes (.of_plain plain)
  rw [spaced] at capture
  rw [← same]
  refine ⟨table, { name := none, expression := "a > 0 /* don't */ AND b = 'x y'" }, _, _, _, _, _,
    parsed, ?_, capture, different⟩
  rw [checks]
  exact List.mem_singleton_self _

end SchemaDrift
