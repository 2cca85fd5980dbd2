import SchemaDrift.Proofs.ClauseForms
import SchemaDrift.Proofs.OptionClauses
import SchemaDrift.Proofs.ValueList
import SchemaDrift.Reading.Partitioning

/-!
Partitions in a list, one for one. A partition is its name, a bound if it has one, and clauses in any
order, bodies with subpartitions among them; each option has the value of its last clause. There is
one clause that is not read as it is written: ENGINE, without an equals sign, in front of a name that
is the same keyword.
-/

namespace SchemaDrift

open Reading

/-- The bound of a partition behind VALUES. The keyword for no bound is kept as it is written. -/
inductive PartitionBound.Written (source : List Char) : List Token → PartitionBound → Prop where
  | unbounded {front : List Token} {last : Token} (spelled : Spell front [.LESS, .THAN])
      (ends : last.kind = .keyword .MAXVALUE) :
      Written source (front ++ [last]) (.lessThan [last.text])
  | lessThan {front group : List Token} {values : List String} (spelled : Spell front [.LESS, .THAN])
      (listed : ValueGroup source group values) : Written source (front ++ group) (.lessThan values)
  | among {front group : List Token} {values : List String} (spelled : Spell front [.IN])
      (listed : ValueGroup source group values) : Written source (front ++ group) (.among values)

inductive PartitionBound.Optional (source : List Char) :
    List Token → Option PartitionBound → Prop where
  | absent : Optional source [] none
  | given {first : Token} {tokens : List Token} {bound : PartitionBound}
      (starts : first.kind = .keyword .VALUES) (written : bound.Written source tokens) :
      Optional source (first :: tokens) (some bound)

inductive PartitionOption where
  | engine | comment | dataDirectory | indexDirectory | maxRows | minRows | tablespace
  deriving DecidableEq, Repr

namespace PartitionOption

def form : PartitionOption → ValueForm
  | .engine | .tablespace => .word
  | .comment | .dataDirectory | .indexDirectory => .string
  | .maxRows | .minRows => .number

def spellings : PartitionOption → List (List Keyword)
  | .engine => [[.ENGINE], [.STORAGE, .ENGINE]]
  | .comment => [[.COMMENT]]
  | .dataDirectory => [[.DATA, .DIRECTORY]]
  | .indexDirectory => [[.INDEX, .DIRECTORY]]
  | .maxRows => [[.MAX_ROWS]]
  | .minRows => [[.MIN_ROWS]]
  | .tablespace => [[.TABLESPACE]]

def clause : (option : PartitionOption) → option.form.Value → PartitionClause
  | .engine => .engine
  | .comment => .comment
  | .dataDirectory => .dataDirectory
  | .indexDirectory => .indexDirectory
  | .maxRows => .maxRows
  | .minRows => .minRows
  | .tablespace => .tablespace

end PartitionOption

def Partition.value (partition : Partition) :
    (option : PartitionOption) → Option option.form.Value
  | .engine => partition.engine
  | .comment => partition.comment
  | .dataDirectory => partition.dataDirectory
  | .indexDirectory => partition.indexDirectory
  | .maxRows => partition.maxRows
  | .minRows => partition.minRows
  | .tablespace => partition.tablespace

def PartitionClause.value? :
    (option : PartitionOption) → PartitionClause → Option option.form.Value
  | .engine, .engine name => some name
  | .comment, .comment text => some text
  | .dataDirectory, .dataDirectory path => some path
  | .indexDirectory, .indexDirectory path => some path
  | .maxRows, .maxRows count => some count
  | .minRows, .minRows count => some count
  | .tablespace, .tablespace name => some name
  | _, _ => none

/-- The tokens that write a clause: the words of an option, an equals sign or none, and a value; or
a body of subpartitions, which is passed over. -/
inductive PartitionClause.Written : List Token → PartitionClause → Prop where
  | set {option : PartitionOption} {word : Keyword} {words : List Keyword} {first : Token}
      {others sign tokens : List Token} {value : option.form.Value}
      (listed : word :: words ∈ option.spellings) (starts : first.kind = .keyword word)
      (further : Spell others words) (signed : sign.map Token.kind ∈ [[], [.equals]])
      (written : option.form.Written tokens value)
      (apart : word = .ENGINE → ∀ token ∈ (sign ++ tokens).head?, token.kind ≠ .keyword .ENGINE) :
      Written (first :: (others ++ (sign ++ tokens))) (option.clause value)
  | body {opening closing : Token} {inner : List Token} (opens : opening.kind = .leftParen)
      (balanced : Balanced 0 inner) (no_end : ∀ token ∈ inner, token.kind ≠ .endOfInput)
      (closes : closing.kind = .rightParen) : Written (opening :: (inner ++ [closing])) .skipped

inductive PartitionClauses : List Token → List PartitionClause → Prop where
  | finish : PartitionClauses [] []
  | clause {front tokens : List Token} {clause : PartitionClause} {clauses : List PartitionClause}
      (first : clause.Written front) (later : PartitionClauses tokens clauses) :
      PartitionClauses (front ++ tokens) (clause :: clauses)

structure PartitionItem where
  name : String
  bound : Option PartitionBound
  clauses : List PartitionClause

inductive PartitionItem.Written (source : List Char) : List Token → PartitionItem → Prop where
  | mk {first named : Token} {bounded behind : List Token} {bound : Option PartitionBound}
      {clauses : List PartitionClause} (starts : first.kind = .keyword .PARTITION)
      (name : named.isName = true) (bounds : PartitionBound.Optional source bounded bound)
      (followed : PartitionClauses behind clauses) :
      Written source (first :: named :: (bounded ++ behind)) ⟨named.text, bound, clauses⟩

inductive MorePartitions (source : List Char) : List Token → List PartitionItem → Prop where
  | finish : MorePartitions source [] []
  | item {comma : Token} {front tokens : List Token} {item : PartitionItem}
      {items : List PartitionItem} (parted : comma.kind = .comma)
      (first : item.Written source front) (later : MorePartitions source tokens items) :
      MorePartitions source (comma :: (front ++ tokens)) (item :: items)

inductive PartitionItems (source : List Char) : List Token → List PartitionItem → Prop where
  | mk {opening closing : Token} {front tokens : List Token} {item : PartitionItem}
      {items : List PartitionItem} (opens : opening.kind = .leftParen)
      (first : item.Written source front) (more : MorePartitions source tokens items)
      (closes : closing.kind = .rightParen) :
      PartitionItems source (opening :: (front ++ (tokens ++ [closing]))) (item :: items)

/-- The partition that an item comes to. -/
structure PartitionItem.Gives (item : PartitionItem) (partition : Partition) : Prop where
  name : partition.name = item.name
  bound : partition.bound = item.bound
  values : ∀ option,
    partition.value option = (item.clauses.filterMap (·.value? option)).getLast?

theorem Partition.value_apply (option : PartitionOption) (partition : Partition)
    (clause : PartitionClause) :
    (partition.apply clause).value option =
      (clause.value? option).or (partition.value option) := by
  cases option <;> cases clause <;> rfl

/-- A partition with its clauses applied one by one. -/
def PartitionItem.applied (item : PartitionItem) : Partition :=
  item.clauses.foldl Partition.apply { name := item.name, bound := item.bound }

theorem PartitionItem.gives_applied (item : PartitionItem) : item.Gives item.applied := by
  obtain ⟨name, bound, clauses⟩ := item
  have kept (clauses : List PartitionClause) (partition : Partition) :
      (clauses.foldl Partition.apply partition).name = partition.name ∧
        (clauses.foldl Partition.apply partition).bound = partition.bound := by
    induction clauses generalizing partition with
    | nil => exact ⟨rfl, rfl⟩
    | cons clause clauses ih =>
        obtain ⟨same_name, same_bound⟩ := ih (partition.apply clause)
        rw [List.foldl_cons, same_name, same_bound]
        cases clause <;> exact ⟨rfl, rfl⟩
  refine ⟨(kept clauses _).1, (kept clauses _).2, fun option => ?_⟩
  have last := @foldl_last _ _ _ Partition.apply (·.value option) (·.value? option)
    (Partition.value_apply option) clauses { name, bound }
  have unset : Partition.value { name, bound } option = none := by
    cases option <;> rfl
  rwa [unset, Option.or_none] at last

section

variable {source : List Char} {close : Token} {tokens rest : List Token}

theorem PartitionBound.Written.read {bound : PartitionBound} (written : bound.Written source tokens)
    (rest : List Token) :
    PartitionBound.read ⟨source, tokens ++ rest, close⟩ = .ok bound ⟨source, rest, close⟩ := by
  cases written with
  | @unbounded front last spelled ends =>
      obtain ⟨first, others, rfl, less, spelled⟩ := spelled.cons
      obtain ⟨second, rfl, than⟩ := spelled.single
      simp only [List.cons_append, List.nil_append]
      rw [PartitionBound.read, ifWord_found less, bind_of_ok (expectWord_found than),
        bind_of_ok (look_eq _ _)]
      simp [Cursor.seesWord, Cursor.sees, Cursor.current, ends]
      rfl
  | @lessThan front group values spelled listed =>
      have read := listed.read rest close
      obtain ⟨opening, inside, rfl, opens⟩ := listed.front
      obtain ⟨first, others, rfl, less, spelled⟩ := spelled.cons
      obtain ⟨second, rfl, than⟩ := spelled.single
      have no_maxvalue :
          Cursor.seesWord ⟨source, opening :: inside ++ rest, close⟩ .MAXVALUE = false := by
        simp [Cursor.seesWord, Cursor.sees, Cursor.current, opens]
      simp only [List.cons_append, List.nil_append] at no_maxvalue read ⊢
      rw [PartitionBound.read, ifWord_found less, bind_of_ok (expectWord_found than),
        bind_of_ok (look_eq _ _), no_maxvalue]
      exact bind_of_ok read _
  | @among front group values spelled listed =>
      obtain ⟨first, rfl, among⟩ := spelled.single
      simp only [List.cons_append, List.nil_append]
      rw [PartitionBound.read, ifWord_other (by simp [among]), ifWord_found among,
        bind_of_ok (listed.read rest close)]
      rfl

theorem PartitionBound.Optional.read {bound : Option PartitionBound}
    (written : Optional source tokens bound)
    (no_values : tokens = [] → (rest.headD close).kind ≠ .keyword .VALUES) :
    (do if ← eatWord .VALUES then some <$> PartitionBound.read else pure none)
      ⟨source, tokens ++ rest, close⟩ = .ok bound ⟨source, rest, close⟩ := by
  cases written with
  | absent =>
      rw [List.nil_append, ifWord_missed (no_values rfl)]
      rfl
  | given starts written =>
      rw [List.cons_append, ifWord_found starts]
      exact bind_of_ok (written.read rest) _

namespace PartitionClause

variable {clause : PartitionClause}

theorem readFrom_spelled {option : PartitionOption} {word : Keyword} {words : List Keyword}
    (listed : word :: words ∈ option.spellings) (further : Spell tokens words)
    (apart : word = .ENGINE → (rest.headD close).kind ≠ .keyword .ENGINE) :
    readFrom word ⟨source, tokens ++ rest, close⟩ =
      (do discard (eat .equals); return option.clause (← option.form.read))
        ⟨source, rest, close⟩ := by
  cases option with
  | engine =>
      simp only [PartitionOption.spellings, List.mem_cons, List.cons.injEq, List.not_mem_nil,
        or_false] at listed
      rcases listed with ⟨rfl, rfl⟩ | ⟨rfl, rfl⟩
      · obtain rfl := further.nil
        rw [List.nil_append, readFrom, bind_of_ok (discard_of_ok (eatWord_missed (apart rfl)))]
        rfl
      · obtain ⟨second, rfl, kind⟩ := further.single
        rw [List.cons_append, readFrom, bind_of_ok (discard_of_ok (eatWord_found kind))]
        rfl
  | dataDirectory =>
      obtain ⟨rfl, rfl⟩ := List.cons.inj (List.mem_singleton.mp listed)
      obtain ⟨second, rfl, kind⟩ := further.single
      rw [List.cons_append, readFrom, ifWord_found kind]
      rfl
  | indexDirectory =>
      obtain ⟨rfl, rfl⟩ := List.cons.inj (List.mem_singleton.mp listed)
      obtain ⟨second, rfl, kind⟩ := further.single
      rw [List.cons_append, readFrom, ifWord_found kind]
      rfl
  | _ =>
      obtain ⟨rfl, rfl⟩ := List.cons.inj (List.mem_singleton.mp listed)
      obtain rfl := further.nil
      rfl

theorem read_body {opening closing : Token} {inner : List Token} (opens : opening.kind = .leftParen)
    (balanced : Balanced 0 inner) (no_end : ∀ token ∈ inner, token.kind ≠ .endOfInput)
    (closes : closing.kind = .rightParen) (rest : List Token) :
    read ⟨source, opening :: (inner ++ closing :: rest), close⟩ =
      .ok .skipped ⟨source, rest, close⟩ := by
  obtain ⟨commas, group_read⟩ := Group.read_balanced balanced no_end closes close rest
  have passed : skipAny ⟨source, opening :: (inner ++ closing :: rest), close⟩ =
      .ok () ⟨source, rest, close⟩ := by
    have group_passed : group ⟨source, inner ++ closing :: rest, close⟩ =
        .ok ⟨commas, closing, rest⟩ ⟨source, rest, close⟩ := by
      rw [group, group_read]
    have sees :
        Cursor.sees ⟨source, opening :: (inner ++ closing :: rest), close⟩ .leftParen = true := by
      simp [Cursor.sees, Cursor.current, opens]
    rw [skipAny, bind_of_ok (look_eq _ _), sees]
    exact (bind_of_ok discard_advance _).trans (discard_of_ok group_passed)
  rw [PartitionClause.read, current_bind]
  simp only [Cursor.current, List.headD_cons, Token.keyword?, opens]
  exact bind_of_ok passed _

theorem Written.read (written : clause.Written tokens) (rest : List Token) :
    PartitionClause.read ⟨source, tokens ++ rest, close⟩ = .ok clause ⟨source, rest, close⟩ := by
  cases written with
  | @set option word words first others sign tokens value listed starts further signed written apart =>
      have still_apart (engine : word = .ENGINE) :
          ((sign ++ (tokens ++ rest)).headD close).kind ≠ .keyword .ENGINE := by
        obtain ⟨token, others, rfl, -⟩ := written.front
        cases sign with
        | nil => exact apart engine token rfl
        | cons mark sign => exact apart engine mark rfl
      simp only [List.cons_append, List.append_assoc]
      rw [PartitionClause.read, current_bind]
      simp only [Cursor.current, List.headD_cons, Token.keyword?_eq_some_iff.mpr starts]
      rw [bind_of_ok discard_advance, readFrom_spelled listed further still_apart,
        bind_of_ok (written.past_sign signed rest), bind_of_ok (written.read rest)]
      rfl
  | body opens balanced no_end closes =>
      simpa only [List.cons_append, List.append_assoc, List.nil_append] using
        read_body opens balanced no_end closes rest

theorem Written.goes (written : clause.Written tokens) (rest : List Token) :
    Cursor.atElementEnd ⟨source, tokens ++ rest, close⟩ = false := by
  cases written with
  | set _ starts => simp [Cursor.atElementEnd, Cursor.current, starts]
  | body opens => simp [Cursor.atElementEnd, Cursor.current, opens]

end PartitionClause

theorem PartitionClauses.rounds {clauses : List PartitionClause}
    (written : PartitionClauses tokens clauses)
    (ends : Cursor.atElementEnd ⟨source, rest, close⟩ = true) :
    Rounds (!·.atElementEnd) PartitionClause.read ⟨source, tokens ++ rest, close⟩ clauses
      ⟨source, rest, close⟩ := by
  induction written with
  | finish => exact .stop (by simp [ends])
  | @clause front tokens clause clauses first later ih =>
      have shorter : (tokens ++ rest).length < (front ++ (tokens ++ rest)).length := by
        cases first <;> simp only [List.length_append, List.length_cons] <;> omega
      rw [List.append_assoc]
      exact .round (by simp [first.goes]) (first.read _) shorter ih

theorem atElementEnd_of_behindItem (behind : BehindItem rest) :
    Cursor.atElementEnd ⟨source, rest, close⟩ = true := by
  obtain ⟨next, front, kind⟩ := behind
  obtain ⟨others, rfl⟩ := List.head?_eq_some_iff.mp front
  rcases kind with kind | kind <;> simp [Cursor.atElementEnd, Cursor.current, kind]

theorem PartitionClauses.no_values {clauses : List PartitionClause}
    (written : PartitionClauses tokens clauses) (behind : BehindItem rest) :
    ((tokens ++ rest).headD close).kind ≠ .keyword .VALUES := by
  cases written with
  | finish =>
      obtain ⟨next, front, kind⟩ := behind
      obtain ⟨others, rfl⟩ := List.head?_eq_some_iff.mp front
      rcases kind with kind | kind <;> simp [kind]
  | clause first later =>
      cases first with
      | @set option word words _ _ _ _ _ listed starts _ _ _ _ =>
          have others : ∀ words ∈ option.spellings, words.head? ≠ some .VALUES := by
            cases option <;> decide
          simpa [starts] using others _ listed
      | body opens => simp [opens]

theorem PartitionItem.Written.read {item : PartitionItem} (written : item.Written source tokens)
    (behind : BehindItem rest) :
    Partition.read ⟨source, tokens ++ rest, close⟩ =
      .ok item.applied ⟨source, rest, close⟩ := by
  obtain @⟨first, named, bounded, after, bound, clauses, starts, name, bounds, followed⟩ := written
  have bound_read := @bounds.read source close bounded (after ++ rest) bound fun _ =>
    followed.no_values behind
  have clauses_read := (followed.rounds (@atElementEnd_of_behindItem source close rest behind)).many
  simp only [List.cons_append, List.append_assoc]
  rw [Partition.read, bind_of_ok (expectWord_found starts), Reading.name,
    bind_of_ok (textOf_found name .partitionName)]
  refine (choice_bind bound_read _).trans ?_
  exact bind_of_ok clauses_read _

theorem MorePartitions.behindItem {items : List PartitionItem}
    (more : MorePartitions source tokens items) (behind : BehindItem rest) : BehindItem (tokens ++ rest) := by
  cases more with
  | finish => exact behind
  | item parted => exact ⟨_, rfl, .inl parted⟩

theorem MorePartitions.rounds {items : List PartitionItem}
    (more : MorePartitions source tokens items) {closing : Token} (closes : closing.kind = .rightParen)
    (rest : List Token) :
    Rounds (·.sees .comma) (do discard advance; Partition.read)
      ⟨source, tokens ++ closing :: rest, close⟩
      (items.map PartitionItem.applied) ⟨source, closing :: rest, close⟩ := by
  have behind := behindItem_closing closes rest
  induction more with
  | finish => exact .stop (by simp [Cursor.sees, Cursor.current, closes])
  | @item comma front tokens item items parted first later ih =>
      simp only [List.cons_append, List.append_assoc]
      refine .round (by simp [Cursor.sees, Cursor.current, parted]) ?_ ?_ ih
      · exact (bind_of_ok discard_advance _).trans (first.read (later.behindItem behind))
      · simp only [List.length_cons, List.length_append]
        omega

/-- Partitions between parentheses, with commas between them, are read one for one: each has its name
and its bound, with the values of the bound as they were written but for their spacing, and each
option has the value of its last clause, or none. -/
theorem Partition.readList_items {items : List PartitionItem}
    (written : PartitionItems source tokens items) (rest : List Token) (close : Token) :
    ∃ partitions, Partition.readList ⟨source, tokens ++ rest, close⟩ =
        .ok partitions ⟨source, rest, close⟩ ∧
      List.Forall₂ PartitionItem.Gives items partitions := by
  obtain @⟨opening, closing, front, tokens, item, items, opens, first, more, closes⟩ := written
  have first_read : Partition.read ⟨source, front ++ (tokens ++ closing :: rest), close⟩ = _ :=
    first.read (more.behindItem (behindItem_closing closes rest))
  have more_read := (@MorePartitions.rounds source close tokens items more closing closes rest).many
  have items_read : separated Partition.read ⟨source, front ++ (tokens ++ closing :: rest), close⟩ =
      .ok ((item :: items).map PartitionItem.applied) ⟨source, closing :: rest, close⟩ := by
    rw [separated, bind_of_ok first_read, bind_of_ok more_read]
    rfl
  refine ⟨(item :: items).map PartitionItem.applied, ?_, ?_⟩
  · simp only [List.cons_append, List.append_assoc, List.nil_append]
    rw [readList, listOf, bind_of_ok (discard_of_ok (expect_found opens)), bind_of_ok items_read,
      bind_of_ok (discard_of_ok (expect_found closes))]
    rfl
  · rw [List.forall₂_map_right_iff]
    exact List.forall₂_same.mpr fun item _ => item.gives_applied

end

/-- ENGINE in front of that keyword once more is taken for one name of two words, so that no value is
left. The same words set the engine of a table, and so they do here around an equals sign. -/
theorem Partition.engine_taken_for_word :
    (readList.result (.ofText "(PARTITION p ENGINE ENGINE)")).toOption = none ∧
      (readList.result (.ofText "(PARTITION p ENGINE = ENGINE)")).toOption =
        some [{ name := "p", engine := some "ENGINE" }] ∧
      ((TableOptions.read?.result (.ofText "ENGINE ENGINE")).toOption.bind
        (·.bind (·.value .engine)) : Option String) = some "ENGINE" := by
  decide +kernel

/-- Commas in a call, in a string and in a body, and an engine that is set twice. -/
theorem Partition.readList_items_nested :
    ∃ text items partitions,
      text = "(PARTITION p VALUES IN (f(1, 2), ',') ENGINE = a (SUBPARTITION s, t) ENGINE b, PARTITION q)" ∧
      items = [⟨"p", some (.among ["f(1, 2)", "','"]), [.engine "a", .skipped, .engine "b"]⟩,
        ⟨"q", none, []⟩] ∧
      PartitionItems text.toList (Token.visible .start text.toList) items ∧
      Partition.readList (.ofText text) = .ok partitions ⟨text.toList, [], .endOf text⟩ ∧
      List.Forall₂ PartitionItem.Gives items partitions := by
  obtain ⟨text, same⟩ : ∃ text, text =
      "(PARTITION p VALUES IN (f(1, 2), ',') ENGINE = a (SUBPARTITION s, t) ENGINE b, PARTITION q)" :=
    ⟨_, rfl⟩
  have stands : text.toList = "(PARTITION p VALUES IN ".toList ++ '(' ::
      ListValue.closedList "f(1, 2)" [" ','"] ++
        " ENGINE = a (SUBPARTITION s, t) ENGINE b, PARTITION q)".toList := by
    rw [same]
    decide +kernel
  have call : ListValue "f(1, 2)" := by
    refine ⟨uncommented_of_notMem (by decide) (by decide) (by decide), by decide +kernel, ?_,
      by decide +kernel⟩
    have kinds : (contents "f(1, 2)".toList).map Prod.fst =
        [.identifier, .leftParen, .number, .comma, .number, .rightParen] := by
      decide +kernel
    rw [kinds]
    exact .other (by decide) (.opening (.other (by decide) (.comma (.other (by decide)
      (.closing .finish)))))
  have string : ListValue " ','" := by
    refine ⟨uncommented_of_notMem (by decide) (by decide) (by decide), by decide +kernel, ?_,
      by decide +kernel⟩
    have kinds : (contents " ','".toList).map Prod.fst = [.string .single] := by decide +kernel
    rw [kinds]
    exact .other (by decide) .finish
  have values : ValueGroup text.toList _ (["f(1, 2)", " ','"].map Text.normalizeSpacing) :=
    .mk stands (by simp [call, string])
  have spaced : ["f(1, 2)", " ','"].map Text.normalizeSpacing = ["f(1, 2)", "','"] := by
    decide +kernel
  have engine (first : Token) (sign : List Token) (value : Token)
      (starts : first.kind = .keyword .ENGINE) (signed : sign.map Token.kind ∈ [[], [.equals]])
      (name : value.kind = .identifier) :
      PartitionClause.Written (first :: (sign ++ [value])) (.engine value.text) := by
    refine @PartitionClause.Written.set .engine .ENGINE [] first [] sign [value] value.text (by decide)
      starts rfl signed (.word (by simp [Token.isWord, name])) fun _ => ?_
    rcases optional_cases signed with rfl | ⟨mark, rfl, kind⟩
    · simp [name]
    · simp [kind]
  have body (opening closing : Token) (inner : List Token) (opens : opening.kind = .leftParen)
      (closes : closing.kind = .rightParen)
      (plain : ∀ token ∈ inner, ¬token.IsParenthesis ∧ token.kind ≠ .endOfInput) :
      PartitionClause.Written (opening :: (inner ++ [closing])) .skipped :=
    .body opens (.of_plain fun token member => (plain token member).1)
      (fun token member => (plain token member).2) closes
  have tokens : Token.visible .start text.toList = ⟨.leftParen, "(", ⟨0, 1⟩, ⟨0, 1, 1⟩⟩ ::
      ((⟨.keyword .PARTITION, "PARTITION", ⟨1, 10⟩, ⟨1, 1, 2⟩⟩ ::
        ⟨.identifier, "p", ⟨11, 12⟩, ⟨11, 1, 12⟩⟩ ::
        ((⟨.keyword .VALUES, "VALUES", ⟨13, 19⟩, ⟨13, 1, 14⟩⟩ ::
          ([⟨.keyword .IN, "IN", ⟨20, 22⟩, ⟨20, 1, 21⟩⟩] ++
            Token.visible (.ofPrefix "(PARTITION p VALUES IN ".toList)
              ('(' :: ListValue.closedList "f(1, 2)" [" ','"]))) ++
        ((⟨.keyword .ENGINE, "ENGINE", ⟨38, 44⟩, ⟨38, 1, 39⟩⟩ ::
            ([⟨.equals, "=", ⟨45, 46⟩, ⟨45, 1, 46⟩⟩] ++ [⟨.identifier, "a", ⟨47, 48⟩, ⟨47, 1, 48⟩⟩])) ++
          ((⟨.leftParen, "(", ⟨49, 50⟩, ⟨49, 1, 50⟩⟩ ::
            ([⟨.keyword .SUBPARTITION, "SUBPARTITION", ⟨50, 62⟩, ⟨50, 1, 51⟩⟩,
              ⟨.identifier, "s", ⟨63, 64⟩, ⟨63, 1, 64⟩⟩, ⟨.comma, ",", ⟨64, 65⟩, ⟨64, 1, 65⟩⟩,
              ⟨.identifier, "t", ⟨66, 67⟩, ⟨66, 1, 67⟩⟩] ++
                [⟨.rightParen, ")", ⟨67, 68⟩, ⟨67, 1, 68⟩⟩])) ++
          ((⟨.keyword .ENGINE, "ENGINE", ⟨69, 75⟩, ⟨69, 1, 70⟩⟩ ::
            ([] ++ [⟨.identifier, "b", ⟨76, 77⟩, ⟨76, 1, 77⟩⟩])) ++ []))))) ++
      ((⟨.comma, ",", ⟨77, 78⟩, ⟨77, 1, 78⟩⟩ ::
        ((⟨.keyword .PARTITION, "PARTITION", ⟨79, 88⟩, ⟨79, 1, 80⟩⟩ ::
          ⟨.identifier, "q", ⟨89, 90⟩, ⟨89, 1, 90⟩⟩ :: ([] ++ [])) ++ [])) ++
        [⟨.rightParen, ")", ⟨90, 91⟩, ⟨90, 1, 91⟩⟩])) := by
    rw [same]
    decide +kernel
  have written : PartitionItems text.toList (Token.visible .start text.toList)
      [⟨"p", some (.among ["f(1, 2)", "','"]), [.engine "a", .skipped, .engine "b"]⟩,
        ⟨"q", none, []⟩] := by
    rw [tokens, ← spaced]
    refine .mk rfl (.mk rfl rfl (.given rfl (.among rfl values)) ?_) ?_ rfl
    · refine .clause (engine _ _ _ rfl (by decide) rfl) (.clause (body _ _ _ rfl rfl (by decide)) ?_)
      exact .clause (engine _ _ _ rfl (by decide) rfl) .finish
    · exact .item rfl (.mk rfl rfl .absent .finish) .finish
  obtain ⟨partitions, read, gives⟩ := readList_items written [] (.endOf text)
  rw [List.append_nil] at read
  exact ⟨text, _, partitions, same, rfl, written, read, gives⟩

end SchemaDrift
