import SchemaDrift.Proofs.ClauseForms

/-!
The attributes of a column come from clauses in any order. Whatever clause stands behind another, the
first one stops in front of it; so a column is read from all its clauses, and of those for the same
attribute the last one counts.
-/

namespace SchemaDrift

open Reading

namespace ColumnClause

def wordForms : List (List Keyword × ColumnClause) :=
  [([.NULL], .nullability .null), ([.NOT, .NULL], .nullability .notNull),
    ([.AUTO_INCREMENT], .autoIncrement), ([.UNIQUE], .unique), ([.UNIQUE, .KEY], .unique),
    ([.PRIMARY, .KEY], .primaryKey), ([.VISIBLE], .visible true), ([.INVISIBLE], .visible false)]

def valueForms : List (List Keyword × (String → ColumnClause)) :=
  [([.COLLATE], .collation), ([.CHARACTER, .SET], .characterSet), ([.CHARSET], .characterSet),
    ([.COLUMN_FORMAT], fun name => .columnFormat (name.map Char.toUpper)),
    ([.STORAGE], fun name => .storage (name.map Char.toUpper))]

/-- The tokens that write a clause. The value of ON UPDATE does not start like the action of a
reference. -/
inductive Written (source : List Char) : List Token → ColumnClause → Prop where
  | words {tokens : List Token} {words : List Keyword} {clause : ColumnClause}
      (listed : (words, clause) ∈ wordForms) (spelled : Spell tokens words) :
      Written source tokens clause
  | value {front : List Token} {token : Token} {words : List Keyword} {make : String → ColumnClause}
      (listed : (words, make) ∈ valueForms) (spelled : Spell front words)
      (word : token.isWord = true) : Written source (front ++ [token]) (make token.text)
  | comment {first token : Token} (starts : first.kind = .keyword .COMMENT)
      (string : token.isString = true) : Written source [first, token] (.comment token.text)
  | defaultValue {first : Token} {tokens : List Token} {text : String}
      (starts : first.kind = .keyword .DEFAULT) (value : DefaultValue.Written source tokens text) :
      Written source (first :: tokens) (.defaultValue text)
  | onUpdate {front tokens : List Token} {text : String} (spelled : Spell front [.ON, .UPDATE])
      (value : DefaultValue.Written source tokens text)
      (no_action : ∀ token ∈ tokens.head?, ∀ word ∈ ReferentialAction.firstWords,
        token.kind ≠ .keyword word) : Written source (front ++ tokens) (.onUpdate text)
  | generated {tokens : List Token} {value : GeneratedColumn}
      (written : value.Written source tokens) : Written source tokens (.generated value)
  | reference {tokens : List Token} {value : Reference} (written : value.Written tokens) :
      Written source tokens (.reference value)
  | check {front tokens : List Token} {name : Option String} {value : Check}
      (named : ConstraintName front name) (written : value.Written source name tokens) :
      Written source (front ++ tokens) (.check value)

end ColumnClause

/-- Clauses in a row behind the token `before`. Between them may stand plain identifiers that belong to
none of them, each apart from what stands in front of it. -/
inductive Attributes (source : List Char) : Token → List Token → List ColumnClause → Prop where
  | finish {before : Token} : Attributes source before [] []
  | filler {before token : Token} {tokens : List Token} {clauses : List ColumnClause}
      (plain : token.kind = .identifier) (apart : token.span.start ≠ before.span.stop)
      (later : Attributes source token tokens clauses) :
      Attributes source before (token :: tokens) clauses
  | clause {before last : Token} {front tokens : List Token} {clause : ColumnClause}
      {clauses : List ColumnClause} (first : clause.Written source front)
      (ends : front.getLast? = some last) (later : Attributes source last tokens clauses) :
      Attributes source before (front ++ tokens) (clause :: clauses)

/-- What the last clause says that says something of a kind. -/
def ColumnClause.last {α : Type} (pick : ColumnClause → Option α) (clauses : List ColumnClause) :
    Option α :=
  (clauses.filterMap pick).getLast?

/-- A column with some clauses: each attribute is what the last clause for it says, and as it is without
any where there is none. -/
def Column.declared (name : String) (dataType : DataType) (clauses : List ColumnClause) : Column where
  name
  dataType
  nullability := (ColumnClause.last
    (fun | .nullability value => some value | _ => none) clauses).getD .unspecified
  defaultValue := ColumnClause.last (fun | .defaultValue text => some text | _ => none) clauses
  autoIncrement := clauses.contains .autoIncrement
  unique := clauses.contains .unique
  primaryKey := clauses.contains .primaryKey
  comment := ColumnClause.last (fun | .comment text => some text | _ => none) clauses
  collation := ColumnClause.last (fun | .collation name => some name | _ => none) clauses
  characterSet := ColumnClause.last (fun | .characterSet name => some name | _ => none) clauses
  visible := ColumnClause.last (fun | .visible value => some value | _ => none) clauses
  generated := ColumnClause.last (fun | .generated value => some value | _ => none) clauses
  columnFormat := ColumnClause.last (fun | .columnFormat name => some name | _ => none) clauses
  storage := ColumnClause.last (fun | .storage name => some name | _ => none) clauses
  onUpdate := ColumnClause.last (fun | .onUpdate text => some text | _ => none) clauses
  reference := ColumnClause.last (fun | .reference value => some value | _ => none) clauses

theorem Column.declared_append (name : String) (dataType : DataType) (clauses : List ColumnClause)
    (clause : ColumnClause) :
    declared name dataType (clauses ++ [clause]) = (declared name dataType clauses).apply clause := by
  cases clause <;> simp [declared, apply, ColumnClause.last]

/-- Clause by clause, the later one winning, a column comes to what its last clauses say. -/
theorem Column.foldl_apply (name : String) (dataType : DataType) (clauses : List ColumnClause) :
    clauses.foldl apply { name, dataType } = declared name dataType clauses :=
  foldl_eq_of_append rfl (declared_append name dataType) clauses

section

variable {source : List Char} {last close : Token} {tokens rest : List Token}

/-! A clause is read in front of anything that it does not go on with. -/

namespace ColumnClause

theorem read_word {token : Token} {word : Keyword} (kind : token.kind = .keyword word)
    (rest : List Token) :
    read ⟨source, token :: rest, close⟩ = readFrom word ⟨source, token :: rest, close⟩ := by
  rw [read, current_bind, Cursor.current, List.headD_cons, Token.keyword?_eq_some_iff.mpr kind]

theorem read_filler {token : Token} (plain : token.kind = .identifier) (rest : List Token) :
    read ⟨source, token :: rest, close⟩ = .ok .skipped ⟨source, rest, close⟩ := by
  have no_word : token.keyword? = none := by rw [Token.keyword?, plain]
  have no_group : Cursor.sees ⟨source, token :: rest, close⟩ .leftParen = false := by
    simp [Cursor.sees, Cursor.current, plain]
  have passed : skipAny ⟨source, token :: rest, close⟩ = .ok () ⟨source, rest, close⟩ := by
    rw [skipAny, bind_of_ok (look_eq _ _), no_group]
    rfl
  rw [read, current_bind, Cursor.current, List.headD_cons, no_word]
  exact bind_of_ok passed _

theorem read_words {words : List Keyword} {clause : ColumnClause}
    (listed : (words, clause) ∈ wordForms) (spelled : Spell tokens words)
    (onward : Onward last ⟨source, rest, close⟩) :
    read ⟨source, tokens ++ rest, close⟩ = .ok clause ⟨source, rest, close⟩ := by
  simp only [wordForms, List.mem_cons, Prod.mk.injEq, List.not_mem_nil, or_false] at listed
  rcases listed with ⟨rfl, rfl⟩ | ⟨rfl, rfl⟩ | ⟨rfl, rfl⟩ | ⟨rfl, rfl⟩ | ⟨rfl, rfl⟩ | ⟨rfl, rfl⟩ |
    ⟨rfl, rfl⟩ | ⟨rfl, rfl⟩
  -- in the order of the forms, each behind its first word
  all_goals
    obtain ⟨token, others, rfl, kind, further⟩ := spelled.cons
    rw [List.cons_append, read_word kind, readFrom, bind_of_ok discard_advance]
  · obtain rfl := further.nil
    rfl
  · obtain ⟨second, rfl, kind⟩ := further.single
    rw [List.cons_append, bind_of_ok (eatWord_found kind)]
    rfl
  · obtain rfl := further.nil
    rfl
  · obtain rfl := further.nil
    exact bind_of_ok (discard_of_ok (eatWord_missed (onward.missed _ (by decide)))) _
  · obtain ⟨second, rfl, kind⟩ := further.single
    exact bind_of_ok (discard_of_ok (eatWord_found kind)) _
  · obtain ⟨second, rfl, kind⟩ := further.single
    exact bind_of_ok (discard_of_ok (eatWord_found kind)) _
  · obtain rfl := further.nil
    rfl
  · obtain rfl := further.nil
    rfl

theorem read_value {words : List Keyword} {make : String → ColumnClause} {token : Token}
    (listed : (words, make) ∈ valueForms) (spelled : Spell tokens words)
    (word : token.isWord = true) (rest : List Token) :
    read ⟨source, tokens ++ token :: rest, close⟩ = .ok (make token.text) ⟨source, rest, close⟩ := by
  have value_read : Reading.word ⟨source, token :: rest, close⟩ =
      .ok token.text ⟨source, rest, close⟩ :=
    textOf_found word .optionValue
  simp only [valueForms, List.mem_cons, Prod.mk.injEq, List.not_mem_nil, or_false] at listed
  rcases listed with ⟨rfl, rfl⟩ | ⟨rfl, rfl⟩ | ⟨rfl, rfl⟩ | ⟨rfl, rfl⟩ | ⟨rfl, rfl⟩
  all_goals
    obtain ⟨first, others, rfl, kind, further⟩ := spelled.cons
    rw [List.cons_append, read_word kind, readFrom, bind_of_ok discard_advance]
  · obtain rfl := further.nil
    exact bind_of_ok value_read _
  · obtain ⟨second, rfl, set⟩ := further.single
    rw [List.cons_append, bind_of_ok (expectWord_found set)]
    exact bind_of_ok value_read _
  · obtain rfl := further.nil
    exact bind_of_ok value_read _
  · obtain rfl := further.nil
    exact bind_of_ok value_read _
  · obtain rfl := further.nil
    exact bind_of_ok value_read _

theorem read_check {name : Option String} {value : Check} {front : List Token}
    (named : ConstraintName front name) (written : value.Written source name tokens)
    (stands : ∀ token ∈ tokens, token.StandsIn source) (onward : Onward last ⟨source, rest, close⟩) :
    read ⟨source, front ++ (tokens ++ rest), close⟩ = .ok (.check value) ⟨source, rest, close⟩ := by
  have check_read := written.read stands onward
  obtain ⟨first, others, rfl, starts⟩ := written.front
  have sees : Cursor.seesWord ⟨source, first :: others ++ rest, close⟩ .CHECK = true := by
    simp [Cursor.seesWord, Cursor.sees, Cursor.current, starts]
  -- the name in front of CHECK, where there is CONSTRAINT
  have behind_name : (do
      if ← look (·.seesWord .CHECK) then return .check (← Check.read name) else return .skipped :
        Reading ColumnClause) ⟨source, first :: others ++ rest, close⟩ =
      .ok (.check value) ⟨source, rest, close⟩ := by
    rw [bind_of_ok (look_eq _ _), sees]
    exact bind_of_ok check_read _
  cases named with
  | none =>
      rw [List.nil_append, List.cons_append, read_word starts]
      exact bind_of_ok check_read _
  | unnamed constraint =>
      have no_name : name? ⟨source, first :: others ++ rest, close⟩ =
          .ok none ⟨source, first :: others ++ rest, close⟩ := by
        have reserved : first.isName = false := by
          rw [Token.isName, starts]
          rfl
        simp [name?, Cursor.current, reserved]
      rw [List.cons_append, List.nil_append, read_word constraint, readFrom,
        bind_of_ok discard_advance, bind_of_ok no_name]
      exact behind_name
  | @named front token constraint named =>
      have name_read : name? ⟨source, token :: (first :: others ++ rest), close⟩ =
          .ok (some token.text) ⟨source, first :: others ++ rest, close⟩ := by
        simp [name?, Cursor.current, Cursor.next, named]
      simp only [List.cons_append, List.nil_append]
      rw [read_word constraint, readFrom, bind_of_ok discard_advance]
      exact (bind_of_ok name_read _).trans behind_name

theorem Written.read {clause : ColumnClause} (written : clause.Written source tokens)
    (stands : ∀ token ∈ tokens, token.StandsIn source) (ends : tokens.getLast? = some last)
    (onward : Onward last ⟨source, rest, close⟩) :
    ColumnClause.read ⟨source, tokens ++ rest, close⟩ = .ok clause ⟨source, rest, close⟩ := by
  cases written with
  | words listed spelled => exact read_words listed spelled onward
  | value listed spelled word =>
      rw [List.append_assoc]
      exact read_value listed spelled word rest
  | comment starts string =>
      simp only [List.cons_append, List.nil_append]
      rw [read_word starts, readFrom, bind_of_ok discard_advance]
      exact bind_of_ok (textOf_found string .string) _
  | @defaultValue first tokens text starts value =>
      have read := value.read (fun token member => stands token (List.mem_cons_of_mem _ member))
        (show ([first] ++ tokens).getLast? = some last from ends) onward
      rw [List.cons_append, read_word starts, readFrom, bind_of_ok discard_advance]
      exact bind_of_ok read _
  | @onUpdate front tokens text spelled value no_action =>
      have read := value.read (fun token member => stands token (List.mem_append_right _ member))
        ends onward
      obtain ⟨first, others, rfl, on, spelled⟩ := spelled.cons
      obtain ⟨second, rfl, update⟩ := spelled.single
      simp only [List.cons_append, List.nil_append]
      rw [read_word on, readFrom, bind_of_ok discard_advance, bind_of_ok (eatWord_found update)]
      exact bind_of_ok read _
  | generated written =>
      have read := written.read stands onward
      obtain ⟨first, others, word, rfl, kind, known⟩ := written.front
      rw [List.cons_append, read_word kind]
      rcases known with rfl | rfl
      · exact bind_of_ok read _
      · exact bind_of_ok read _
  | reference written =>
      have read := written.read onward.no_action
      obtain ⟨starts, _, _, _⟩ := written
      rw [List.cons_append, read_word starts]
      exact bind_of_ok read _
  | check named written =>
      rw [List.append_assoc]
      exact read_check named written
        (fun token member => stands token (List.mem_append_right _ member)) onward

end ColumnClause

/-! What stands behind a clause is another one, or it is nothing to go on with either. -/

/-- A kind that nothing goes on with, whatever stands behind it. -/
def TokenKind.Fresh (kind : TokenKind) : Prop :=
  kind ∉ [.keyword .NOT, .keyword .ON, .keyword .MATCH] ∧ kind.goesOn = false

instance (kind : TokenKind) : Decidable kind.Fresh :=
  inferInstanceAs (Decidable (_ ∧ _))

theorem Onward.of_fresh {token : Token} (fresh : token.kind.Fresh)
    (apart : token.kind = .identifier → token.span.start ≠ last.span.stop) (rest : List Token) :
    Onward last ⟨source, token :: rest, close⟩ := by
  simp only [TokenKind.Fresh, List.mem_cons, List.not_mem_nil, or_false, not_or] at fresh
  obtain ⟨⟨no_not, no_on, no_match⟩, kind⟩ := fresh
  refine ⟨kind, apart, ?_, ?_⟩
  · simp [Cursor.seesWord, Cursor.sees, Cursor.current, no_not]
  · simp [ReferenceClause.starts, Cursor.seesWord, Cursor.sees, Cursor.current, no_on, no_match]

/-- How a clause starts: with a keyword that nothing goes on with, with NOT NULL, or with ON and no
action two tokens on. -/
inductive ClauseStart : List Token → Prop where
  | fresh {first : Token} {others : List Token} {word : Keyword} (kind : first.kind = .keyword word)
      (fresh : (TokenKind.keyword word).Fresh) : ClauseStart (first :: others)
  | notNull {first second : Token} {others : List Token} (kind : first.kind = .keyword .NOT)
      (null : second.kind = .keyword .NULL) : ClauseStart (first :: second :: others)
  | onUpdate {first second third : Token} {others : List Token} (kind : first.kind = .keyword .ON)
      (no_action : ∀ word ∈ ReferentialAction.firstWords, third.kind ≠ .keyword word) :
      ClauseStart (first :: second :: third :: others)

namespace ClauseStart

theorem of_spell {words : List Keyword} (spelled : Spell tokens words)
    (fresh : ∃ word ∈ words.head?, (TokenKind.keyword word).Fresh) (rest : List Token) :
    ClauseStart (tokens ++ rest) := by
  obtain ⟨word, front, fresh⟩ := fresh
  obtain ⟨further, rfl⟩ := List.head?_eq_some_iff.mp front
  obtain ⟨first, others, rfl, kind, -⟩ := spelled.cons
  exact .fresh kind fresh

theorem front (start : ClauseStart tokens) :
    ∃ first others word, tokens = first :: others ∧ first.kind = .keyword word := by
  cases start with
  | fresh kind | notNull kind | onUpdate kind => exact ⟨_, _, _, rfl, kind⟩

theorem onward (start : ClauseStart tokens) (rest : List Token) :
    Onward last ⟨source, tokens ++ rest, close⟩ := by
  cases start with
  | fresh kind fresh => exact .of_fresh (kind ▸ fresh) (by simp [kind]) _
  | notNull kind null =>
      refine ⟨?_, ?_, ?_, ?_⟩
      · simp [Cursor.current, kind, TokenKind.goesOn]
      · simp [Cursor.current, kind]
      · simp [Cursor.peeksWord, Cursor.peek, null]
      · simp [ReferenceClause.starts, Cursor.seesWord, Cursor.sees, Cursor.current, kind]
  | onUpdate kind no_action =>
      simp only [ReferentialAction.firstWords, List.forall_mem_cons] at no_action
      refine ⟨?_, ?_, ?_, ?_⟩
      · simp [Cursor.current, kind, TokenKind.goesOn]
      · simp [Cursor.current, kind]
      · simp [Cursor.seesWord, Cursor.sees, Cursor.current, kind]
      · simp [ReferenceClause.starts, Cursor.seesWord, Cursor.sees, Cursor.current,
          Cursor.peeksWord, Cursor.peek, kind, no_action]

end ClauseStart

theorem ColumnClause.Written.starts {clause : ColumnClause} (written : clause.Written source tokens) :
    ClauseStart tokens := by
  cases written with
  | words listed spelled =>
      have forms : ∀ form ∈ wordForms, form.1 = [.NOT, .NULL] ∨
          ∃ word ∈ form.1.head?, (TokenKind.keyword word).Fresh := by
        decide
      -- of the words that a clause could go on with only NOT starts one, and NULL stands behind it
      rcases forms _ listed with rfl | fresh
      · obtain ⟨first, others, rfl, kind, further⟩ := spelled.cons
        obtain ⟨second, others, rfl, null, -⟩ := further.cons
        exact .notNull kind null
      · rw [← tokens.append_nil]
        exact .of_spell spelled fresh []
  | @value front token words make listed spelled word =>
      have forms : ∀ words ∈ valueForms.map Prod.fst,
          ∃ word ∈ words.head?, (TokenKind.keyword word).Fresh := by
        decide
      exact .of_spell spelled (forms _ (List.mem_map_of_mem listed)) [token]
  | comment starts => exact .fresh starts (by decide)
  | defaultValue starts => exact .fresh starts (by decide)
  | @onUpdate front tokens text spelled value no_action =>
      obtain ⟨first, others, rfl, kind, further⟩ := spelled.cons
      obtain ⟨second, rfl, -⟩ := further.single
      obtain ⟨third, others, rfl⟩ := List.exists_cons_of_ne_nil value.ne_nil
      exact .onUpdate kind (no_action third rfl)
  | generated written =>
      obtain ⟨first, others, word, rfl, kind, rfl | rfl⟩ := written.front
      · exact .fresh kind (by decide)
      · exact .fresh kind (by decide)
  | reference written =>
      obtain ⟨starts, _, _, _⟩ := written
      exact .fresh starts (by decide)
  | check named written =>
      cases named with
      | none =>
          obtain ⟨first, others, rfl, kind⟩ := written.front
          exact .fresh kind (by decide)
      | unnamed starts | named starts => exact .fresh starts (by decide)

/-! Clauses in a row. -/

theorem Onward.of_stop {stop : Token} (ends : stop.kind = .comma ∨ stop.kind = .rightParen)
    (rest : List Token) : Onward last ⟨source, stop :: rest, close⟩ := by
  rcases ends with kind | kind <;> exact .of_fresh (by rw [kind]; decide) (by simp [kind]) rest

namespace Attributes

variable {before stop : Token} {clauses : List ColumnClause}

/-- Where a row of clauses may go on with `rest`, whatever its last token is, nothing in front of the
row goes on with the row. -/
theorem onward_of (written : Attributes source before tokens clauses)
    (next : ∀ last, Onward last ⟨source, rest, close⟩) :
    Onward before ⟨source, tokens ++ rest, close⟩ := by
  cases written with
  | finish => exact next before
  | filler plain apart later => exact .of_fresh (by rw [plain]; decide) (fun _ => apart) _
  | clause first ends later =>
      rw [List.append_assoc]
      exact first.starts.onward _

theorem onward (written : Attributes source before tokens clauses)
    (ends : stop.kind = .comma ∨ stop.kind = .rightParen) (rest : List Token) (close : Token) :
    Onward before ⟨source, tokens ++ stop :: rest, close⟩ :=
  written.onward_of fun _ => .of_stop ends rest

theorem rounds_then (written : Attributes source before tokens clauses)
    (stands : ∀ token ∈ tokens, token.StandsIn source)
    (next : ∀ last, Onward last ⟨source, rest, close⟩) {values : List ColumnClause} {after : Cursor}
    (others : Rounds (!·.atElementEnd) ColumnClause.read ⟨source, rest, close⟩ values after) :
    ∃ read, Rounds (!·.atElementEnd) ColumnClause.read ⟨source, tokens ++ rest, close⟩
        (read ++ values) after ∧
      (∀ column : Column, read.foldl Column.apply column = clauses.foldl Column.apply column) ∧
      read.filterMap ColumnClause.check? = clauses.filterMap ColumnClause.check? := by
  -- along the row: a clause is read in front of what is left of the row, which it cannot go on with
  induction written with
  | finish => exact ⟨[], others, fun _ => rfl, rfl⟩
  | @filler before token tokens clauses plain apart later ih =>
      obtain ⟨read, rounds, same, checks⟩ := ih (List.forall_mem_cons.mp stands).2
      have skipped : ColumnClause.read ⟨source, token :: (tokens ++ rest), close⟩ =
          .ok .skipped ⟨source, tokens ++ rest, close⟩ :=
        ColumnClause.read_filler plain _
      refine ⟨.skipped :: read, .round ?_ skipped (by simp) rounds, same, checks⟩
      simp [Cursor.atElementEnd, Cursor.current, plain]
  | @clause before last front tokens clause clauses first front_ends later ih =>
      obtain ⟨stands_front, stands_later⟩ := List.forall_mem_append.mp stands
      obtain ⟨read, rounds, same, checks⟩ := ih stands_later
      have clause_read := first.read stands_front front_ends (later.onward_of next)
      obtain ⟨token, others, word, rfl, kind⟩ := first.starts.front
      refine ⟨clause :: read, ?_, fun column => ?_, ?_⟩
      · rw [List.append_assoc]
        refine .round ?_ clause_read ?_ rounds
        · simp [Cursor.atElementEnd, Cursor.current, kind]
        · simp only [List.length_append, List.length_cons]
          omega
      · rw [List.foldl_cons, List.foldl_cons, same]
      · rw [List.filterMap_cons, List.filterMap_cons, checks]

theorem rounds (written : Attributes source before tokens clauses)
    (stands : ∀ token ∈ tokens, token.StandsIn source)
    (ends : stop.kind = .comma ∨ stop.kind = .rightParen) (rest : List Token) :
    ∃ read, Rounds (!·.atElementEnd) ColumnClause.read ⟨source, tokens ++ stop :: rest, close⟩ read
        ⟨source, stop :: rest, close⟩ ∧
      (∀ column : Column, read.foldl Column.apply column = clauses.foldl Column.apply column) ∧
      read.filterMap ColumnClause.check? = clauses.filterMap ColumnClause.check? := by
  have stops : (!Cursor.atElementEnd ⟨source, stop :: rest, close⟩) = false := by
    rcases ends with kind | kind <;> simp [Cursor.atElementEnd, Cursor.current, kind]
  obtain ⟨read, rounds, same⟩ :=
    written.rounds_then stands (fun _ => .of_stop ends rest) (.stop stops)
  exact ⟨read, by rwa [List.append_nil] at rounds, same⟩

end Attributes

end

theorem Onward.endsType {source : List Char} {last close : Token} {rest : List Token}
    (onward : Onward last ⟨source, rest, close⟩) : (rest.headD close).EndsType := by
  have goes : ∀ kind ∈ [TokenKind.leftParen, .keyword .UNSIGNED, .keyword .ZEROFILL,
      .keyword .PRECISION, .keyword .VARCHAR], kind.goesOn = true := by
    decide
  exact fun ending => onward.missed _ (goes _ ending) rfl

theorem Column.read_of_many {source : List Char} {column close : Token} {type rest : List Token}
    {dataType : DataType} {clauses : List ColumnClause} {after : Cursor} (named : column.isName = true)
    (typed : dataType.Written type) (type_ends : (rest.headD close).EndsType)
    (read : many (!·.atElementEnd) ColumnClause.read ⟨source, rest, close⟩ = .ok clauses after) :
    Column.read ⟨source, column :: (type ++ rest), close⟩ =
      .ok (declared column.text dataType clauses, clauses.filterMap ColumnClause.check?) after := by
  rw [Column.read, Reading.name, bind_of_ok (textOf_found named .columnName),
    bind_of_ok (typed.read type_ends), bind_of_ok read, foldl_apply]
  rfl

end SchemaDrift
