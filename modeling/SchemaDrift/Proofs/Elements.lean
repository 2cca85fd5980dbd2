import SchemaDrift.Proofs.Runs
import SchemaDrift.Proofs.Stages

/-!
Whole elements of a table stay in their runs: columns, keys, indexes and checks. What an element is
depends on its own run and on nothing behind it.
-/

namespace SchemaDrift

open Reading

namespace DataType

theorem readName_stays : Stays readName := by
  rw [readName]
  refine current_stays ?_ (.fail .dataType) ?_ ?_
  · intro token border _
    simp [border.keyword?]
  · intro token opens
    have none_found : token.keyword? = none := Token.IsBorder.keyword? (.inr (.inl opens))
    simpa [none_found] using Stays.fail .dataType
  · intro token _
    split
    · exact (Stays.fail .dataType).fronted
    apply Stays.passing
    split
    · exact (eatWord_stays .PRECISION).discard.bind fun _ => .pure _
    · refine (eatWord_stays .VARCHAR).bind fun _ => .ite (.pure _) ?_
      refine (eatWord_stays .CHAR).bind fun _ => .ite (.pure _) ?_
      exact (eatWord_stays .CHARACTER).bind fun _ => .ite (.pure _) (.fail .characterType)
    · exact (eatWord_stays .VARCHAR).bind fun _ => .ite (.pure _) (.pure _)
    · exact .pure _
    · exact .pure _

theorem readParameter_stays : Stays readParameter := by
  rw [readParameter]
  refine current_stays ?_ (.fail .typeParameter) ?_ ?_
  · rintro token (kind | kind | kind | kind) _ <;> simp only [kind]
  · intro token opens
    simpa only [opens] using Stays.fail .typeParameter
  · intro token _
    have taken : StaysFrom (discard advance >>= fun _ => pure token.sql) := (Stays.pure _).passing
    split
    · exact taken
    · exact taken
    · exact taken
    · exact taken
    · exact (Stays.fail .typeParameter).fronted

theorem readParameters_confined {behind : Behind} {depth : Nat} :
    Confined behind (Within behind (depth + 1)) readParameters fun _ => Within behind depth := by
  rw [readParameters]
  refine eat_rightParen_confined.bind fun found => .ite (fun closed => ?_) fun not_closed => ?_
  · subst closed
    exact .pure fun _ within => within
  · rw [Bool.not_eq_true] at not_closed
    subst not_closed
    refine (readParameter_stays behind (depth + 1)).bind fun first => ?_
    have others : Confined behind (Within behind (depth + 1))
        (many (fun cursor => cursor.sees .comma && (cursor.peek 1).kind != .rightParen) do
          discard advance
          readParameter) fun _ => Within behind (depth + 1) := by
      refine many_confined ?_ ((discard_advance_confined.strengthen ?_).bind fun _ =>
        readParameter_stays behind (depth + 1))
      · -- a comma that ends the run has a border behind it, but no closing parenthesis of ours
        intro run within
        match run with
        | [] =>
            have unseen (behind : Behind) (ends : behind.border.kind = .endOfInput) :
                (behind.cursor []).sees .comma = false := by simp [Cursor.sees, ends]
            simp only [unseen _ within.border_of_deep.1, unseen _ within.border_of_deep.2,
              Bool.false_and]
        | [token] =>
            by_cases comma : token.kind = .comma
            · have ends := (within.behind_comma comma).border_of_deep
              have border (behind : Behind) :
                  (behind.cursor [token]).peek 1 = (behind.cursor []).current := by
                cases tokens : behind.tokens <;> simp [Cursor.peek, Cursor.current, Behind.cursor,
                  tokens]
              simp [Cursor.sees, comma, border, ends]
            · have unseen (behind : Behind) : (behind.cursor [token]).sees .comma = false := by
                simp [Cursor.sees, comma]
              simp only [unseen, Bool.false_and]
        | token :: next :: rest => rfl
      · rintro run ⟨within, sees⟩
        have comma := (Bool.and_eq_true_iff.mp sees).1
        cases run with
        | nil => simp [Cursor.sees, within.border_of_deep] at comma
        | cons token rest =>
            exact ⟨token, rest, rfl, within.behind_comma (by simpa [Cursor.sees] using comma)⟩
    refine others.bind fun _ => eat_comma_confined.discard.bind fun _ => ?_
    exact expect_rightParen_confined.discard.bind fun _ => .pure fun _ within => within

theorem readModifier_stays (type : DataType) : Stays (readModifier type) := by
  rw [readModifier]
  refine (eatWord_stays .UNSIGNED).bind fun _ => .ite (.pure _) ?_
  exact (eatWord_stays .ZEROFILL).discard.bind fun _ => .pure _

theorem read_stays : Stays read := by
  rw [read]
  apply readName_stays.bind
  intro word behind depth
  have modifiers (parameters : List String) : Confined behind (Within behind depth)
      (foldWhile (fun cursor => cursor.seesWord .UNSIGNED || cursor.seesWord .ZEROFILL) readModifier
        { name := word.word, parameters }) fun _ => Within behind depth := by
    have same (run : List Token) :
        ((behind.alone.cursor run).seesWord .UNSIGNED ||
          (behind.alone.cursor run).seesWord .ZEROFILL)
          = ((behind.cursor run).seesWord .UNSIGNED || (behind.cursor run).seesWord .ZEROFILL) := by
      rw [Behind.seesWord_alone, Behind.seesWord_alone]
    refine foldWhile_confined ?_ ?_ ?_ _
    · exact fun run _ => (same run ▸ ·)
    · exact fun _ run _ _ _ on _ => (same run).trans on
    · exact fun type => (readModifier_stays type behind depth).strengthen fun run given => given.1
  refine eat_leftParen_confined.bind fun found => .ite (fun opened => ?_) fun not_opened => ?_
  · subst opened
    exact readParameters_confined.bind modifiers
  · rw [Bool.not_eq_true] at not_opened
    subst not_opened
    exact modifiers []

end DataType

theorem Token.follow_append (stop : Nat) (run tokens : List Token)
    (bordered : ∀ token ∈ tokens.head?, token.IsBorder) :
    Token.follow stop (run ++ tokens) =
      ((Token.follow stop run).1, (Token.follow stop run).2 ++ tokens) := by
  induction run generalizing stop with
  | nil =>
      cases tokens with
      | nil => rfl
      | cons token rest =>
          have border := bordered token rfl
          have stays : ¬((token.kind = .identifier ∨ token.kind = .number) ∧
              token.span.start = stop) := by
            rcases border with kind | kind | kind | kind <;> simp [kind]
          simp [Token.follow, stays]
  | cons token rest ih =>
      simp only [List.cons_append, Token.follow]
      split
      · exact ih _
      · rfl

theorem Token.follow_keeps {P : List Token → Prop} [Keeps P] (stop : Nat) {run : List Token}
    (holds : P run) : P (Token.follow stop run).2 := by
  induction run generalizing stop with
  | nil => exact holds
  | cons token rest ih =>
      simp only [Token.follow]
      split
      next goes_on =>
        refine ih _ (Keeps.keep holds fun border => ?_)
        rcases border with kind | kind | kind | kind <;> simp [kind] at goes_on
      next => exact holds

namespace DefaultValue

theorem numberText_stays (token : Token) : Stays (numberText token) := by
  intro behind depth run within value cursor done
  have read (behind : Behind) : numberText token (behind.cursor run) =
      .ok (Span.text ⟨token.span.start, (Token.follow token.span.stop run).1⟩ behind.source)
        (behind.cursor (Token.follow token.span.stop run).2) := by
    simp [numberText, Behind.cursor, Cursor.slice, Token.follow_append _ _ _ behind.bordered]
  rw [read] at done ⊢
  obtain ⟨rfl, rfl⟩ := EStateM.Result.ok.inj done
  exact ⟨_, Token.follow_keeps token.span.stop within, rfl, rfl⟩

theorem wordText_stays (token : Token) : Stays (wordText token) := by
  rw [wordText]
  have arguments : Stays (do return token.text ++ "(" ++ (← expression) ++ ")") :=
    expression_stays.bind fun _ => .pure _
  have no_string (next : Token) (border : next.IsBorder) : next.isString = false := by
    rcases border with kind | kind | kind | kind <;> simp [Token.isString, kind]
  refine current_stays ?_ (.pure token.text) ?_ ?_
  · intro next border not_opening
    simp [no_string next border, not_opening]
  · intro next opens
    have border : next.IsBorder := .inr (.inl opens)
    simpa only [no_string next border, Bool.false_and, Bool.false_eq_true, ↓reduceIte, opens]
      using arguments
  · intro next _
    split
    · intro behind depth
      refine pass_confined.bind fun _ => (look_confined fun _ _ => rfl).weaken ?_
      exact fun _ _ given => given.1
    · exact (Stays.ite arguments (.pure _)).fronted

theorem read_stays : Stays read := by
  rw [read]
  refine current_stays ?_ (.fail .defaultValue) ?_ ?_
  · rintro token (kind | kind | kind | kind) not_opening <;>
      first | exact absurd kind not_opening | simp only [kind]
  · intro token opens
    simp only [opens]
    exact expression_stays.bind fun _ => .pure _
  · intro token _
    split
    · exact (expression_stays.bind fun _ => .pure _).fronted
    · exact (Stays.pure _).passing
    · exact (numberText_stays token).passing
    · exact (wordText_stays token).passing
    · exact (wordText_stays token).passing
    · exact (Stays.fail .defaultValue).fronted

end DefaultValue

theorem GeneratedColumn.read_stays : Stays GeneratedColumn.read := by
  have body : Stays GeneratedColumn.readBody := by
    rw [GeneratedColumn.readBody]
    apply (expectWord_stays .AS).bind
    intro _
    apply expression_stays.bind
    intro text
    refine (eatWord_stays .STORED).bind fun _ => .ite (.pure _) ?_
    exact (eatWord_stays .VIRTUAL).discard.bind fun _ => .pure _
  rw [GeneratedColumn.read_eq]
  refine (eatWord_stays .GENERATED).bind fun _ => .ite ?_ body
  exact (expectWord_stays .ALWAYS).bind fun _ => body

namespace ColumnClause

theorem readFrom_stays (word : Keyword) : StaysFrom (readFrom word) := by
  rw [readFrom.eq_def]
  split
  · exact ((eatWord_stays .NULL).bind fun _ => .ite (.pure _) (.pure _)).passing
  · exact (Stays.pure _).passing
  · exact (DefaultValue.read_stays.clause _).passing
  · exact (Stays.pure _).passing
  · exact ((eatWord_stays .KEY).discard.bind fun _ => .pure _).passing
  · exact ((eatWord_stays .KEY).discard.bind fun _ => .pure _).passing
  · exact ((eatWord_stays .KEY).discard.bind fun _ => .pure _).passing
  · exact (string_stays.clause _).passing
  · exact (word_stays.clause _).passing
  · exact ((expectWord_stays .SET).bind fun _ => word_stays.clause _).passing
  · exact (word_stays.clause _).passing
  · exact (GeneratedColumn.read_stays.clause _).fronted
  · exact (GeneratedColumn.read_stays.clause _).fronted
  · exact (Stays.pure _).passing
  · exact (Stays.pure _).passing
  · refine ((eatWord_stays .UPDATE).bind fun _ => .ite ?_ (.pure _)).passing
    exact DefaultValue.read_stays.clause _
  · exact (word_stays.clause _).passing
  · exact (word_stays.clause _).passing
  · exact (Reference.read_stays.clause _).fronted
  · refine (name?_stays.bind fun name => ?_).passing
    intro behind depth
    refine (look_confined fun run _ => Behind.seesWord_alone .CHECK).bind fun found => ?_
    have either : Stays (if found = true then do return ColumnClause.check (← Check.read name)
        else pure .skipped) := .ite ((Check.read_stays name).clause _) (.pure _)
    exact (either behind depth).strengthen fun run given => given.1
  · exact ((Check.read_stays none).clause _).fronted
  · exact (Stays.pure _).passing

theorem read_confined {behind : Behind} {depth : Nat} :
    Confined behind
      (fun run => Within behind depth run ∧
        ∃ token ∈ run.head?, token.kind = .leftParen ∨ ¬token.IsBorder)
      read fun _ => Within behind depth := by
  rw [read]
  refine front_confined fun token passed => ?_
  split
  next word found =>
    refine (readFrom_stays word behind depth).strengthen ?_
    rintro run ⟨within, front⟩
    exact ⟨within, token, front, Token.not_isBorder_of_keyword found⟩
  next =>
    refine (skipAny_confined.strengthen ?_).bind fun _ => .pure fun _ within => within
    rintro run ⟨within, front⟩
    exact ⟨within, token, front, passed⟩

end ColumnClause

theorem Column.read_stays : Stays Column.read := by
  rw [Column.read]
  apply (name_stays .columnName).bind
  intro name
  apply DataType.read_stays.bind
  intro dataType
  exact (clauses_stays fun _ _ => ColumnClause.read_confined).bind fun _ => .pure _

theorem IndexType.read_stays : Stays IndexType.read := by
  rw [IndexType.read]
  refine (eatWord_stays .BTREE).bind fun _ => .ite (.pure _) ?_
  exact (eatWord_stays .HASH).bind fun _ => .ite (.pure _) (.fail .indexType)

theorem IndexType.read?_stays : Stays IndexType.read? := by
  rw [IndexType.read?]
  exact (eatWord_stays .USING).bind fun _ => .ite (IndexType.read_stays.clause some) (.pure none)

namespace IndexClause

theorem readFrom_stays (word : Keyword) : Stays (readFrom word) := by
  rw [readFrom.eq_def]
  split
  · exact (unsignedInteger_stays.clause _).valued
  · exact IndexType.read_stays.clause _
  · exact (expectWord_stays .PARSER).bind fun _ => (name_stays .identifier).clause _
  · exact string_stays.clause _
  · exact .pure _
  · exact .pure _
  · exact (string_stays.clause _).valued
  · exact (string_stays.discard.bind fun _ => .pure _).valued
  · exact (word_stays.clause _).valued
  · exact (word_stays.clause _).valued
  · exact .pure _

theorem read_confined {behind : Behind} {depth : Nat} :
    Confined behind
      (fun run => Within behind depth run ∧
        ∃ token ∈ run.head?, token.kind = .leftParen ∨ ¬token.IsBorder)
      read fun _ => Within behind depth := by
  rw [read]
  refine front_confined fun token passed => ?_
  split
  next word found =>
    refine ((readFrom_stays word).passing behind depth).strengthen ?_
    rintro run ⟨within, front⟩
    exact ⟨within, token, front, Token.not_isBorder_of_keyword found⟩
  next =>
    refine (skipAny_confined.strengthen ?_).bind fun _ => .pure fun _ within => within
    rintro run ⟨within, front⟩
    exact ⟨within, token, front, passed⟩

theorem readList_stays : Stays readList :=
  clauses_stays fun _ _ => read_confined

end IndexClause

theorem PrimaryKey.read_stays (name : Option String) : Stays (PrimaryKey.read name) := by
  rw [PrimaryKey.read]
  apply (expectWord_stays .PRIMARY).bind
  intro _
  apply (expectWord_stays .KEY).bind
  intro _
  apply IndexType.read?_stays.bind
  intro indexType
  apply KeyPart.readList_stays.bind
  intro columns
  exact IndexClause.readList_stays.bind fun _ => .pure _

theorem Index.read_stays (kind : IndexKind) : StaysFrom (Index.read kind) := by
  have named : Stays (Index.readNamed kind) := by
    rw [Index.readNamed]
    apply name?_stays.bind
    intro name
    apply IndexType.read?_stays.bind
    intro indexType
    apply KeyPart.readList_stays.bind
    intro columns
    exact IndexClause.readList_stays.bind fun _ => .pure _
  rw [Index.read_eq]
  refine (Stays.ite ?_ named).passing
  refine (eatWord_stays .INDEX).bind fun _ => .ite named ?_
  exact (eatWord_stays .KEY).discard.bind fun _ => named

theorem ForeignKey.read_stays (constraint : Option String) :
    Stays (ForeignKey.read constraint) := by
  rw [ForeignKey.read]
  apply (expectWord_stays .FOREIGN).bind
  intro _
  apply (expectWord_stays .KEY).bind
  intro _
  apply name?_stays.bind
  intro name
  apply KeyPart.readList_stays.bind
  intro columns
  exact Reference.read_stays.bind fun _ => .pure _

theorem Index.readUnique_stays (constraint : Option String) :
    StaysFrom (Index.readUnique constraint) :=
  fun behind depth => (Index.read_stays .unique behind depth).clause _

namespace Element

theorem readConstraintName_stays : Stays readConstraintName := by
  rw [readConstraintName]
  exact (eatWord_stays .CONSTRAINT).bind fun _ => .ite name?_stays (.pure none)

theorem readBody_stays (keyTaken : Bool) (constraint : Option String) :
    Stays (readBody keyTaken constraint) := by
  rw [readBody]
  have column : Stays (do
      if constraint.isSome then fail .constraintBody
      readColumn) := by
    have read : Stays readColumn := Column.read_stays.clause _
    exact .ite ((Stays.fail .constraintBody).bind fun _ => read) read
  refine current_stays (fun token border _ => ?_) column (fun token opens => ?_) ?_
  · rw [border.keyword?]
    rfl
  · have none_found : token.keyword? = none := Token.IsBorder.keyword? (.inr (.inl opens))
    rw [none_found]
    exact column
  intro token _
  split
  · have key := (PrimaryKey.read_stays constraint).clause Element.primaryKey
    exact (Stays.ite ((Stays.fail .singlePrimaryKey).bind fun _ => key) key).fronted
  · exact fun behind depth => (Index.readUnique_stays constraint behind depth).clause _
  · exact fun behind depth => (Index.read_stays .plain behind depth).clause _
  · exact fun behind depth => (Index.read_stays .plain behind depth).clause _
  · exact fun behind depth => (Index.read_stays .fulltext behind depth).clause _
  · exact fun behind depth => (Index.read_stays .spatial behind depth).clause _
  · exact ((ForeignKey.read_stays constraint).clause _).fronted
  · exact ((Check.read_stays constraint).clause _).fronted
  · exact column.fronted

theorem read_stays (keyTaken : Bool) : Stays (read keyTaken) :=
  readConstraintName_stays.bind fun constraint => readBody_stays keyTaken constraint

end Element

end SchemaDrift
