import SchemaDrift.Proofs.Aligned
import SchemaDrift.Proofs.ColumnClauses
import SchemaDrift.Proofs.InPlace

/-!
Numeric literals as defaults. The scanner has no token for most of them: they come as a number and the
words and numbers directly behind it, and the reader of a default follows those as far as they touch.
A plus sign belongs to no token, so a literal with a signed exponent of that form is cut in front of
it; every other literal is kept as it is written.
-/

namespace SchemaDrift

open Reading

def hexDigits : List Char :=
  "0123456789abcdefABCDEF".toList

/-- A sign, digits, perhaps a point with more digits, perhaps an exponent; or digits to the base 16 or
2 behind the letter for it. -/
inductive NumericLiteral : List Char → Prop where
  | decimal {sign whole fraction exponent : List Char} (signed : sign = [] ∨ sign = ['-'])
      (digits : Digits whole)
      (point : fraction = [] ∨ ∃ decimals, fraction = '.' :: decimals ∧ Digits decimals)
      (scaled : exponent = [] ∨ ∃ letter sign power, exponent = letter :: (sign ++ power) ∧
        letter ∈ ['e', 'E'] ∧ sign ∈ [[], ['+'], ['-']] ∧ Digits power) :
      NumericLiteral (sign ++ whole ++ fraction ++ exponent)
  | hexadecimal {digits : List Char} (nonempty : digits ≠ []) (each : ∀ c ∈ digits, c ∈ hexDigits) :
      NumericLiteral ('0' :: 'x' :: digits)
  | binary {digits : List Char} (nonempty : digits ≠ []) (each : ∀ c ∈ digits, c ∈ ['0', '1']) :
      NumericLiteral ('0' :: 'b' :: digits)

/-! Words that are no keywords. -/

namespace Text

theorem continuesWord_of_isDigit {c : Char} (digit : c.isDigit = true) : continuesWord c = true :=
  forall_digit (P := fun c => continuesWord c = true) (by decide +kernel) digit

end Text

theorem spelled_name {chars : List Char}
    (other : ∀ keyword : Keyword, keyword.word.toList ≠ chars.map Char.toUpper) :
    Spelled (.ofList chars) .identifier := by
  refine .of_name (Option.eq_none_iff_forall_ne_some.mpr fun keyword found => other keyword ?_)
  rw [← Keyword.ofWord?_eq_some_iff.mp found, String.toList_map, String.toList_ofList]

theorem Keyword.word_plain (keyword : Keyword) :
    keyword.word.toList.head? ≠ some 'X' ∧ ∀ c ∈ keyword.word.toList, c.isDigit = false := by
  have each : ∀ keyword ∈ all, keyword.word.toList.head? ≠ some 'X' ∧
      keyword.word.toList.all (!·.isDigit) = true := by
    decide +kernel
  obtain ⟨front, no_digit⟩ := each keyword (mem_all keyword)
  exact ⟨front, by simpa using no_digit⟩

theorem toUpper_of_isDigit {c : Char} (digit : c.isDigit = true) : c.toUpper = c :=
  Text.forall_digit (P := fun c => c.toUpper = c) (by decide) digit

theorem spelled_of_digit {chars : List Char} {c : Char} (member : c ∈ chars)
    (digit : c.isDigit = true) : Spelled (.ofList chars) .identifier := by
  refine spelled_name fun keyword same => ?_
  have present : c ∈ keyword.word.toList := by
    rw [same, ← toUpper_of_isDigit digit]
    exact List.mem_map_of_mem member
  rw [keyword.word_plain.2 c present] at digit
  contradiction

theorem spelled_of_x (chars : List Char) : Spelled (.ofList ('x' :: chars)) .identifier := by
  refine spelled_name fun keyword same => keyword.word_plain.1 ?_
  rw [same]
  rfl

theorem spelled_of_e {letter : Char} (listed : letter ∈ ['e', 'E']) :
    Spelled (.ofList [letter]) .identifier := by
  have other : ∀ keyword ∈ Keyword.all, keyword.word.toList ≠ ['E'] := by decide +kernel
  have capital : [letter].map Char.toUpper = ['E'] := by
    simp only [List.mem_cons, List.not_mem_nil, or_false] at listed
    rcases listed with rfl | rfl <;> rfl
  refine spelled_name fun keyword => ?_
  rw [capital]
  exact other keyword (Keyword.mem_all keyword)

/-! The pieces of a literal. -/

/-- Words that are no keywords, and numbers, each right behind the other. -/
inductive Joined (behind : List Char) : List Char → Prop where
  | finish : Joined behind []
  | piece {kind : TokenKind} {written chars : List Char} (listed : kind ∈ [.identifier, .number])
      (lexeme : Lexeme kind written written (chars ++ behind)) (later : Joined behind chars) :
      Joined behind (written ++ chars)

theorem Lexeme.name {c : Char} {rest behind : List Char} (starts : Text.startsWord c = true)
    (continues : ∀ d ∈ rest, Text.continuesWord d = true)
    (spelled : Spelled (.ofList (c :: rest)) .identifier) (severs : ∀ d ∈ behind.head?, Severs d) :
    Lexeme .identifier (c :: rest) (c :: rest) behind :=
  .word starts continues (fun d next => (severs d next).outside.1) spelled

namespace NumericLiteral

variable {literal behind : List Char}

theorem pieces (numeric : NumericLiteral literal) (no_plus : '+' ∉ literal)
    (ends : ∃ c ∈ behind.head?, Severs c) :
    ∃ number others, literal = number ++ others ∧
      Lexeme .number number number (others ++ behind) ∧ Joined behind others := by
  have severs : ∀ c ∈ behind.head?, Severs c := by
    obtain ⟨c, first, severs⟩ := ends
    intro d next
    obtain rfl := Option.mem_unique first next
    exact severs
  have stops : ∀ c ∈ behind.head?, c ≠ '.' ∧ c.isDigit = false := fun c next =>
    ⟨(severs c next).outside.2.2 '.' (by simp), (severs c next).outside.2.1⟩
  cases numeric with
  | @decimal sign whole fraction exponent signed digits point scaled =>
      rcases scaled with rfl | ⟨letter, sign, power, rfl, listed, powered, power_digits⟩
      · exact ⟨_, [], rfl, .numeral signed digits point stops, .finish⟩
      have letters : ∀ letter ∈ ['e', 'E'], Text.startsWord letter = true ∧ letter ≠ '.' ∧
          letter.isDigit = false := by
        simp only [List.forall_mem_cons, List.not_mem_nil, false_implies, implies_true]
        decide +kernel
      obtain ⟨starts, no_point, no_digit⟩ := letters letter listed
      refine ⟨_, _, rfl, .numeral signed digits point (by simp [no_point, no_digit]), ?_⟩
      simp only [List.mem_cons, List.not_mem_nil, or_false] at powered
      rcases powered with rfl | rfl | rfl
      · -- the digits belong to the word
        obtain ⟨d, others, rfl⟩ := List.exists_cons_of_ne_nil power_digits.1
        rw [List.nil_append, ← List.append_nil (letter :: d :: others)]
        refine .piece (by simp) (.name starts (fun c member => ?_) ?_ severs) .finish
        · exact Text.continuesWord_of_isDigit (power_digits.2 c member)
        · exact spelled_of_digit (by simp) (power_digits.2 d List.mem_cons_self)
      · exact absurd (by simp) no_plus
      · -- the minus sign belongs to a number of its own
        have dash : Text.continuesWord '-' = false := by decide +kernel
        have name : Lexeme .identifier [letter] [letter] ('-' :: power ++ behind) :=
          .word starts (by simp) (by simp [dash]) (spelled_of_e listed)
        have number : Lexeme .number (['-'] ++ power ++ []) (['-'] ++ power ++ []) ([] ++ behind) :=
          .numeral (.inr rfl) power_digits (.inl rfl) stops
        have later := Joined.piece (by simp) number .finish
        simp only [List.append_nil] at later
        exact .piece (by simp) name later
  | @hexadecimal digits nonempty each =>
      refine ⟨['0'], 'x' :: digits, rfl, ?_, ?_⟩
      · exact @Lexeme.numeral [] ['0'] [] _ (.inl rfl) ⟨by simp, by simp⟩ (.inl rfl) (by simp)
      · rw [← List.append_nil ('x' :: digits)]
        refine .piece (by simp) (.name (by decide +kernel) (fun c member => ?_)
          (spelled_of_x digits) severs) .finish
        have continues : hexDigits.all Text.continuesWord = true := by decide +kernel
        exact List.all_eq_true.mp continues c (each c member)
  | @binary digits nonempty each =>
      refine ⟨['0'], 'b' :: digits, rfl, ?_, ?_⟩
      · exact @Lexeme.numeral [] ['0'] [] _ (.inl rfl) ⟨by simp, by simp⟩ (.inl rfl) (by simp)
      · obtain ⟨d, others, rfl⟩ := List.exists_cons_of_ne_nil nonempty
        have digit : ∀ c ∈ ['0', '1'], c.isDigit = true := by simp
        rw [← List.append_nil ('b' :: d :: others)]
        refine .piece (by simp) (.name (by decide +kernel) (fun c member => ?_) ?_ severs) .finish
        · exact Text.continuesWord_of_isDigit (digit c (each c member))
        · exact spelled_of_digit (by simp) (digit d (each d List.mem_cons_self))

end NumericLiteral

/-! Following the pieces. -/

namespace Token

variable {before chars behind : List Char}

theorem start_le_of_mem_visible {token : Token}
    (member : token ∈ visible (.ofPrefix before) chars) :
    String.utf8Len before ≤ token.span.start :=
  (scan_tiles before chars).start_le token (List.mem_append_left _ (List.mem_filter.mp member).1)

theorem follow_severed (ends : ∃ c ∈ behind.head?, Severs c) :
    follow (String.utf8Len before) (visible (.ofPrefix before) behind) =
      (String.utf8Len before, visible (.ofPrefix before) behind) := by
  obtain ⟨c, first, severs⟩ := ends
  obtain ⟨behind, rfl⟩ := List.head?_eq_some_iff.mp first
  have mark {kind : TokenKind} (listed : (c, kind) ∈ marks)
      (other : kind ≠ .identifier ∧ kind ≠ .number) (seen : kind ≠ .directive) :
      follow (String.utf8Len before) (visible (.ofPrefix before) (c :: behind)) =
        (String.utf8Len before, visible (.ofPrefix before) (c :: behind)) := by
    have scanned : visible (.ofPrefix before) ([c] ++ behind) = _ := visible_lexeme (.mark listed) seen
    rw [List.singleton_append] at scanned
    rw [scanned, follow, if_neg (by simp [standing, other])]
  rcases severs with blank | rfl | rfl
  · rw [visible_blank blank]
    cases seen : visible (.ofPrefix (before ++ [c])) behind with
    | nil => rfl
    | cons token rest =>
        have further : String.utf8Len (before ++ [c]) ≤ token.span.start :=
          start_le_of_mem_visible (seen ▸ List.mem_cons_self)
        have apart : token.span.start ≠ String.utf8Len before := by
          have positive := c.utf8Size_pos
          simp only [String.utf8Len_append, String.utf8Len_cons] at further
          omega
        rw [follow, if_neg fun touches => apart touches.2]
  · exact @mark .rightParen (by decide) (by decide) (by decide)
  · exact @mark .comma (by decide) (by decide) (by decide)

end Token

theorem Joined.follow {before chars behind : List Char} (joined : Joined behind chars)
    (ends : ∃ c ∈ behind.head?, Severs c) :
    Token.follow (String.utf8Len before) (Token.visible (.ofPrefix before) (chars ++ behind)) =
      (String.utf8Len (before ++ chars), Token.visible (.ofPrefix (before ++ chars)) behind) := by
  induction joined generalizing before with
  | finish =>
      rw [List.nil_append, List.append_nil]
      exact Token.follow_severed ends
  | @piece kind written chars listed lexeme later ih =>
      have seen : kind ≠ .directive := by
        rintro rfl
        simp at listed
      simp only [List.mem_cons, List.not_mem_nil, or_false] at listed
      rw [List.append_assoc, Token.visible_lexeme lexeme seen, Token.follow,
        if_pos ⟨listed, rfl⟩, ← List.append_assoc]
      exact ih

theorem NumericLiteral.read {before literal behind : List Char} (numeric : NumericLiteral literal)
    (no_plus : '+' ∉ literal) (ends : ∃ c ∈ behind.head?, Severs c) (close : Token) :
    DefaultValue.read ⟨before ++ literal ++ behind, Token.visible (.ofPrefix before) (literal ++ behind),
        close⟩ =
      .ok (.ofList literal) ⟨before ++ literal ++ behind,
        Token.visible (.ofPrefix (before ++ literal)) behind, close⟩ := by
  obtain ⟨number, others, rfl, lexeme, joined⟩ := numeric.pieces no_plus ends
  have followed : Token.follow (String.utf8Len (before ++ number))
      (Token.visible (.ofPrefix (before ++ number)) (others ++ behind)) = _ := joined.follow ends
  have slice := Span.slice?_between before (number ++ others) behind
  rw [List.append_assoc number, Token.visible_lexeme lexeme (by simp), DefaultValue.read, current_bind]
  simp only [Cursor.current, List.headD_cons, Token.standing]
  rw [bind_of_ok discard_advance]
  rw [List.append_assoc before number others] at followed
  simp only [DefaultValue.numberText, followed, Cursor.slice, Span.text]
  rw [slice, Option.getD_some]

/-! Columns with such a default. -/

theorem ColumnClause.last_eq {α : Type} {pick : ColumnClause → Option α} {clause : ColumnClause}
    {others : List ColumnClause} {value : α} (clauses : List ColumnClause)
    (picked : pick clause = some value) (silent : ∀ other ∈ others, pick other = none) :
    last pick (clauses ++ clause :: others) = some value := by
  rw [last, List.filterMap_append, List.filterMap_cons_some picked,
    List.filterMap_eq_nil_iff.mpr silent, List.getLast?_concat]

namespace Column

variable {name : String} {dataType : DataType} {clauses others : List ColumnClause}

/-- The last default is the column's, and nothing else of the column comes from it. -/
theorem declared_default (silent : ∀ text, ColumnClause.defaultValue text ∉ others) (text : String) :
    declared name dataType (clauses ++ .defaultValue text :: others) =
      { declared name dataType (clauses ++ others) with defaultValue := some text } := by
  have said : (declared name dataType (clauses ++ .defaultValue text :: others)).defaultValue =
      some text := by
    refine ColumnClause.last_eq clauses rfl fun clause member => ?_
    split
    next other => exact absurd member (silent other)
    next => rfl
  simp only [declared, ColumnClause.last] at said ⊢
  rw [said]
  simp

theorem read_around_default {source : List Char} {column default first last stop close : Token}
    {type front value back rest : List Token} {text : String} (named : column.isName = true)
    (typed : dataType.Written type) (written : Attributes source first front clauses)
    (starts : default.kind = .keyword .DEFAULT)
    (default_read : ColumnClause.read ⟨source, default :: value, close⟩ =
      .ok (.defaultValue text) ⟨source, back ++ stop :: rest, close⟩)
    (shorter : (back ++ stop :: rest).length ≤ value.length)
    (further : Attributes source last back others)
    (stands : ∀ token ∈ front ++ back, token.StandsIn source)
    (stops : stop.kind = .comma ∨ stop.kind = .rightParen) :
    Column.read ⟨source, column :: (type ++ (front ++ default :: value)), close⟩ =
      .ok (declared column.text dataType (clauses ++ .defaultValue text :: others),
        (clauses ++ others).filterMap ColumnClause.check?) ⟨source, stop :: rest, close⟩ := by
  obtain ⟨stands_front, stands_back⟩ := List.forall_mem_append.mp stands
  obtain ⟨later, rounds, same_later, checks_later⟩ := further.rounds stands_back stops rest
  have goes : Rounds (!·.atElementEnd) ColumnClause.read ⟨source, default :: value, close⟩
      (.defaultValue text :: later) ⟨source, stop :: rest, close⟩ := by
    refine .round ?_ default_read (Nat.lt_succ_of_le shorter) rounds
    simp [Cursor.atElementEnd, Cursor.current, starts]
  have fresh (last : Token) : Onward last ⟨source, default :: value, close⟩ :=
    .of_fresh (by rw [starts]; decide) (by simp [starts]) _
  obtain ⟨earlier, whole, same_earlier, checks_earlier⟩ :=
    written.rounds_then stands_front fresh goes
  have row : (earlier ++ .defaultValue text :: later).foldl apply { name := column.text, dataType } =
      (clauses ++ .defaultValue text :: others).foldl apply { name := column.text, dataType } := by
    rw [List.foldl_append, List.foldl_cons, same_earlier, same_later, List.foldl_append,
      List.foldl_cons]
  have checks : (earlier ++ .defaultValue text :: later).filterMap ColumnClause.check? =
      (clauses ++ others).filterMap ColumnClause.check? := by
    rw [List.filterMap_append, List.filterMap_cons, checks_earlier, checks_later,
      List.filterMap_append]
    rfl
  rw [read_of_many named typed (written.onward_of fresh).endsType whole.many, ← foldl_apply, row,
    foldl_apply, checks]

end Column

namespace Listed

theorem changes_default (renames : Bool) {before after : Column} {first second : String}
    (defaulted : before.defaultValue = some first)
    (edited : after = { before with defaultValue := some second }) (different : first ≠ second)
    (earlier later : List Column) :
    ∃ record : ChangeRecord Column,
      changes renames (earlier ++ before :: later) (earlier ++ after :: later) =
        [.modified before after record] ∧
      record ColumnAspect.defaultValue = some ⟨some first, some second⟩ ∧
      ∀ aspect, aspect ≠ ColumnAspect.defaultValue → record aspect = none := by
  have shown : ChangeRecord.between before after ColumnAspect.defaultValue =
      some ⟨some first, some second⟩ := by
    have now : after.defaultValue = some second := by rw [edited]
    rw [← defaulted, ← now]
    exact if_neg fun same => different (Option.some.inj (defaulted.symm.trans (same.trans now)))
  have changed : (ChangeRecord.between before after).isEmpty = false := by
    by_contra empty
    have unchanged := (ChangeRecord.isEmpty_iff _).mp (Bool.not_eq_false _ ▸ empty)
      ColumnAspect.defaultValue
    rw [shown] at unchanged
    contradiction
  have same_name : identity before = identity after := by rw [edited]; rfl
  refine ⟨_, ?_, shown, fun aspect other => ?_⟩
  · rw [changes_edited renames same_name, Change.between?, changed]
    rfl
  · rw [ChangeRecord.between_eq_none_iff, edited]
    cases aspect <;> first | rfl | contradiction

end Listed

/-- A column that has a numeric default without a plus sign keeps it as it is written, so tables that
differ in such a default alone are told apart by it. -/
theorem Column.read_numericDefault {text : String} {before literal behind : List Char}
    {earlier type front back rest : List Token} {name default first last stop : Token}
    {dataType : DataType} {clauses others : List ColumnClause}
    (parts : text.toList = before ++ literal ++ behind) (numeric : NumericLiteral literal)
    (no_plus : '+' ∉ literal) (ends : ∃ c ∈ behind.head?, Severs c)
    (tokens : Token.visible .start text.toList = earlier ++ name :: (type ++ (front ++ default ::
      Token.visible (.ofPrefix before) (literal ++ behind))))
    (named : name.isName = true) (typed : dataType.Written type)
    (written : Attributes text.toList first front clauses)
    (starts : default.kind = .keyword .DEFAULT)
    (following : Token.visible (.ofPrefix (before ++ literal)) behind = back ++ stop :: rest)
    (further : Attributes text.toList last back others)
    (silent : ∀ text, ColumnClause.defaultValue text ∉ others)
    (stops : stop.kind = .comma ∨ stop.kind = .rightParen) (close : Token) :
    ∃ column : String → Column,
      (∀ value, column value =
        declared name.text dataType (clauses ++ .defaultValue value :: others)) ∧
      Column.read ⟨text.toList, name :: (type ++ (front ++ default ::
          Token.visible (.ofPrefix before) (literal ++ behind))), close⟩ =
        .ok (column (.ofList literal), (clauses ++ others).filterMap ColumnClause.check?)
          ⟨text.toList, stop :: rest, close⟩ ∧
      (column (.ofList literal)).defaultValue = some (.ofList literal) ∧
      ∀ (other : String) (renames : Bool) (old new : Table) (columns more : List Column),
        String.ofList literal ≠ other →
        old.columns = columns ++ column (.ofList literal) :: more →
        new = { old with columns := columns ++ column other :: more } →
        ∃ record : ChangeRecord Column,
          (TableDiff.between renames (some old) (some new)).columns =
            [.modified (column (.ofList literal)) (column other) record] ∧
          record ColumnAspect.defaultValue = some ⟨some (.ofList literal), some other⟩ ∧
          ∀ aspect, aspect ≠ ColumnAspect.defaultValue → record aspect = none := by
  have kept (value : String) : declared name.text dataType (clauses ++ .defaultValue value :: others) =
      { declared name.text dataType (clauses ++ others) with defaultValue := some value } :=
    declared_default silent value
  have default_read : ColumnClause.read
      ⟨text.toList, default :: Token.visible (.ofPrefix before) (literal ++ behind), close⟩ =
      .ok (.defaultValue (.ofList literal)) ⟨text.toList, back ++ stop :: rest, close⟩ := by
    rw [ColumnClause.read_word starts, ColumnClause.readFrom, bind_of_ok discard_advance, parts,
      ← following]
    exact bind_of_ok (numeric.read no_plus ends close) _
  -- what stands behind the literal are the last of the tokens that it is read from
  obtain ⟨count, behind_literal⟩ : ∃ count, back ++ stop :: rest =
      (Token.visible (.ofPrefix before) (literal ++ behind)).drop count := by
    obtain ⟨count, dropped⟩ := DefaultValue.read_uniform.drops rfl
      (numeric.read no_plus ends (.endOf text))
    exact ⟨count, following.symm.trans (congrArg Cursor.ahead dropped)⟩
  have stands : ∀ token ∈ front ++ back, token.StandsIn text.toList := by
    intro token member
    refine Token.standsIn_of_mem ?_
    rw [tokens]
    rcases List.mem_append.mp member with in_front | in_back
    · simp [in_front]
    · have present := List.mem_of_mem_drop (behind_literal ▸ List.mem_append_left _ in_back)
      simp [present]
  have shorter : (back ++ stop :: rest).length ≤
      (Token.visible (.ofPrefix before) (literal ++ behind)).length := by
    rw [behind_literal, List.length_drop]
    omega
  refine ⟨_, fun _ => rfl, ?_, ?_, ?_⟩
  · exact read_around_default named typed written starts default_read shorter further stands stops
  · rw [kept]
  · intro other renames old new columns more different before_edit after_edit
    have compared : (TableDiff.between renames (some old) (some new)).columns =
        Listed.changes renames old.columns new.columns := rfl
    rw [compared, before_edit, after_edit]
    refine Listed.changes_default renames ?_ ?_ different columns more
    · rw [kept]
    · rw [kept, kept]

/-- The plus sign of 1e+5 is part of no token: the default ends in front of it, as that of 1e+6 does. -/
theorem Column.plus_cuts_default :
    NumericLiteral "1e+5".toList ∧ NumericLiteral "1e+6".toList ∧
    (Table.parse "CREATE TABLE t (a DOUBLE DEFAULT 1e+5)").toOption.map Table.columns =
      some [{ name := "a", dataType := { name := "DOUBLE" }, defaultValue := some "1e" }] ∧
    (Table.parse "CREATE TABLE t (a DOUBLE DEFAULT 1e+6)").toOption.map Table.columns =
      some [{ name := "a", dataType := { name := "DOUBLE" }, defaultValue := some "1e" }] := by
  have literal (power : Char) (digit : power.isDigit = true) :
      NumericLiteral ['1', 'e', '+', power] :=
    @NumericLiteral.decimal [] ['1'] [] ['e', '+', power] (.inl rfl) ⟨by simp, by simp⟩ (.inl rfl)
      (.inr ⟨'e', ['+'], [power], rfl, by simp, by simp, by simp, by simpa using digit⟩)
  refine ⟨literal '5' (by decide), literal '6' (by decide), ?_, ?_⟩
  · decide +kernel
  · decide +kernel

/-- A sign, a fraction and an exponent, between two other clauses. -/
theorem Column.read_numericDefault_scaled :
    ∃ (text : String) (rest : List Token) (column : String → Column),
      text = "a DOUBLE NOT NULL DEFAULT -1.5E-7 UNIQUE, b INT)" ∧
      (∀ value, column value =
        { name := "a", dataType := { name := "DOUBLE" }, nullability := .notNull,
          defaultValue := some value, unique := true }) ∧
      '+' ∉ "-1.5E-7".toList ∧ NumericLiteral "-1.5E-7".toList ∧
      Column.read (.ofText text) =
        .ok (column "-1.5E-7", []) ⟨text.toList, rest, .endOf text⟩ ∧
      ∃ record : ChangeRecord Column,
        (TableDiff.between true (some { schema := none, name := "t", columns := [column "-1.5E-7"] })
          (some { schema := none, name := "t", columns := [column "0x1F"] })).columns =
          [.modified (column "-1.5E-7") (column "0x1F") record] ∧
        record ColumnAspect.defaultValue = some ⟨some "-1.5E-7", some "0x1F"⟩ := by
  obtain ⟨text, same⟩ : ∃ text, text = "a DOUBLE NOT NULL DEFAULT -1.5E-7 UNIQUE, b INT)" := ⟨_, rfl⟩
  have parts : text.toList = "a DOUBLE NOT NULL DEFAULT ".toList ++ "-1.5E-7".toList ++
      " UNIQUE, b INT)".toList := by
    rw [same]
    decide
  have numeric : NumericLiteral "-1.5E-7".toList :=
    @NumericLiteral.decimal ['-'] ['1'] ['.', '5'] ['E', '-', '7'] (.inr rfl) ⟨by simp, by simp⟩
      (.inr ⟨['5'], rfl, by simp, by simp⟩)
      (.inr ⟨'E', ['-'], ['7'], rfl, by simp, by simp, by simp, by simp⟩)
  have ends : ∃ c ∈ " UNIQUE, b INT)".toList.head?, Severs c := ⟨' ', by decide, .inl (by decide)⟩
  obtain ⟨negated, null, negated_same, null_same⟩ : ∃ negated null : Token,
      negated = ⟨.keyword .NOT, "NOT", ⟨9, 12⟩, ⟨9, 1, 10⟩⟩ ∧
      null = ⟨.keyword .NULL, "NULL", ⟨13, 17⟩, ⟨13, 1, 14⟩⟩ := ⟨_, _, rfl, rfl⟩
  obtain ⟨unique, stop, rest, unique_same, stop_same, rest_same⟩ :
      ∃ (unique stop : Token) (rest : List Token),
        unique = ⟨.keyword .UNIQUE, "UNIQUE", ⟨34, 40⟩, ⟨34, 1, 35⟩⟩ ∧
        stop = ⟨.comma, ",", ⟨40, 41⟩, ⟨40, 1, 41⟩⟩ ∧
        rest = [⟨.identifier, "b", ⟨42, 43⟩, ⟨42, 1, 43⟩⟩,
          ⟨.keyword .INT, "INT", ⟨44, 47⟩, ⟨44, 1, 45⟩⟩,
          ⟨.rightParen, ")", ⟨47, 48⟩, ⟨47, 1, 48⟩⟩] := ⟨_, _, _, rfl, rfl, rfl⟩
  have tokens : Token.visible .start text.toList = [] ++ ⟨.identifier, "a", ⟨0, 1⟩, ⟨0, 1, 1⟩⟩ ::
      ([⟨.keyword .DOUBLE, "DOUBLE", ⟨2, 8⟩, ⟨2, 1, 3⟩⟩] ++ ([negated, null] ++
        ⟨.keyword .DEFAULT, "DEFAULT", ⟨18, 25⟩, ⟨18, 1, 19⟩⟩ ::
          Token.visible (.ofPrefix "a DOUBLE NOT NULL DEFAULT ".toList)
            ("-1.5E-7".toList ++ " UNIQUE, b INT)".toList))) := by
    rw [same, negated_same, null_same]
    decide +kernel
  have following : Token.visible (.ofPrefix ("a DOUBLE NOT NULL DEFAULT ".toList ++ "-1.5E-7".toList))
      " UNIQUE, b INT)".toList = [unique] ++ stop :: rest := by
    rw [unique_same, stop_same, rest_same]
    decide +kernel
  have typed (first : Token) (double : first.kind = .keyword .DOUBLE) :
      DataType.Written [first] { name := "DOUBLE" } :=
    @DataType.Written.mk [.DOUBLE] .DOUBLE [first] [] [] [] (.plain rfl (by decide))
      (by simp [Spell, double]) .none (by simp)
  have not_null : ColumnClause.Written text.toList [negated, null] (.nullability .notNull) :=
    .words (show ([Keyword.NOT, .NULL], ColumnClause.nullability .notNull) ∈ _ by decide)
      (by rw [negated_same, null_same]; rfl)
  have unique_clause : ColumnClause.Written text.toList [unique] .unique :=
    .words (show ([Keyword.UNIQUE], ColumnClause.unique) ∈ _ by decide) (by rw [unique_same]; rfl)
  have written : Attributes text.toList negated [negated, null] [.nullability .notNull] :=
    .clause not_null rfl .finish
  have further : Attributes text.toList negated [unique] [.unique] := .clause unique_clause rfl .finish
  obtain ⟨column, each, read, -, compared⟩ := read_numericDefault parts numeric (by decide) ends tokens
    rfl (typed _ rfl) written rfl following further (by simp) (.inl (by rw [stop_same])) (.endOf text)
  obtain ⟨record, changes, shown, -⟩ := compared "0x1F" true
    { schema := none, name := "t", columns := [column "-1.5E-7"] } _ [] [] (by decide) rfl rfl
  have cursor : Cursor.ofText text = ⟨text.toList, Token.visible .start text.toList, .endOf text⟩ :=
    rfl
  have whole : Column.read (.ofText text) =
      .ok (column "-1.5E-7", []) ⟨text.toList, stop :: rest, .endOf text⟩ := by
    rw [cursor, tokens]
    exact read
  exact ⟨text, _, column, same, each, by decide, numeric, whole, record, changes, shown⟩

end SchemaDrift
